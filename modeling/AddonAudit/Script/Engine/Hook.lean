import AddonAudit.Pattern
import AddonAudit.Script.Engine.State
import AddonAudit.Script.Preference

/-!
# Hooks

What the hooks of entities decide at a call, a read or a write: nothing, a report, or a value in
place of the result.
-/

namespace AddonAudit.Script

inductive Outcome where
  | silent
  /-- Report; what the advice leaves open comes from the entity. -/
  | flag (a : Advice)
  | value (v : Value)

abbrev Arguments := List (Node × Value)

def Arguments.get? (args : Arguments) (index : Nat) : Option Value :=
  (args[index]? : Option (Node × Value)).map Prod.snd

namespace Hook

open Engine

def returnsInterface (name : String) : Engine Outcome := do
  match (← registry).lookup? ["Components", "interfaces", name] with
  | some id => return .value (.ofEntity id)
  | none => return .silent

def typedByInterface (args : Arguments) : Engine Outcome := do
  match (args.get? 0).bind (·.entity) with
  | some entity =>
    if (← registry).isInterface entity then return .value (.ofEntity entity) else return .silent
  | none => return .silent

/-- Take back the records of arguments that are string literals. -/
def dropInlineLiterals : Arguments → Engine Unit
  | [] => pure ()
  | (n, v) :: rest => do
    when (n.kind = .string) (dropProvisional v)
    dropInlineLiterals rest

def writesPreference (args : Arguments) : Engine Outcome := do
  dropInlineLiterals args
  match args.get? 0 with
  | none => return .silent
  | some v =>
    if v.isDirty then return .silent
    let name := (← heap).toText v
    match GuardedPreference.find? name with
    | none => return .silent
    | some p => return .flag {
        id := some ["javascript", "preference", "banned_pref_set"]
        severity := some .warning
        message := some ("Attempt to set a dangerous preference: \x60" ++ name ++ "\x60")
        description := some p.reason
        signing := some p.signing }

def setsAttribute (args : Arguments) : Engine Outcome := do
  match args.get? 0 with
  | none => return .silent
  | some v =>
    let name := Text.lowerChars ((← heap).toText v).toList
    if v.isDirty || !"on".toList.isPrefixOf name then return .silent
    return .flag {
      id := some ["javascript", "setAttribute", "setting_on*"]
      severity := some .warning
      message := some "\x60on*\x60 attribute being set using \x60setAttribute\x60"
      description := some
        "Event handler attributes are evaluated as code; use \x60addEventListener\x60 instead." }

def createsElement (tag : Option Value) : Engine Outcome := do
  match tag with
  | none => return .silent
  | some tag =>
    if tag.isDirty then return .flag {
      id := some ["javascript", "createElement", "dynamic_tag"]
      severity := some .warning
      message := some "Element created from a variable tag name"
      description := some
        "Creating elements whose type is not known statically can create scripts." }
    if Text.lowerAscii ((← heap).toText tag) = "script" then return .flag {
      id := some ["javascript", "createElement", "script_creation"]
      severity := some .warning
      message := some "Dynamic creation of \x60<script>\x60 elements"
      description := some "Scripts must be shipped in the package, not injected at runtime."
      signing := some .medium }
    return .silent

def insertsMarkup (args : Arguments) : Outcome :=
  if (args.get? 1).any Value.isDirty then .flag {
    id := some ["javascript", "insertAdjacentHTML", "dynamic"]
    severity := some .warning
    message := some "Markup should not be passed to \x60insertAdjacentHTML\x60 dynamically"
    signing := some .medium }
  else .silent

def addsListener (args : Arguments) : Outcome :=
  if (args.get? 3).any fun v => !v.isDirty && v.truthy then .flag {
    id := some ["javascript", "addEventListener", "untrusted"]
    severity := some .notice
    message := some "Listening for untrusted events"
    description := some "Events dispatched by content can be forged; validate their data." }
  else .silent

def onCall (hook : CallHook) (args : Arguments) : Engine Outcome :=
  match hook with
  | .typedByInterface => typedByInterface args
  | .returnsInterface name => returnsInterface name
  | .writesPreference => writesPreference args
  | .readsPreference => do
    dropInlineLiterals args
    return .silent
  | .setsAttribute => setsAttribute args
  | .createsElement argument => createsElement (args.get? argument)
  | .insertsMarkup => return insertsMarkup args
  | .addsListener => return addsListener args

def onGet : GetHook → Outcome
  | .unwraps => .value { Value.unknown with unwrapped := true }

open Pattern in
def eventAttribute : Pattern :=
  all [char '<', plus (noneOf ">"), blank, textAnyCase "on", plus letter, star blank, char '=']

def setsMarkup (name : String) (v : Value) : Engine Outcome := do
  if v.isDirty then return .flag {
    id := some ["javascript", "innerHTML", "variable_assignment"]
    severity := some .warning
    message := some ("Markup should not be passed to \x60" ++ name ++ "\x60 dynamically")
    description := some <| "Building markup from variables invites injection; create nodes with " ++
      "DOM methods or sanitize the input."
    signing := some .medium }
  if eventAttribute.isFoundIn ((← heap).toText v).toList then return .flag {
    id := some ["javascript", "innerHTML", "event_assignment"]
    severity := some .warning
    message := some ("Event handler attributes assigned through \x60" ++ name ++ "\x60")
    description := some "Inline event handlers in markup are evaluated as code." }
  return .silent

def onSet (hook : SetHook) (name : String) (v : Value) : Engine Outcome :=
  match hook with
  | .extendsPrototype => return .flag {
      id := some ["javascript", "prototype_extension", "builtin"]
      severity := some .warning
      message := some ("Extending the prototype of a built-in object (\x60" ++ name ++ "\x60)")
      description := some
        "Changes to built-in prototypes leak into every script sharing the window." }
  | .setsHandler =>
    if v.isString then return .flag {
      id := some ["javascript", "on_event", "string_assignment"]
      severity := some .warning
      message := some ("\x60" ++ name ++ "\x60 attribute set to a string")
      description := some <| "Event handlers must be functions; strings assigned to \x60on*\x60 " ++
        "properties are evaluated as code." }
    else return .silent
  | .setsMarkup => setsMarkup name v
  | .exposesProperties => return .flag {
      id := some ["javascript", "__exposedProps__", "set"]
      severity := some .warning
      message := some "Use of \x60__exposedProps__\x60"
      description :=
        some <| "\x60__exposedProps__\x60 exposes privileged objects to content; use " ++
        "\x60exportFunction\x60 or \x60cloneInto\x60."
      signing := some .high }
  | .changesEngine => return .flag {
      message := some ("Changing the search engine through \x60" ++ name ++ "\x60")
      description := some
        "Add-ons must not change the user's default search engine without consent."
      signing := some .high }

def danger? (check : DangerCheck) (args : Arguments) : Engine (Option Advice) := do
  match check with
  | .stringTimer =>
    if (args.get? 0).any Value.isString then return some {
      message := some "\x60setTimeout\x60 and \x60setInterval\x60 must not be called with a string"
      description := some "Pass a function instead; string arguments are evaluated as code."
      signing := some .high }
    else return none
  | .insecureRequest =>
    match args.get? 1 with
    | none => return none
    | some v =>
      if v.isDirty then return none
      let url := (← heap).toText v
      if !"http:".toList.isPrefixOf (Text.lowerAscii url).toList then return none
      return some {
        id := some ["javascript", "xhr", "insecure_url"]
        severity := some .warning
        message := some "Insecure request from privileged code"
        description := some ("\x60" ++ url ++ "\x60 is requested over plain HTTP; use HTTPS.")
        signing := some .medium }

end Hook

end AddonAudit.Script
