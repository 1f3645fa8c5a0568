import AddonAudit.Bundle
import AddonAudit.Number.Text

/-!
# Arguments

The arguments of the program: options before the name of a command, then the options and the package
of the command. A value stands after its option, or in the same argument. It is looked at when the
next option or package comes up, so an unknown option after it is reported first.
-/

namespace AddonAudit.CommandLine

/-- Why arguments are not those of an audit. -/
inductive UsageError where
  | help
  | version
  /-- There are no arguments at all. -/
  | nothing
  | missingCommand
  | unknownCommand
  | unknownArgument
  | missingPackage
  /-- An option has no value, or a path is empty. -/
  | missingValue
  | badValue
  /-- An option without value has one. -/
  | extraValue
  | repeated
  deriving DecidableEq, Repr

inductive Parameter where
  | path
  | config
  | format
  | type
  | forFirefox
  | timeout
  | determined
  | strict
  | ignoreEmptyName
  | ignoreWarnings
  | verbose
  | help
  | version
  deriving DecidableEq, Repr

def Parameter.hasValue : Parameter → Bool
  | .path | .config | .format | .type | .forFirefox | .timeout => true
  | _ => false

/-- Names of options: long ones, and letters for some of them. -/
structure Names where
  long : List (String × Parameter)
  short : List (Char × Parameter)

def programNames : Names where
  long := [("verbose", .verbose), ("help", .help), ("version", .version)]
  short := [('v', .verbose), ('h', .help), ('V', .version)]

def commandNames : Names where
  long := [("config", .config), ("format", .format), ("type", .type), ("for-firefox", .forFirefox),
    ("determined", .determined), ("strict", .strict), ("timeout", .timeout),
    ("ignore-empty-name", .ignoreEmptyName), ("ignore-warnings", .ignoreWarnings),
    ("verbose", .verbose), ("help", .help)]
  short := [('c', .config), ('f', .format), ('t', .type), ('v', .verbose), ('h', .help)]

def Names.long? (names : Names) (name : String) : Option Parameter :=
  (names.long.find? (·.1 = name)).map Prod.snd

def Names.short? (names : Names) (c : Char) : Option Parameter :=
  (names.short.find? (·.1 = c)).map Prod.snd

/-- What the arguments have set so far. -/
structure Draft where
  path : Option String := none
  config : Option String := none
  format : Option String := none
  type : Option PackageType := none
  forFirefox : Option String := none
  timeout : Option Nat := none
  determined : Bool := false
  strict : Bool := false
  ignoreEmptyName : Bool := false
  ignoreWarnings : Bool := false
  verbose : Nat := 0
  deriving DecidableEq, Repr

namespace Draft

/-- Whether a parameter that may be there once has been set. -/
def isSet (d : Draft) : Parameter → Bool
  | .path => d.path.isSome
  | .config => d.config.isSome
  | .format => d.format.isSome
  | .type => d.type.isSome
  | .forFirefox => d.forFirefox.isSome
  | .timeout => d.timeout.isSome
  | .determined => d.determined
  | .strict => d.strict
  | .ignoreEmptyName => d.ignoreEmptyName
  | .ignoreWarnings => d.ignoreWarnings
  | .verbose | .help | .version => false

def pathOf (value : String) : Except UsageError String :=
  if value = "" then .error .missingValue else .ok value

/-- A number of seconds, with or without a plus sign, in a word of 64 bits. -/
def secondsOf (value : String) : Except UsageError Nat :=
  let cs := value.toList
  let digits := if cs.head? = some '+' then cs.tail else cs
  if digits.isEmpty || !digits.all Char.isDigit then .error .badValue
  else
    let n := Number.ofDigits 10 digits
    if n < Number.twoTo 64 then .ok n else .error .badValue

def typeOf (value : String) : Except UsageError PackageType :=
  match PackageType.ofName value with
  | .ok t => .ok t
  | .error _ => .error .badValue

def assign (d : Draft) (p : Parameter) (value : String) : Except UsageError Draft := do
  if d.isSet p then throw .repeated
  match p with
  | .path => return { d with path := ← pathOf value }
  | .config => return { d with config := ← pathOf value }
  | .format => return { d with format := value }
  | .type => return { d with type := ← typeOf value }
  | .forFirefox => return { d with forFirefox := value }
  | .timeout => return { d with timeout := ← secondsOf value }
  | _ => throw .extraValue

def switch (d : Draft) (p : Parameter) : Except UsageError Draft := do
  if d.isSet p then throw .repeated
  match p with
  | .determined => return { d with determined := true }
  | .strict => return { d with strict := true }
  | .ignoreEmptyName => return { d with ignoreEmptyName := true }
  | .ignoreWarnings => return { d with ignoreWarnings := true }
  | .verbose => return { d with verbose := min (d.verbose + 1) 255 }
  | .help => throw .help
  | .version => throw .version
  | _ => throw .missingValue

end Draft

structure Reading where
  draft : Draft := {}
  /-- A parameter whose value has not been looked at or has not come up yet. -/
  pending : Option (Parameter × Option String) := none
  hasPath : Bool := false
  /-- No more options follow. -/
  isPlain : Bool := false
  deriving DecidableEq, Repr

namespace Reading

def settle (r : Reading) : Except UsageError Reading :=
  match r.pending with
  | none => .ok r
  | some (_, none) => .error .missingValue
  | some (p, some value) => do
    return { r with draft := ← r.draft.assign p value, pending := none }

def await (p : Parameter) (r : Reading) : Except UsageError Reading := do
  return { ← r.settle with pending := some (p, none) }

/-- Set a parameter to a value in the same argument. -/
def assign (p : Parameter) (value : String) (r : Reading) : Except UsageError Reading := do
  let r ← r.settle
  return { r with draft := ← r.draft.assign p value }

def switch (p : Parameter) (r : Reading) : Except UsageError Reading := do
  let r ← r.settle
  return { r with draft := ← r.draft.switch p }

/-- Take an option with a long name, with the value after an equals sign if there is one. -/
def long (names : Names) (name : String) (value : Option String) (r : Reading) :
    Except UsageError Reading :=
  match names.long? name, value with
  | none, _ => .error .unknownArgument
  | some p, none => if p.hasValue then r.await p else r.switch p
  | some p, some value => if p.hasValue then r.assign p value else .error .extraValue

/-- Take options that are letters. What follows the letter of one with a value is its value. -/
def short (names : Names) : List Char → Reading → Except UsageError Reading
  | [], r => .ok r
  | c :: rest, r =>
    match names.short? c with
    | none => .error .unknownArgument
    | some p =>
      if p.hasValue then
        match rest with
        | [] => r.await p
        | '=' :: value => r.assign p (String.ofList value)
        | value => r.assign p (String.ofList value)
      else
        match r.switch p with
        | .ok r => short names rest r
        | .error e => .error e

/-- Take what is no option. The first such argument is the package. -/
def plain (argument : String) (r : Reading) : Except UsageError Reading :=
  if r.hasPath then .error .unknownArgument
  else do
    return { ← r.settle with pending := some (.path, some argument), hasPath := true }

def longParts (cs : List Char) : String × Option String :=
  let name := cs.takeWhile (· ≠ '=')
  (String.ofList name, (cs.drop name.length).tail?.map String.ofList)

def step (r : Reading) (argument : String) : Except UsageError Reading :=
  if r.isPlain then r.plain argument
  else
    match argument.toList, r.pending with
    | ['-', '-'], _ => .ok { r with isPlain := true }
    | '-' :: '-' :: cs, _ => r.long commandNames (longParts cs).1 (longParts cs).2
    | '-' :: c :: cs, _ => r.short commandNames (c :: cs)
    | _, some (p, none) => .ok { r with pending := some (p, some argument) }
    | _, _ => r.plain argument

end Reading

structure Arguments where
  path : String
  config : Option String := none
  format : String := "pretty"
  type : Option PackageType := none
  /-- Versions of one application, as a text with a colon. -/
  forFirefox : Option String := none
  timeout : Option Nat := none
  determined : Bool := false
  strict : Bool := false
  ignoreEmptyName : Bool := false
  ignoreWarnings : Bool := false
  /-- How much is written to the log. -/
  verbose : Nat := 0
  deriving DecidableEq, Repr

def Draft.finish (d : Draft) : Except UsageError Arguments :=
  match d.path with
  | none => .error .missingPackage
  | some path => .ok {
      path
      config := d.config
      format := d.format.getD "pretty"
      type := d.type
      forFirefox := d.forFirefox
      timeout := d.timeout
      determined := d.determined
      strict := d.strict
      ignoreEmptyName := d.ignoreEmptyName
      ignoreWarnings := d.ignoreWarnings
      verbose := d.verbose }

def ofCommand (arguments : List String) : Except UsageError Arguments := do
  let r ← arguments.foldlM Reading.step {}
  (← r.settle).draft.finish

def commands : List String := ["validate", "check"]

def helpCommand : String := "help"

def ofHelp : List String → UsageError
  | [] => .help
  | [name] => if name = helpCommand || commands.contains name then .help else .unknownCommand
  | _ => .unknownCommand

def ofProgram (r : Reading) : List String → Except UsageError Arguments
  | [] => .error (if r.draft.verbose = 0 then .nothing else .missingCommand)
  | argument :: rest =>
    let isCommand := commands.contains argument
    if r.isPlain then
      .error (if isCommand || argument = helpCommand then .unknownArgument else .unknownCommand)
    else if isCommand then
      (ofCommand rest).map fun a =>
        { a with verbose := if a.verbose = 0 then r.draft.verbose else a.verbose }
    else if argument = helpCommand then .error (ofHelp rest)
    else
      match argument.toList with
      | ['-', '-'] => ofProgram { r with isPlain := true } rest
      | '-' :: '-' :: cs =>
        match r.long programNames (Reading.longParts cs).1 (Reading.longParts cs).2 with
        | .ok r => ofProgram r rest
        | .error e => .error e
      | '-' :: c :: cs =>
        match r.short programNames (c :: cs) with
        | .ok r => ofProgram r rest
        | .error e => .error e
      | _ => .error .unknownCommand

def parse (arguments : List String) : Except UsageError Arguments :=
  ofProgram {} arguments

end AddonAudit.CommandLine
