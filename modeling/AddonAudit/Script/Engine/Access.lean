import AddonAudit.Script.Engine.Hook
import AddonAudit.Script.Operator

/-!
# Reading, writing and calling

Here the values of a script meet the entities: a read looks a property up below the entity of its
base, a write runs hooks and checks what must not be replaced, and a call runs the test for danger
and the hook of the called entity.
-/

namespace AddonAudit.Script

/-- Where an assignment stores its value. -/
inductive Target where
  | variable (name : String)
  | member (base : Value) (name : String)
  /-- A pattern, whose names were bound when it was resolved. -/
  | pattern
  | unknown

namespace Engine

def valueOf (entity : EntityId) (b : Behavior) : Value :=
  let v : Value := match b.value with
    | some (.constant x) => .number x
    | _ => .ofEntity entity
  { v with callable := v.callable || b.isCallable, isConst := b.isConst }

def entityValue (entity : EntityId) (n : Node) : Engine Value := do
  let r ← registry
  let target := r.dealias entity
  let b := r.behavior target
  when b.dangerousOnRead (flag (some target) {} n)
  return valueOf target b

/-- The value of a name. A name that nothing declares becomes a global whose value is inferred. -/
def seekVariable (name : String) (n : Node) : Engine Value := do
  match (← get).find? name with
  | some v => return v
  | none =>
    match (← registry).global? name with
    | some entity => entityValue entity n
    | none =>
      let v := { Value.unknown with inferred := true }
      modify (·.storeGlobal name v)
      return v

/-- The value of an entity that is read, unless its hook gives another one. -/
def hookedValue (entity : EntityId) (n : Node) : Engine Value := do
  match ((← registry).behavior entity).onGet.map Hook.onGet with
  | some (.value v) => return v
  | some (.flag advice) =>
    flag (some entity) advice n
    entityValue entity n
  | some .silent | none => entityValue entity n

def readEntity (entity : EntityId) (n : Node) : Engine Value := do
  let b := (← registry).behavior entity
  let v ← hookedValue entity n
  return if b.onSet.isSome then { v with setter := some entity } else v

/-- The number of 16-bit units of a text. -/
def units (s : String) : Nat :=
  s.toList.foldl (fun n c => n + if c.toNat < 0x10000 then 1 else 2) 0

def stringLength? (base : Value) (name : String) : Option Value :=
  if name = "length" then base.string?.map fun s => .number (Float.ofNat (units s)) else none

def getMember (base : Value) (name : String) (n : Node) : Engine Value := do
  let r ← registry
  match base.entity.bind fun parent => r.resolve? (some parent) name with
  | some entity => readEntity entity n
  | none =>
    let h ← heap
    match base.object?.bind fun id => h.get? id name with
    | some v => return v
    | none =>
      match stringLength? base name with
      | some v => return v
      | none =>
        match if base.entity.isNone then r.deep? name else none with
        | some entity => readEntity entity n
        | none => return { Value.unknown with unwrapped := base.unwrapped }

/-- Report a write to a property of an object of lower privilege. -/
def flagUnwrapped (n : Node) : Engine Unit :=
  flag none {
    id := some ["javascript", "unwrapped", "property_set"]
    severity := some .warning
    message := some "Setting a property of an unwrapped object"
    description := some <| "Objects reached through \x60wrappedJSObject\x60 belong to content; " ++
      "writing to them exposes privileged values." } n

/-- The entity that guards a property: the property itself, or the setter of its present value. -/
def guardOf? (base : Value) (name : String) : Engine (Option EntityId) := do
  let r ← registry
  let h ← heap
  let existing := base.object?.bind fun id => h.get? id name
  return r.resolve? base.entity name <|> existing.bind (·.setter)

def runSetHook (entity : EntityId) (name : String) (v : Value) (n : Node) : Engine Unit := do
  match ((← registry).behavior entity).onSet with
  | none => pure ()
  | some hook =>
    match ← Hook.onSet hook name v with
    | .flag advice => flag (some entity) advice n
    | _ => pure ()

def storeMember (guard : Option EntityId) (base : Value) (name : String) (v : Value) (n : Node) :
    Engine Unit := do
  let r ← registry
  -- Properties of the global object are globals.
  if base.entity.any fun id => (r.behavior id).globalScope then setVariable name v n
  else
    when base.entity.isSome (guard.forM fun id => checkOverwrite id name v n false)
    base.object?.forM fun id => modify (·.setProperty id name v)

def setMember (base : Value) (name : String) (v : Value) (n : Node) : Engine Unit := do
  when base.unwrapped (flagUnwrapped n)
  let guard ← guardOf? base name
  guard.forM fun id => runSetHook id name v n
  storeMember guard base name v n

def readTarget (target : Target) (n : Node) : Engine Value :=
  match target with
  | .variable name => seekVariable name n
  | .member base name => getMember base name n
  | .pattern | .unknown => return .unknown

def assign (target : Target) (v : Value) (n : Node) : Engine Unit :=
  match target with
  | .variable name => setVariable name v n
  | .member base name => setMember base name v n
  | .pattern | .unknown => pure ()

def checkDanger (entity : EntityId) (danger : Option Danger) (args : Arguments) (n : Node) :
    Engine Unit := do
  match danger with
  | some .always => flag (some entity) {} n
  | some (.check check) =>
    (← Hook.danger? check args).forM fun advice => flag (some entity) advice n
  | none => pure ()

/-- Call a value. Only entities do anything; the result of any other call is not known. -/
def callValue (callee : Value) (args : Arguments) (n : Node) : Engine Value := do
  match callee.entity with
  | none => return .unknown
  | some entity =>
    let b := (← registry).behavior entity
    checkDanger entity b.dangerous args n
    match b.onCall with
    | none => return .unknown
    | some hook =>
      match ← Hook.onCall hook args with
      | .value v => return v
      | .flag advice =>
        flag (some entity) advice n
        return .unknown
      | .silent => return .unknown

def keyName (key : Value) : Engine String := do
  if key.isDirty then return "*" else return (← heap).toText key

end Engine

end AddonAudit.Script
