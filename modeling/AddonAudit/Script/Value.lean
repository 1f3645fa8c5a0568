import AddonAudit.Number.Text

/-!
# Values of a script

Every step of an analysis yields a value: a known primitive, a handle of an object, or a content
that could not be determined. Around it stand the facts that the analysis keeps about the value,
such as the entity it came from.
-/

namespace AddonAudit.Script

abbrev ObjectId := Nat

abbrev EntityId := Nat

/-- A known primitive. -/
inductive Literal where
  | undefined
  | null
  | bool (b : Bool)
  | number (x : Float)
  | string (s : String)
  deriving Inhabited, BEq

namespace Literal

def truthy : Literal → Bool
  | .undefined | .null => false
  | .bool b => b
  | .number x => !(x == 0.0 || x.isNaN)
  | .string s => !s.isEmpty

def toNumber : Literal → Float
  | .undefined => Number.nan
  | .null => 0.0
  | .bool b => if b then 1.0 else 0.0
  | .number x => x
  | .string s => Number.ofText s

def toText : Literal → String
  | .undefined => "undefined"
  | .null => "null"
  | .bool b => if b then "true" else "false"
  | .number x => Number.toText x
  | .string s => s

def isNullish : Literal → Bool
  | .undefined | .null => true
  | _ => false

/-- Equality without conversion: numbers by value, so a value that is no number equals nothing. -/
def same : Literal → Literal → Bool
  | .undefined, .undefined => true
  | .null, .null => true
  | .bool a, .bool b => a = b
  | .number x, .number y => x == y
  | .string s, .string t => s = t
  | _, _ => false

end Literal

inductive Content where
  | literal (l : Literal)
  | object (id : ObjectId)
  /-- The content could not be determined. -/
  | unknown
  deriving Inhabited, BEq

/-- A content and what is known about it. -/
structure Value where
  content : Content := .unknown
  isConst : Bool := false
  /-- The content is not reliable. -/
  dirty : Bool := false
  callable : Bool := false
  entity : Option EntityId := none
  /-- The entity whose hook runs when the value is assigned over. -/
  setter : Option EntityId := none
  /-- A placeholder, made by reading a name that nothing declares. -/
  inferred : Bool := false
  /-- Reached through the unwrapped view of an object of lower privilege. -/
  unwrapped : Bool := false
  /-- A record that is taken back when a later step shows it harmless. -/
  provisional : Option Nat := none
  deriving Inhabited, BEq

namespace Value

def ofLiteral (l : Literal) : Value :=
  { content := .literal l }

def undefined : Value := ofLiteral .undefined

def null : Value := ofLiteral .null

def bool (b : Bool) : Value := ofLiteral (.bool b)

def number (x : Float) : Value := ofLiteral (.number x)

def string (s : String) : Value := ofLiteral (.string s)

def unknown : Value := { dirty := true }

def object (id : ObjectId) : Value := { content := .object id }

def function (id : ObjectId) : Value := { content := .object id, callable := true }

def ofEntity (id : EntityId) : Value := { dirty := true, entity := some id }

/-- A value as a name holds it: it is not inferred, and may be constant. -/
def named (isConst : Bool) (v : Value) : Value :=
  { v with inferred := false, isConst }

/-- Whether the content is not known reliably. -/
def isDirty (v : Value) : Bool :=
  v.dirty || match v.content with
    | .unknown => true
    | _ => false

def literal? (v : Value) : Option Literal :=
  match v.content with
  | .literal l => if v.dirty then none else some l
  | _ => none

def string? (v : Value) : Option String :=
  match v.literal? with
  | some (.string s) => some s
  | _ => none

def object? (v : Value) : Option ObjectId :=
  match v.content with
  | .object id => some id
  | _ => none

/-- Whether the content is a string, known reliably or not. -/
def isString (v : Value) : Bool :=
  match v.content with
  | .literal (.string _) => true
  | _ => false

def truthy (v : Value) : Bool :=
  match v.content with
  | .literal l => l.truthy
  | _ => true

def typeName (v : Value) : String :=
  if v.callable then "function"
  else match v.content with
    | .literal (.number _) => "number"
    | .literal (.string _) => "string"
    | .literal (.bool _) => "boolean"
    | .literal .undefined => "undefined"
    | _ => "object"

end Value

end AddonAudit.Script
