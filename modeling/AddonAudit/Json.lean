import AddonAudit.Dict

/-!
# JSON values

The values that metadata, configuration and reports are made of. Objects are dictionaries, so their
keys are unique and sorted; integers are kept apart from other numbers.
-/

namespace AddonAudit

inductive Json where
  | null
  | bool (b : Bool)
  | int (n : Int)
  | float (x : Float)
  | str (s : String)
  | arr (items : List Json)
  | obj (fields : List (String × Json))
  deriving Inhabited, BEq

namespace Json

/-- An object with the given entries; a later entry wins. -/
def ofEntries (entries : List (String × Json)) : Json :=
  .obj (Dict.ofEntries entries)

def nat (n : Nat) : Json :=
  .int n

def ofOption {α : Type} (f : α → Json) : Option α → Json
  | none => .null
  | some a => f a

def strings (items : List String) : Json :=
  .arr (items.map .str)

def field? (name : String) : Json → Option Json
  | .obj fields => Dict.find? name fields
  | _ => none

def str? : Json → Option String
  | .str s => some s
  | _ => none

def arr? : Json → Option (List Json)
  | .arr items => some items
  | _ => none

def obj? : Json → Option (Dict Json)
  | .obj fields => some fields
  | _ => none

end Json

end AddonAudit
