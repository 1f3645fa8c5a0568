/-!
# Replacement

A text with every occurrence of another one replaced, from left to right. What is put in is not
looked at again.
-/

namespace AddonAudit.Text

/-- A text with occurrences replaced, after some characters that belong to one before. -/
def replaceFrom (old new : List Char) (skip : Nat) : List Char → List Char
  | [] => []
  | c :: rest =>
    match skip with
    | n + 1 => replaceFrom old new n rest
    | 0 =>
      if old.isPrefixOf (c :: rest) then new ++ replaceFrom old new (old.length - 1) rest
      else c :: replaceFrom old new 0 rest

/-- A text with every occurrence of a text that is not empty replaced by another one. -/
def replace (old new : String) (cs : List Char) : List Char :=
  replaceFrom old.toList new.toList 0 cs

end AddonAudit.Text
