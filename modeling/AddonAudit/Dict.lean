/-!
# Dictionaries

A dictionary is a list of entries whose keys increase strictly in the order of strings. The
operations below keep that order, so two dictionaries with the same entries are equal lists and an
iteration always visits the keys in the same order, whatever the order of insertion was.
-/

namespace AddonAudit

/-- Entries in strictly increasing key order. -/
abbrev Dict (α : Type) := List (String × α)

namespace Dict

variable {α : Type}

def find? (key : String) : Dict α → Option α
  | [] => none
  | (k, v) :: rest => if k = key then some v else find? key rest

def contains (key : String) (d : Dict α) : Bool :=
  (d.find? key).isSome

/-- Store `f old`, where `old` is the present value if there is one. -/
def alter (key : String) (f : Option α → α) : Dict α → Dict α
  | [] => [(key, f none)]
  | (k, v) :: rest =>
    if k = key then (k, f (some v)) :: rest
    else if key < k then (key, f none) :: (k, v) :: rest
    else (k, v) :: alter key f rest

def insert (key : String) (value : α) (d : Dict α) : Dict α :=
  d.alter key fun _ => value

def erase (key : String) (d : Dict α) : Dict α :=
  d.filter fun entry => entry.1 ≠ key

/-- Build a dictionary from entries; a later entry wins. -/
def ofEntries (entries : List (String × α)) : Dict α :=
  entries.foldl (fun d e => d.insert e.1 e.2) []

/-- The keys, in increasing order. -/
def keys (d : Dict α) : List String :=
  d.map Prod.fst

/-- Join two dictionaries; an entry of the second one wins. -/
def union (d e : Dict α) : Dict α :=
  e.foldl (fun d e => d.insert e.1 e.2) d

end Dict

end AddonAudit
