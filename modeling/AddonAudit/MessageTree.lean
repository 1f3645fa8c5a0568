import AddonAudit.Finding

/-!
# The message tree

Records are counted under every initial part of their identifier. A tree is a level of named nodes;
a node has counters, the records below it in the order of arrival, and a level of its own.
-/

namespace AddonAudit

/-- A counter for each severity. -/
structure Counts where
  errors : Nat := 0
  warnings : Nat := 0
  notices : Nat := 0
  deriving DecidableEq, Repr, Inhabited

namespace Counts

def get (c : Counts) : Severity → Nat
  | .error => c.errors
  | .warning => c.warnings
  | .notice => c.notices

def modify (f : Nat → Nat) (c : Counts) : Severity → Counts
  | .error => { c with errors := f c.errors }
  | .warning => { c with warnings := f c.warnings }
  | .notice => { c with notices := f c.notices }

def increment (c : Counts) (s : Severity) : Counts :=
  c.modify (· + 1) s

/-- Count one less; zero stays zero. -/
def decrement (c : Counts) (s : Severity) : Counts :=
  c.modify (· - 1) s

def plus (c d : Counts) : Counts :=
  ⟨c.errors + d.errors, c.warnings + d.warnings, c.notices + d.notices⟩

def total (c : Counts) : Nat :=
  c.errors + c.warnings + c.notices

end Counts

/-- A node of a message tree whose records are named by `ι`. -/
structure MessageNode (ι : Type) where
  counts : Counts := {}
  messages : List ι := []
  children : List (String × MessageNode ι) := []

instance {ι : Type} : Inhabited (MessageNode ι) := ⟨{}⟩

/-- A level of named nodes, in the order of their names. -/
abbrev MessageTree (ι : Type) := Dict (MessageNode ι)

namespace MessageTree

variable {ι : Type}

/-- Count a record under every initial part of its identifier. -/
def insert (uid : ι) (severity : Severity) : List String → MessageTree ι → MessageTree ι
  | [], tree => tree
  | segment :: rest, tree =>
    tree.alter segment fun old =>
      let node := old.getD {}
      { counts := node.counts.increment severity
        messages := node.messages ++ [uid]
        children := insert uid severity rest node.children }

/-- Undo the insertion of a record. A node that counts nothing any more is pruned. -/
def remove [DecidableEq ι] (uid : ι) (severity : Severity) :
    List String → MessageTree ι → MessageTree ι
  | [], tree => tree
  | segment :: rest, tree =>
    match tree.find? segment with
    | none => tree
    | some node =>
      let node : MessageNode ι :=
        { counts := node.counts.decrement severity
          messages := node.messages.filter (· ≠ uid)
          children := remove uid severity rest node.children }
      if node.counts.total = 0 then tree.erase segment else Dict.insert segment node tree

def get? : List String → MessageTree ι → Option (MessageNode ι)
  | [], _ => none
  | [segment], tree => tree.find? segment
  | segment :: rest, tree => (tree.find? segment).bind fun node => get? rest node.children

def counts (id : List String) (tree : MessageTree ι) : Counts :=
  match get? id tree with
  | some node => node.counts
  | none => {}

mutual

def mergeNode (node : MessageNode ι) : MessageNode ι → MessageNode ι
  | ⟨counts, messages, children⟩ =>
    { counts := node.counts.plus counts
      messages := node.messages ++ messages
      children := merge node.children children }

def merge (tree : MessageTree ι) : List (String × MessageNode ι) → MessageTree ι
  | [] => tree
  | (name, other) :: rest => merge (tree.alter name fun old => mergeNode (old.getD {}) other) rest

end

end MessageTree

end AddonAudit
