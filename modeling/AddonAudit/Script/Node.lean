import AddonAudit.Script.Kind
import AddonAudit.Text.Blank
import AddonAudit.Text.Slice

/-!
# Nodes

The tree of a script. A node has a kind, a place, its text if that is looked at, and children in
source order: its parts, the comments between them, and those tokens that tell parts apart
(operators and the words that start a declaration). Nodes of one tree are numbered, so that what is
known about a node can be kept under its number.
-/

namespace AddonAudit.Script

/-- A place in a source: lines and the bytes inside a line, both counted from zero. -/
structure Position where
  row : Nat := 0
  column : Nat := 0
  /-- The bytes before the place. -/
  offset : Nat := 0
  deriving DecidableEq, Repr, Inhabited

def Position.after (p : Position) (c : Char) : Position :=
  let offset := p.offset + c.utf8Size
  if c = '\n' then ⟨p.row + 1, 0, offset⟩ else ⟨p.row, p.column + c.utf8Size, offset⟩

structure Node where
  kind : Kind
  role : Option Role := none
  id : Nat := 0
  start : Position := {}
  /-- The text of a leaf, of a string, of a template and of an expression in a template. -/
  text : String := ""
  /-- A part that the source lacks. -/
  missing : Bool := false
  children : List Node := []
  deriving Inhabited

namespace Node

def stop (n : Node) : Nat :=
  n.start.offset + Text.utf8Length n.text.toList

/-- The text of a node between two byte offsets of the source; empty if it has none there. -/
def slice (n : Node) (start stop : Nat) : List Char :=
  (Text.slice? (start - n.start.offset) (stop - n.start.offset) n.text.toList).getD []

def isComment (n : Node) : Bool :=
  n.kind.isComment

def parts (n : Node) : List Node :=
  n.children.filter (·.kind ≠ .token)

def child? (n : Node) (role : Role) : Option Node :=
  n.children.find? (·.role = some role)

def childrenAs (n : Node) (role : Role) : List Node :=
  n.parts.filter (·.role = some role)

/-- The text of the first child in a role; empty if there is none. -/
def textOf (n : Node) (role : Role) : String :=
  match n.child? role with
  | some c => c.text
  | none => ""

mutual

/-- Number the nodes of a tree in source order, parents first, from a number on. The next free
number is given back. -/
def number (next : Nat) : Node → Nat × Node
  | ⟨kind, role, _, start, text, missing, children⟩ =>
    let (last, children) := numberAll (next + 1) children
    (last, ⟨kind, role, next, start, text, missing, children⟩)

def numberAll (next : Nat) : List Node → Nat × List Node
  | [] => (next, [])
  | n :: rest =>
    let (next, n) := number next n
    let (next, rest) := numberAll next rest
    (next, n :: rest)

end

mutual

def first? (p : Node → Bool) : Node → Option Node
  | ⟨kind, role, id, start, text, missing, children⟩ =>
    let n : Node := ⟨kind, role, id, start, text, missing, children⟩
    if p n then some n else firstOf? p children

def firstOf? (p : Node → Bool) : List Node → Option Node
  | [] => none
  | n :: rest =>
    match first? p n with
    | some found => some found
    | none => firstOf? p rest

end

end Node

/-- A tree whose nodes are numbered below `size`. -/
structure Tree where
  root : Node
  size : Nat
  deriving Inhabited

def Tree.ofRoot (root : Node) : Tree :=
  let (size, root) := root.number 0
  ⟨root, size⟩

/-- The first place where the source could not be read as it should. -/
def Tree.firstError? (t : Tree) : Option Node :=
  t.root.first? fun n => n.kind = .error || n.missing

end AddonAudit.Script
