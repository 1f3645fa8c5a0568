import AddonAudit.Script.Reader.Lexical

/-!
# From expressions to targets

What stands on the left of an assignment, in the head of a loop or in a parameter list is read as an
expression first. Once it is known to be a target, objects and arrays become patterns.
-/

namespace AddonAudit.Script.Reader

def targetKind : Kind → Kind
  | .object => .objectPattern
  | .array => .arrayPattern
  | .pair => .pairPattern
  | .shorthandPropertyIdentifier => .shorthandPropertyIdentifierPattern
  | .spreadElement => .restPattern
  | .assignmentExpression => .assignmentPattern
  | k => k

mutual

def toTarget : Node → Node
  | ⟨kind, role, id, start, text, missing, children⟩ =>
    let children := match kind with
      | .object | .array | .spreadElement => toTargets children
      | .pair => toPairTarget children
      | _ => children
    ⟨targetKind kind, role, id, start, text, missing, children⟩

def toTargets : List Node → List Node
  | [] => []
  | n :: rest => toTarget n :: toTargets rest

def toPairTarget : List Node → List Node
  | [] => []
  | n :: rest => (if n.role = some .value then toTarget n else n) :: toPairTarget rest

end

def isTarget (n : Node) : Bool :=
  match n.kind with
  | .identifier | .undefinedValue | .memberExpression | .subscriptExpression
  | .parenthesizedExpression | .object | .array => true
  | _ => false

/-- Whether a node can be assigned by an operator that also reads it. -/
def isPlainTarget (n : Node) : Bool :=
  match n.kind with
  | .identifier | .memberExpression | .subscriptExpression | .parenthesizedExpression => true
  | _ => false

def nodeAt? (mark : Nat) : Production (Option Node) := do
  let s ← get
  return s.stack[s.stack.length - 1 - mark]?

def targetsFrom (mark : Nat) : Production Unit :=
  modify fun s =>
    let count := s.stack.length - mark
    { s with stack := (s.stack.take count).map toTarget ++ s.stack.drop count }

end AddonAudit.Script.Reader
