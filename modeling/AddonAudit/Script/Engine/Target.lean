import AddonAudit.Script.Engine.Access
import AddonAudit.Script.Rule

/-!
# Parts, patterns and targets

Actions visit the parts of their node through a function that they are given. Here are the common
ways to do that, the binding of the names of a pattern, and the target of an assignment.
-/

namespace AddonAudit.Script

abbrev Visit := Node → Engine Value

namespace Engine

def visitEach (visit : Visit) : List Node → Engine Unit
  | [] => pure ()
  | n :: rest => do
    let _ ← visit n
    visitEach visit rest

/-- Visit a list of nodes, comments apart. The value is that of the last one, or a given one. -/
def visitLast (visit : Visit) (last : Value) : List Node → Engine Value
  | [] => return last
  | n :: rest => do
    if n.isComment then visitLast visit last rest
    else
      let v ← visit n
      visitLast visit v rest

/-- The parts of a node that its branches name, in the order of the visit. -/
def branchParts (n : Node) : Branches → List Node
  | .all => n.parts
  | .roles list => list.flatMap n.childrenAs

def visitBranches (visit : Visit) (n : Node) (branches : Branches) : Engine Value :=
  visitLast visit .undefined (branchParts n branches)

/-- Visit the parts of a node; the value is not known. -/
def visitUnknown (visit : Visit) (n : Node) : Engine Value := do
  let _ ← visitBranches visit n .all
  return .unknown

/-- The value of the part in a role, or a given one if there is no such part. -/
def valueAs (visit : Visit) (n : Node) (role : Role) (absent : Value) : Engine Value :=
  match n.child? role with
  | some c => visit c
  | none => return absent

def visitAs (visit : Visit) (n : Node) (role : Role) : Engine Unit := do
  let _ ← valueAs visit n role .undefined

def propertyName (n : Node) : String :=
  String.ofList ((n.textOf .property).toList.dropWhile (· = '#'))

def memberTarget (visit : Visit) (n : Node) : Engine (Value × String) := do
  let base ← valueAs visit n .object .unknown
  if n.kind = .subscriptExpression then
    let key ← valueAs visit n .index .unknown
    return (base, ← keyName key)
  else
    return (base, propertyName n)

/-- Give a name of a pattern an unknown value: declare it, or assign to it. -/
def bindName (d : Option Declaration) (n : Node) : Engine Unit :=
  match d with
  | some d => declare n.text .unknown d
  | none => setVariable n.text .unknown n

def bindMember (visit : Visit) (n : Node) : Engine Unit := do
  let (base, name) ← memberTarget visit n
  setMember base name .unknown n

def visitComputed (visit : Visit) (n : Node) (role : Role) : Engine Unit := do
  (n.child? role).forM fun key => when (key.kind = .computedPropertyName) do
    let _ ← visit key

mutual

/-- Bind every name of a pattern to an unknown value. Without a kind of declaration the names are
assigned to. -/
def bind (visit : Visit) (d : Option Declaration) : Node → Engine Unit
  | ⟨kind, role, id, start, text, missing, children⟩ => do
    let n : Node := ⟨kind, role, id, start, text, missing, children⟩
    match kind with
    | .identifier | .shorthandPropertyIdentifierPattern => bindName d n
    | .assignmentPattern | .objectAssignmentPattern =>
      visitAs visit n .right
      bindAs visit d .left children
    | .pairPattern =>
      visitComputed visit n .key
      bindAs visit d .value children
    | .objectPattern | .arrayPattern | .restPattern => bindEach visit d children
    | .memberExpression | .subscriptExpression => if d.isNone then bindMember visit n
    | _ => pure ()

/-- Bind the names of every pattern in a list. -/
def bindEach (visit : Visit) (d : Option Declaration) : List Node → Engine Unit
  | [] => pure ()
  | n :: rest => do
    bind visit d n
    bindEach visit d rest

def bindAs (visit : Visit) (d : Option Declaration) (role : Role) : List Node → Engine Unit
  | [] => pure ()
  | n :: rest => if n.role = some role then bind visit d n else bindAs visit d role rest

end

mutual

/-- The target that an expression stands for. Patterns are bound at once; an expression that is no
target is visited. -/
def resolve (visit : Visit) : Node → Engine Target
  | ⟨kind, role, id, start, text, missing, children⟩ => do
    let n : Node := ⟨kind, role, id, start, text, missing, children⟩
    match kind with
    | .identifier => return .variable text
    | .memberExpression | .subscriptExpression =>
      let (base, name) ← memberTarget visit n
      return .member base name
    | .parenthesizedExpression => resolveFirst visit children
    | .objectPattern | .arrayPattern =>
      bind visit none n
      return .pattern
    | _ =>
      let _ ← visit n
      return .unknown

def resolveFirst (visit : Visit) : List Node → Engine Target
  | [] => return .unknown
  | n :: rest => if n.kind = .token then resolveFirst visit rest else resolve visit n

end

end Engine

end AddonAudit.Script
