import AddonAudit.Script.Engine.Literal

/-!
# Expressions

Assignments, operators, calls and members.
-/

namespace AddonAudit.Script.Engine

/-- Run a step with two parts of a node, or visit all parts if one of the two is missing. -/
def withBoth (visit : Visit) (n : Node) (step : Node → Node → Engine Value) : Engine Value :=
  match n.child? .left, n.child? .right with
  | some left, some right => step left right
  | _, _ => visitUnknown visit n

def assignment (visit : Visit) (n : Node) : Engine Value :=
  withBoth visit n fun left right => do
    let target ← resolve visit left
    let v ← visit right
    assign target v n
    return v

def augmentedAssignment (visit : Visit) (n : Node) : Engine Value :=
  withBoth visit n fun left right => do
    let target ← resolve visit left
    let current ← readTarget target left
    let v ← visit right
    let op := BinaryOp.ofText (augmentedOperator (n.textOf .operator))
    let result := Operator.binary (← heap) op current v
    assign target result n
    return result

def isPrefixed (n : Node) : Bool :=
  (n.children.find? fun c => c.role = some .operator || c.role = some .argument).any
    (·.role = some .operator)

/-- Store the value of a target after one step up or down. The value is the old or the new one. -/
def stepTarget (target : Target) (current : Value) (n : Node) : Engine Value := do
  let step := if n.textOf .operator = "--" then -1.0 else 1.0
  let x := (← heap).toNumber current
  let old := if current.isDirty then .unknown else .number x
  let new := if current.isDirty then .unknown else .number (x + step)
  assign target new n
  return if isPrefixed n then new else old

def updateValue (visit : Visit) (n : Node) : Engine Value := do
  match n.child? .argument with
  | none => visitUnknown visit n
  | some argument =>
    let target ← resolve visit argument
    let current ← readTarget target argument
    match target with
    | .unknown | .pattern => return .unknown
    | target => stepTarget target current n

mutual

/-- The chain of operators down the left sides of an operator expression, innermost first, and the
operand at its end. -/
def spine (outer : List Node) : Node → List Node × Option Node
  | ⟨kind, role, id, start, text, missing, children⟩ =>
    spineBelow (⟨kind, role, id, start, text, missing, children⟩ :: outer) children

/-- The rest of a chain below its innermost operator. -/
def spineBelow (links : List Node) : List Node → List Node × Option Node
  | [] => (links, none)
  | n :: rest =>
    if n.role = some .left then
      if n.kind = .binaryExpression then spine links n else (links, some n)
    else spineBelow links rest

end

def applyLink (visit : Visit) (left : Value) (n : Node) : Engine Value := do
  let right ← valueAs visit n .right .unknown
  return Operator.binary (← heap) (BinaryOp.ofText (n.textOf .operator)) left right

/-- Apply the operators of a chain, innermost first, to the value of their left side. -/
def foldSpine (visit : Visit) (left : Value) : List Node → Engine Value
  | [] => return left
  | n :: rest => do
    let v ← applyLink visit left n
    foldSpine visit v rest

/-- The value at the left end of a chain. -/
def innermost (visit : Visit) : Option Node → Engine Value
  | some operand => visit operand
  | none => return .unknown

/-- An operator with two operands. A chain of them is folded in a loop, so that its length costs no
depth. -/
def binaryValue (visit : Visit) (n : Node) : Engine Value := do
  let (links, operand) := spine [] n
  let left ← innermost visit operand
  foldSpine visit left links

def unaryValue (visit : Visit) (n : Node) : Engine Value := do
  let operand ← valueAs visit n .argument .unknown
  return Operator.unary (← heap) (UnaryOp.ofText (n.textOf .operator)) operand

/-- A choice between two expressions. Both are visited. -/
def ternaryValue (visit : Visit) (n : Node) : Engine Value := do
  let condition ← valueAs visit n .condition .unknown
  let consequence ← valueAs visit n .consequence .unknown
  let alternative ← valueAs visit n .alternative .unknown
  if condition.isDirty then return .unknown
  return if condition.truthy then consequence else alternative

/-- The arguments of a call; those of a tagged template are the template. -/
def argumentValues (visit : Visit) (n : Node) : Engine Arguments :=
  match n.child? .arguments with
  | none => return []
  | some list =>
    if list.kind = .templateString then elementValues visit [list]
    else elementValues visit list.parts

def calleeValue (visit : Visit) (callee : Node) : Engine Value := do
  match callee.kind with
  | .memberExpression | .subscriptExpression =>
    let (base, name) ← memberTarget visit callee
    getMember base name callee
  | _ => visit callee

def callExpression (visit : Visit) (n : Node) : Engine Value := do
  match n.child? .function with
  | none => visitUnknown visit n
  | some callee =>
    let f ← calleeValue visit callee
    let args ← argumentValues visit n
    callValue f args n

def newExpression (visit : Visit) (n : Node) : Engine Value := do
  let f ← valueAs visit n .constructor .unknown
  let args ← argumentValues visit n
  let id ← onHeap Heap.newObject
  if f.entity.isSome then callValue f args n else return .object id

def memberValue (visit : Visit) (n : Node) : Engine Value := do
  let (base, name) ← memberTarget visit n
  getMember base name n

end AddonAudit.Script.Engine
