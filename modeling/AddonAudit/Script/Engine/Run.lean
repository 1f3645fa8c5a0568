import AddonAudit.Script.Engine.Expression
import AddonAudit.Script.Engine.Statement

/-!
# The walk over a tree

A visit of a node runs the rule of the node's kind, inside the scope that the rule asks for. The
value is kept under the node's number, so that a second visit only reads it. Nesting is followed to
a fixed depth.
-/

namespace AddonAudit.Script.Engine

def runAction (visit : Visit) (n : Node) : Action → Engine Value
  | .ifStatement => ifStatement visit n
  | .forIn => forIn visit n
  | .catchClause => catchClause visit n
  | .importStatement => importStatement n
  | .variableDeclaration => declaration visit .variable n
  | .lexicalDeclaration => declaration visit (lexicalKind n) n
  | .functionDeclaration => functionDeclaration visit n
  | .functionExpression => functionExpression visit n
  | .arrowFunction => arrowFunction visit n
  | .methodDefinition => methodDefinition visit n
  | .classDeclaration => classDeclaration visit n
  | .classExpression => classExpression visit n
  | .identifier => identifierValue n
  | .thisValue => return (← get).receiver
  | .unknown => visitUnknown visit n
  | .number => return .number (Number.ofLiteral n.text)
  | .string => stringValue n
  | .template => templateValue visit n
  | .regex => return .object (← onHeap Heap.newObject)
  | .boolean => return .bool (n.kind = .trueLiteral)
  | .null => return .null
  | .undefined => return .undefined
  | .object => objectValue visit n
  | .array => arrayValue visit n
  | .assignment => assignment visit n
  | .augmentedAssignment => augmentedAssignment visit n
  | .update => updateValue visit n
  | .binary => binaryValue visit n
  | .unary => unaryValue visit n
  | .ternary => ternaryValue visit n
  | .call => callExpression visit n
  | .construct => newExpression visit n
  | .member | .subscript => memberValue visit n

/-- Run a step in the scope that a rule asks for. Arrow functions share the receiver around them. -/
def inRuleScope {α : Type} (rule : Rule) (kind : Kind) (x : Engine α) : Engine α :=
  if rule.dynamic then
    inScope .function (if kind = .arrowFunction then x else inReceiver x)
  else if rule.block then inScope .block x
  else x

def dispatch (visit : Visit) (n : Node) : Engine Value := do
  match n.kind.rule? with
  | none => visitUnknown visit n
  | some rule =>
    let v ← inRuleScope rule n.kind <| match rule.action with
      | some action => runAction visit n action
      | none => visitBranches visit n rule.branches
    return if rule.returns then v else .undefined

/-- How many nodes are visited between two looks at the deadline. -/
def deadlineInterval : Nat := 256

def countNode : Engine Unit := do
  modify fun s => { s with visited := s.visited + 1 }
  if (← get).visited % deadlineInterval = 0 then checkDeadline

def checkDepth : Engine Unit := do
  if maxDepth ≤ (← get).depth then throw .depthExceeded

/-- Evaluate a node by an action: count it, run the action one level deeper and keep its value. -/
def evaluate (n : Node) (action : Engine Value) : Engine Value := do
  countNode
  checkDepth
  let v ← inLevel action
  modify (·.keep n.id v)
  return v

/-- Evaluate a node by an action, unless its value is kept. Comments are not evaluated. -/
def evaluateOnce (n : Node) (action : Engine Value) : Engine Value := do
  match (← get).kept? n.id with
  | some v =>
    if (← read).options.strict then throw (.retraversal n.kind (n.start.row + 1)) else return v
  | none => if n.isComment then return .undefined else evaluate n action

/-- The value of a node. The fuel bounds how deep visits are nested inside each other. -/
def visitWithin : Nat → Node → Engine Value
  | 0, n => evaluateOnce n (throw .depthExceeded)
  | fuel + 1, n => evaluateOnce n (dispatch (visitWithin fuel) n)

/-- The value of a node. The depth is limited, so that the fuel never runs out. -/
def visit (n : Node) : Engine Value :=
  visitWithin maxDepth n

/-- More names than this in the global scope are too many. -/
def globalLimit : Nat := 3

/-- Names that every privileged script is expected to declare. -/
def commonNames : List String := ["Cc", "Ci", "Cu", "Cr"]

def ownGlobals (globals : Properties) : List String :=
  (globals.filter fun (name, v) => !v.inferred && !commonNames.contains name).map Prod.fst

def ownsGlobals (env : Env) (s : State) : Bool :=
  env.options.isModule || s.bundle.metaFlag "is_jetpack" || s.bundle.resourceFlag "em:bootstrap"

/-- The finding about too many global names in a script that shares its global scope. -/
def pollution? (env : Env) (s : State) : Option Finding :=
  let names := ownGlobals s.globals
  if !ownsGlobals env s && names.length > globalLimit then some {
    id := ["javascript", "traverser", "namespace_pollution"]
    message := "Global namespace pollution detected"
    description := [
      "Scripts sharing a window scope should keep their state in a single namespace object.",
      "Global names: " ++ ", ".intercalate names]
    file := some env.file }
  else none

def checkGlobals : Engine Unit := do
  (pollution? (← read) (← get)).forM fun f => do
    let _ ← record .warning f

def run (t : Tree) : Engine Unit := do
  checkDeadline
  let _ ← visit t.root
  checkGlobals

def initial (r : Registry) (t : Tree) (clock : Clock) (b : Bundle) : State where
  bundle := b
  window := match r.global? "window" with
    | some id => .ofEntity id
    | none => .unknown
  results := Array.replicate t.size none
  clock := clock

def runFrom {α : Type} (env : Env) (s : State) (x : Engine α) : Except Fault α × State :=
  (x env).run s

end AddonAudit.Script.Engine
