import AddonAudit.Script.Engine.Target

/-!
# Statements and declarations
-/

namespace AddonAudit.Script.Engine

def givenValue? (visit : Visit) (n : Node) : Engine (Option Value) :=
  match n.child? .value with
  | some c => return some (← visit c)
  | none => return none

/-- Declare a name with the value that is given. A variable without a value keeps an earlier one. -/
def declareGiven (d : Declaration) (name : Node) (given : Option Value) : Engine Unit := do
  match given with
  | some v => declareChecked name.text v d name
  | none =>
    let s ← get
    if d = .variable && (s.variableScope.find? name.text).isSome then return
    declareChecked name.text .undefined d name

def declarator (visit : Visit) (d : Declaration) (n : Node) : Engine Unit :=
  (n.child? .name).forM fun name => do
    let given ← givenValue? visit n
    if name.kind = .identifier then declareGiven d name given else bind visit (some d) name

def declarators (visit : Visit) (d : Declaration) : List Node → Engine Unit
  | [] => pure ()
  | n :: rest => do
    when (n.kind = .variableDeclarator) (declarator visit d n)
    declarators visit d rest

def declaration (visit : Visit) (d : Declaration) (n : Node) : Engine Value := do
  declarators visit d n.parts
  return .undefined

def lexicalKind (n : Node) : Declaration :=
  if n.textOf .kind = "const" then .constant else .letting

def bindParameters (visit : Visit) (n : Node) : Engine Unit := do
  bindAs visit (some .variable) .parameter n.children
  (n.child? .parameters).forM fun list => bindEach visit (some .variable) list.parts

/-- What all functions share: bind the parameters, then visit the body. -/
def functionBody (visit : Visit) (n : Node) : Engine Unit := do
  bindParameters visit n
  visitAs visit n .body

/-- A function declaration. Its name belongs to the scope around. -/
def functionDeclaration (visit : Visit) (n : Node) : Engine Value := do
  let f ← newFunction
  (n.child? .name).forM fun name => declareFunction name.text f
  functionBody visit n
  return f

/-- A function expression. Its name belongs to its own scope. -/
def functionExpression (visit : Visit) (n : Node) : Engine Value := do
  let f ← newFunction
  (n.child? .name).forM fun name => declare name.text f .variable
  functionBody visit n
  return f

def arrowFunction (visit : Visit) (n : Node) : Engine Value := do
  let f ← newFunction
  functionBody visit n
  return f

def methodDefinition (visit : Visit) (n : Node) : Engine Value := do
  let f ← newFunction
  visitComputed visit n .name
  functionBody visit n
  return f

def classParts (n : Node) : List Node :=
  match n.child? .name with
  | some name => n.parts.filter (·.id ≠ name.id)
  | none => n.parts

def classExpression (visit : Visit) (n : Node) : Engine Value := do
  visitEach visit (classParts n)
  newFunction

def classDeclaration (visit : Visit) (n : Node) : Engine Value := do
  let c ← classExpression visit n
  (n.child? .name).forM fun name => declare name.text c .letting
  return c

mutual

/-- The statements of a ladder of conditions, from the top down, and what its last one does
otherwise. -/
def ladder : Node → List Node × Option Node
  | ⟨kind, role, id, start, text, missing, children⟩ =>
    let (rest, last) := ladderBelow children
    (⟨kind, role, id, start, text, missing, children⟩ :: rest, last)

def ladderBelow : List Node → List Node × Option Node
  | [] => ([], none)
  | n :: rest => if n.role = some .alternative then ladderElse n else ladderBelow rest

def ladderElse : Node → List Node × Option Node
  | ⟨kind, role, id, start, text, missing, children⟩ =>
    match ladderNext? children with
    | some found => found
    | none => ([], some ⟨kind, role, id, start, text, missing, children⟩)

/-- The ladder that the first part of a list starts, if that is a condition. -/
def ladderNext? : List Node → Option (List Node × Option Node)
  | [] => none
  | n :: rest =>
    if n.kind = .token || n.kind = .comment then ladderNext? rest
    else if n.kind = .ifStatement then some (ladder n)
    else none

end

def visitLadder (visit : Visit) : List Node → Engine Unit
  | [] => pure ()
  | n :: rest => do
    visitAs visit n .condition
    visitAs visit n .consequence
    visitLadder visit rest

/-- A condition. A ladder is walked in a loop, so that its length costs no depth. -/
def ifStatement (visit : Visit) (n : Node) : Engine Value := do
  let (links, last) := ladder n
  visitLadder visit links
  last.forM fun n => do
    let _ ← visit n
  return .undefined

def loopKind? (n : Node) : Option Declaration :=
  match n.textOf .kind with
  | "var" => some .variable
  | "let" => some .letting
  | "const" => some .constant
  | _ => none

def forIn (visit : Visit) (n : Node) : Engine Value := do
  visitAs visit n .right
  bindAs visit (loopKind? n) .left n.children
  visitAs visit n .body
  return .undefined

def catchClause (visit : Visit) (n : Node) : Engine Value := do
  bindAs visit (some .letting) .parameter n.children
  visitAs visit n .body
  return .undefined

def importedName? (n : Node) : Option Node :=
  if n.kind = .importSpecifier then n.child? .aliasName <|> n.child? .name else none

def importBindings (n : Node) : List Node :=
  match n.kind with
  | .identifier => [n]
  | .namespaceImport => n.parts.filter (·.kind = .identifier)
  | .namedImports => n.parts.filterMap importedName?
  | _ => []

def declareImports : List Node → Engine Unit
  | [] => pure ()
  | n :: rest => do
    declare n.text .unknown .letting
    declareImports rest

def importStatement (n : Node) : Engine Value := do
  let clauses := n.parts.filter (·.kind = .importClause)
  declareImports (clauses.flatMap fun c => c.parts.flatMap importBindings)
  return .undefined

end AddonAudit.Script.Engine
