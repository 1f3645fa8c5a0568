import AddonAudit.Script.Kind

/-!
# Rules for kinds of nodes

What the analysis does with a node: which parts it visits in which order, which scope it opens, and
whether an action stands in for the visit of its parts.
-/

namespace AddonAudit.Script

/-- What stands in for the visit of a node's parts. -/
inductive Action where
  | ifStatement | forIn | catchClause | importStatement | variableDeclaration | lexicalDeclaration
  | functionDeclaration | functionExpression | arrowFunction | methodDefinition
  | classDeclaration | classExpression
  | identifier | thisValue | unknown | number | string | template | regex | boolean | null
  | undefined | object | array
  | assignment | augmentedAssignment | update | binary | unary | ternary
  | call | construct | member | subscript
  deriving DecidableEq, Repr

inductive Branches where
  | all
  | roles (list : List Role)
  deriving DecidableEq, Repr

/-- What is done with nodes of a kind. -/
structure Rule where
  branches : Branches := .all
  /-- The node has a scope like that of a function. -/
  dynamic : Bool := false
  /-- The node has a scope like that of a block. -/
  block : Bool := false
  action : Option Action := none
  /-- The node's value is given to its parent. -/
  returns : Bool := false
  deriving DecidableEq, Repr

namespace Rule

def parts (roles : List Role) : Rule := { branches := .roles roles }

def blockOf (roles : List Role) : Rule := { branches := .roles roles, block := true }

def value (a : Action) : Rule := { action := some a, returns := true }

def function (a : Action) : Rule := { action := some a, dynamic := true, returns := true }

def inBlock (a : Action) : Rule := { action := some a, block := true }

def last : Rule := { returns := true }

end Rule

/-- The rule of a kind. Kinds without a rule have their parts visited and no known value. -/
def Kind.rule? : Kind → Option Rule
  | .program | .expressionStatement | .elseClause | .returnStatement | .throwStatement
  | .error => some {}
  | .statementBlock | .switchBody | .classBody => some { block := true }
  | .ifStatement => some { action := some .ifStatement }
  | .whileStatement => some (.parts [.condition, .body])
  | .doStatement => some (.parts [.body, .condition])
  | .forStatement => some (.blockOf [.initializer, .condition, .increment, .body])
  | .forInStatement => some (.inBlock .forIn)
  | .tryStatement => some (.parts [.body, .handler, .finalizer])
  | .catchClause => some (.inBlock .catchClause)
  | .finallyClause | .labeledStatement | .switchDefault => some (.parts [.body])
  | .switchStatement | .switchCase => some (.parts [.value, .body])
  | .withStatement => some (.blockOf [.object, .body])
  | .breakStatement | .continueStatement | .debuggerStatement | .emptyStatement =>
    some (.parts [])
  | .exportStatement => some (.parts [.declaration, .value])
  | .importStatement => some { action := some .importStatement }
  | .variableDeclaration => some (.value .variableDeclaration)
  | .lexicalDeclaration => some (.value .lexicalDeclaration)
  | .functionDeclaration | .generatorFunctionDeclaration => some (.function .functionDeclaration)
  | .functionExpression | .bareFunction | .generatorFunction => some (.function .functionExpression)
  | .arrowFunction => some (.function .arrowFunction)
  | .methodDefinition => some (.function .methodDefinition)
  | .classDeclaration => some (.value .classDeclaration)
  | .classExpression => some (.value .classExpression)
  | .classHeritage | .parenthesizedExpression | .sequenceExpression | .templateSubstitution
  | .computedPropertyName => some .last
  | .fieldDefinition => some (.parts [.value])
  | .classStaticBlock => some (.blockOf [.body])
  | .identifier => some (.value .identifier)
  | .thisValue => some (.value .thisValue)
  | .superValue | .spreadElement | .awaitExpression | .yieldExpression => some (.value .unknown)
  | .number => some (.value .number)
  | .string => some (.value .string)
  | .templateString => some (.value .template)
  | .regex => some (.value .regex)
  | .trueLiteral | .falseLiteral => some (.value .boolean)
  | .nullLiteral => some (.value .null)
  | .undefinedValue => some (.value .undefined)
  | .object => some (.value .object)
  | .array => some (.value .array)
  | .assignmentExpression => some (.value .assignment)
  | .augmentedAssignmentExpression => some (.value .augmentedAssignment)
  | .updateExpression => some (.value .update)
  | .binaryExpression => some (.value .binary)
  | .unaryExpression => some (.value .unary)
  | .ternaryExpression => some (.value .ternary)
  | .callExpression => some (.value .call)
  | .newExpression => some (.value .construct)
  | .memberExpression => some (.value .member)
  | .subscriptExpression => some (.value .subscript)
  | _ => none

end AddonAudit.Script
