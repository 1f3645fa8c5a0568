/-!
# Kinds of nodes

The kinds of nodes of a script's tree and the roles in which a node stands below its parent.
-/

namespace AddonAudit.Script

/-- The kind of a node. The last one is a token that has no kind of its own. -/
inductive Kind where
  | program | hashBangLine | comment | htmlComment | expressionStatement | emptyStatement
  | debuggerStatement | variableDeclaration | lexicalDeclaration | variableDeclarator
  | statementBlock | ifStatement | elseClause | switchStatement | switchBody | switchCase
  | switchDefault | forStatement | forInStatement | whileStatement | doStatement | withStatement
  | tryStatement | catchClause | finallyClause | labeledStatement | statementIdentifier
  | breakStatement | continueStatement | returnStatement | throwStatement | importStatement
  | importClause | namespaceImport | namedImports | importSpecifier | importAttribute
  | exportStatement | exportClause | exportSpecifier | namespaceExport | functionDeclaration
  | generatorFunctionDeclaration | functionExpression | bareFunction | generatorFunction
  | arrowFunction | classDeclaration | classExpression | classHeritage | classBody
  | methodDefinition | fieldDefinition | classStaticBlock | decorator | formalParameters
  | objectPattern | shorthandPropertyIdentifierPattern | pairPattern | objectAssignmentPattern
  | assignmentPattern | restPattern | arrayPattern | object | pair | spreadElement
  | shorthandPropertyIdentifier | propertyIdentifier | privatePropertyIdentifier
  | computedPropertyName | array | callExpression | importCall | arguments | optionalChain
  | newExpression | memberExpression | subscriptExpression | assignmentExpression
  | augmentedAssignmentExpression | updateExpression | binaryExpression | unaryExpression
  | ternaryExpression | parenthesizedExpression | sequenceExpression | awaitExpression
  | yieldExpression | string | stringFragment | escapeSequence | templateString
  | templateSubstitution | htmlCharacterReference | regex | regexPattern | regexFlags | identifier
  | undefinedValue | thisValue | superValue | trueLiteral | falseLiteral | nullLiteral | number
  | metaProperty | jsxElement | jsxOpeningElement | jsxClosingElement | jsxSelfClosingElement
  | jsxAttribute | jsxExpression | jsxText | jsxNamespaceName | error
  | token
  deriving DecidableEq, Repr, Inhabited

namespace Kind

def name : Kind → String
  | .program => "program"
  | .hashBangLine => "hash_bang_line"
  | .comment => "comment"
  | .htmlComment => "html_comment"
  | .expressionStatement => "expression_statement"
  | .emptyStatement => "empty_statement"
  | .debuggerStatement => "debugger_statement"
  | .variableDeclaration => "variable_declaration"
  | .lexicalDeclaration => "lexical_declaration"
  | .variableDeclarator => "variable_declarator"
  | .statementBlock => "statement_block"
  | .ifStatement => "if_statement"
  | .elseClause => "else_clause"
  | .switchStatement => "switch_statement"
  | .switchBody => "switch_body"
  | .switchCase => "switch_case"
  | .switchDefault => "switch_default"
  | .forStatement => "for_statement"
  | .forInStatement => "for_in_statement"
  | .whileStatement => "while_statement"
  | .doStatement => "do_statement"
  | .withStatement => "with_statement"
  | .tryStatement => "try_statement"
  | .catchClause => "catch_clause"
  | .finallyClause => "finally_clause"
  | .labeledStatement => "labeled_statement"
  | .statementIdentifier => "statement_identifier"
  | .breakStatement => "break_statement"
  | .continueStatement => "continue_statement"
  | .returnStatement => "return_statement"
  | .throwStatement => "throw_statement"
  | .importStatement => "import_statement"
  | .importClause => "import_clause"
  | .namespaceImport => "namespace_import"
  | .namedImports => "named_imports"
  | .importSpecifier => "import_specifier"
  | .importAttribute => "import_attribute"
  | .exportStatement => "export_statement"
  | .exportClause => "export_clause"
  | .exportSpecifier => "export_specifier"
  | .namespaceExport => "namespace_export"
  | .functionDeclaration => "function_declaration"
  | .generatorFunctionDeclaration => "generator_function_declaration"
  | .functionExpression => "function_expression"
  | .bareFunction => "function"
  | .generatorFunction => "generator_function"
  | .arrowFunction => "arrow_function"
  | .classDeclaration => "class_declaration"
  | .classExpression => "class"
  | .classHeritage => "class_heritage"
  | .classBody => "class_body"
  | .methodDefinition => "method_definition"
  | .fieldDefinition => "field_definition"
  | .classStaticBlock => "class_static_block"
  | .decorator => "decorator"
  | .formalParameters => "formal_parameters"
  | .objectPattern => "object_pattern"
  | .shorthandPropertyIdentifierPattern => "shorthand_property_identifier_pattern"
  | .pairPattern => "pair_pattern"
  | .objectAssignmentPattern => "object_assignment_pattern"
  | .assignmentPattern => "assignment_pattern"
  | .restPattern => "rest_pattern"
  | .arrayPattern => "array_pattern"
  | .object => "object"
  | .pair => "pair"
  | .spreadElement => "spread_element"
  | .shorthandPropertyIdentifier => "shorthand_property_identifier"
  | .propertyIdentifier => "property_identifier"
  | .privatePropertyIdentifier => "private_property_identifier"
  | .computedPropertyName => "computed_property_name"
  | .array => "array"
  | .callExpression => "call_expression"
  | .importCall => "import"
  | .arguments => "arguments"
  | .optionalChain => "optional_chain"
  | .newExpression => "new_expression"
  | .memberExpression => "member_expression"
  | .subscriptExpression => "subscript_expression"
  | .assignmentExpression => "assignment_expression"
  | .augmentedAssignmentExpression => "augmented_assignment_expression"
  | .updateExpression => "update_expression"
  | .binaryExpression => "binary_expression"
  | .unaryExpression => "unary_expression"
  | .ternaryExpression => "ternary_expression"
  | .parenthesizedExpression => "parenthesized_expression"
  | .sequenceExpression => "sequence_expression"
  | .awaitExpression => "await_expression"
  | .yieldExpression => "yield_expression"
  | .string => "string"
  | .stringFragment => "string_fragment"
  | .escapeSequence => "escape_sequence"
  | .templateString => "template_string"
  | .templateSubstitution => "template_substitution"
  | .htmlCharacterReference => "html_character_reference"
  | .regex => "regex"
  | .regexPattern => "regex_pattern"
  | .regexFlags => "regex_flags"
  | .identifier => "identifier"
  | .undefinedValue => "undefined"
  | .thisValue => "this"
  | .superValue => "super"
  | .trueLiteral => "true"
  | .falseLiteral => "false"
  | .nullLiteral => "null"
  | .number => "number"
  | .metaProperty => "meta_property"
  | .jsxElement => "jsx_element"
  | .jsxOpeningElement => "jsx_opening_element"
  | .jsxClosingElement => "jsx_closing_element"
  | .jsxSelfClosingElement => "jsx_self_closing_element"
  | .jsxAttribute => "jsx_attribute"
  | .jsxExpression => "jsx_expression"
  | .jsxText => "jsx_text"
  | .jsxNamespaceName => "jsx_namespace_name"
  | .error => "ERROR"
  | .token => ""

def named : List Kind :=
  [.program, .hashBangLine, .comment, .htmlComment, .expressionStatement, .emptyStatement,
    .debuggerStatement, .variableDeclaration, .lexicalDeclaration, .variableDeclarator,
    .statementBlock, .ifStatement, .elseClause, .switchStatement, .switchBody, .switchCase,
    .switchDefault, .forStatement, .forInStatement, .whileStatement, .doStatement, .withStatement,
    .tryStatement, .catchClause, .finallyClause, .labeledStatement, .statementIdentifier,
    .breakStatement, .continueStatement, .returnStatement, .throwStatement, .importStatement,
    .importClause, .namespaceImport, .namedImports, .importSpecifier, .importAttribute,
    .exportStatement, .exportClause, .exportSpecifier, .namespaceExport, .functionDeclaration,
    .generatorFunctionDeclaration, .functionExpression, .bareFunction, .generatorFunction,
    .arrowFunction, .classDeclaration, .classExpression, .classHeritage, .classBody,
    .methodDefinition, .fieldDefinition, .classStaticBlock, .decorator, .formalParameters,
    .objectPattern, .shorthandPropertyIdentifierPattern, .pairPattern, .objectAssignmentPattern,
    .assignmentPattern, .restPattern, .arrayPattern, .object, .pair, .spreadElement,
    .shorthandPropertyIdentifier, .propertyIdentifier, .privatePropertyIdentifier,
    .computedPropertyName, .array, .callExpression, .importCall, .arguments, .optionalChain,
    .newExpression, .memberExpression, .subscriptExpression, .assignmentExpression,
    .augmentedAssignmentExpression, .updateExpression, .binaryExpression, .unaryExpression,
    .ternaryExpression, .parenthesizedExpression, .sequenceExpression, .awaitExpression,
    .yieldExpression, .string, .stringFragment, .escapeSequence, .templateString,
    .templateSubstitution, .htmlCharacterReference, .regex, .regexPattern, .regexFlags,
    .identifier, .undefinedValue, .thisValue, .superValue, .trueLiteral, .falseLiteral,
    .nullLiteral, .number, .metaProperty, .jsxElement, .jsxOpeningElement, .jsxClosingElement,
    .jsxSelfClosingElement, .jsxAttribute, .jsxExpression, .jsxText, .jsxNamespaceName, .error]

def ofName? (s : String) : Option Kind :=
  named.find? fun k => k.name = s

def isComment : Kind → Bool
  | .comment | .htmlComment | .hashBangLine => true
  | _ => false

end Kind

/-- The role of a node below its parent. -/
inductive Role where
  | aliasName | alternative | argument | arguments | body | condition | consequence | constructor
  | declaration | finalizer | function | handler | increment | index | initializer | key | kind
  | label | left | name | object | operator | parameter | parameters | property | right | source
  | value
  deriving DecidableEq, Repr, Inhabited

def Role.spelling : Role → String
  | .aliasName => "alias"
  | .alternative => "alternative"
  | .argument => "argument"
  | .arguments => "arguments"
  | .body => "body"
  | .condition => "condition"
  | .consequence => "consequence"
  | .constructor => "constructor"
  | .declaration => "declaration"
  | .finalizer => "finalizer"
  | .function => "function"
  | .handler => "handler"
  | .increment => "increment"
  | .index => "index"
  | .initializer => "initializer"
  | .key => "key"
  | .kind => "kind"
  | .label => "label"
  | .left => "left"
  | .name => "name"
  | .object => "object"
  | .operator => "operator"
  | .parameter => "parameter"
  | .parameters => "parameters"
  | .property => "property"
  | .right => "right"
  | .source => "source"
  | .value => "value"

end AddonAudit.Script
