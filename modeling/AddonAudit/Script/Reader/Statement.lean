import AddonAudit.Script.Reader.Expression

/-!
# Statements

Declarations, control flow, imports and exports. A brace at the start of a statement opens a block,
unless what follows reads as the entries of an object.
-/

namespace AddonAudit.Script.Reader

def parenthesized (grammar : Grammar) : Production Unit :=
  closed .parenthesizedExpression do
    expect "("
    openGap
    grammar (.expressions true)
    symbol ")"

def block (grammar : Grammar) : Production Unit :=
  closed .statementBlock do
    expect "\x7b"
    loop do
      openGap
      match ← look with
      | [] => stop
      | '\x7d' :: _ => return false
      | _ =>
        grammar .statement
        return true
    expect "\x7d"

def declaredName (grammar : Grammar) : Production Unit := do
  let mark ← height
  match ← look with
  | '[' :: _ => array grammar
  | '\x7b' :: _ => object grammar
  | _ => wordLeaf .identifier
  targetsFrom mark

def declarator (grammar : Grammar) (allowIn : Bool) : Production Unit :=
  node .variableDeclarator do
    withRole .name (declaredName grammar)
    gap
    if assigns (← look) then
      let _ ← take 1
      part .value (grammar (.expression allowIn))

def declarators (grammar : Grammar) (allowIn : Bool) : Production Unit := do
  openGap
  declarator grammar allowIn
  loop do
    gap
    if ← accept "," then
      openGap
      declarator grammar allowIn
      return true
    else return false

def declarationKind (word : String) : Kind :=
  if word = "var" then .variableDeclaration else .lexicalDeclaration

def declaration (grammar : Grammar) (word : String) : Production Unit :=
  closed (declarationKind word) do
    tokenLeaf .kind word.length
    declarators grammar true
    semicolon true

/-- Whether the word `let` at the front starts a declaration. -/
def letDeclares (cs : List Char) : Bool :=
  let after := peekAfterWord cs
  match after with
  | '[' :: _ | '\x7b' :: _ => true
  | _ => wordLength after ≠ 0 && wordOf after ≠ "in" && wordOf after ≠ "instanceof"

def expressionStatement (grammar : Grammar) : Production Unit :=
  closed .expressionStatement do
    grammar (.expressions true)
    semicolon false

def ifStatement (grammar : Grammar) : Production Unit :=
  node .ifStatement do
    keyword "if"
    part .condition (parenthesized grammar)
    part .consequence (grammar .statement)
    openGap
    if (← nextWord) = "else" then
      withRole .alternative do
        node .elseClause do
          keyword "else"
          openGap
          grammar .statement

def whileStatement (grammar : Grammar) : Production Unit :=
  node .whileStatement do
    keyword "while"
    part .condition (parenthesized grammar)
    part .body (grammar .statement)

def doStatement (grammar : Grammar) : Production Unit :=
  node .doStatement do
    keyword "do"
    part .body (grammar .statement)
    openGap
    keyword "while"
    part .condition (parenthesized grammar)
    gap
    let _ ← accept ";"

/-- The word `in` or `of`, the collection and the body of a loop whose head starts at a mark. -/
def forInRest (grammar : Grammar) (mark : Nat) (start : Position) : Production Unit := do
  gap
  tokenLeaf .operator 2
  part .right (grammar (.expressions true))
  symbol ")"
  part .body (grammar .statement)
  gather .forInStatement mark start

/-- Whether the word `in` or `of` is at the front. -/
def iterates (cs : List Char) : Bool :=
  wordOf cs = "in" || wordOf cs = "of"

/-- The condition, the step and the body of a loop whose start value is read. -/
def forRest (grammar : Grammar) (mark : Nat) (start : Position) : Production Unit := do
  openGap
  match ← look with
  | ';' :: _ => withRole .condition (leaf .emptyStatement 1)
  | _ =>
    withRole .condition (grammar (.expressions true))
    symbol ";"
  openGap
  if (← look).head? ≠ some ')' then withRole .increment (grammar (.expressions true))
  symbol ")"
  part .body (grammar .statement)
  gather .forStatement mark start

def forDeclaration (grammar : Grammar) (word : String) (mark : Nat) (start : Position) :
    Production Unit := do
  let place ← here
  let inner ← height
  tokenLeaf .kind word.length
  openGap
  let first ← height
  let firstPlace ← here
  declaredName grammar
  gap
  if iterates (← look) then
    change first fun n => { n with role := some .left }
    forInRest grammar mark start
  else
    let valued := assigns (← look)
    if valued then
      let _ ← take 1
      part .value (grammar (.expression false))
    gap
    if valued && iterates (← look) then
      change first fun n => { n with role := some .left }
      forInRest grammar mark start
    else
      change first fun n => { n with role := some .name }
      gather .variableDeclarator first firstPlace
      if ← isNext "," then
        let _ ← accept ","
        declarators grammar false
      symbol ";"
      gatherAll (declarationKind word) inner place
      change inner fun n => { n with role := some .initializer }
      forRest grammar mark start

def forStatement (grammar : Grammar) : Production Unit := do
  let start ← here
  let mark ← height
  keyword "for"
  gap
  if (← nextWord) = "await" then keyword "await"
  symbol "("
  openGap
  let cs ← look
  let word := wordOf cs
  if word = "var" || word = "const" || (word = "let" && letDeclares cs) then
    forDeclaration grammar word mark start
  else if cs.head? = some ';' then
    withRole .initializer (leaf .emptyStatement 1)
    forRest grammar mark start
  else
    let inner ← height
    grammar (.expressions false)
    gap
    if iterates (← look) then
      change inner fun n => { toTarget n with role := some .left }
      forInRest grammar mark start
    else
      change inner fun n => { n with role := some .initializer }
      symbol ";"
      forRest grammar mark start

def catchParameter (grammar : Grammar) : Production Unit := do
  expect "("
  part .parameter (declaredName grammar)
  symbol ")"

def tryStatement (grammar : Grammar) : Production Unit :=
  node .tryStatement do
    keyword "try"
    part .body (grammar .block)
    openGap
    if (← nextWord) = "catch" then
      withRole .handler do
        node .catchClause do
          keyword "catch"
          gap
          if (← look).head? = some '(' then catchParameter grammar
          part .body (grammar .block)
    openGap
    if (← nextWord) = "finally" then
      withRole .finalizer do
        node .finallyClause do
          keyword "finally"
          part .body (grammar .block)

def caseBody (grammar : Grammar) : Production Unit :=
  loop do
    openGap
    let cs ← look
    if cs.isEmpty || cs.head? = some '\x7d' || wordOf cs = "case" || wordOf cs = "default" then
      return false
    withRole .body (grammar .statement)
    return true

def switchCase (grammar : Grammar) : Production Unit := do
  if (← nextWord) = "case" then
    node .switchCase do
      keyword "case"
      part .value (grammar (.expressions true))
      symbol ":"
      caseBody grammar
  else
    node .switchDefault do
      keyword "default"
      symbol ":"
      caseBody grammar

def switchBody (grammar : Grammar) : Production Unit :=
  closed .switchBody do
    expect "\x7b"
    loop do
      openGap
      match ← look with
      | '\x7d' :: _ => return false
      | _ =>
        switchCase grammar
        return true
    expect "\x7d"

def switchStatement (grammar : Grammar) : Production Unit :=
  node .switchStatement do
    keyword "switch"
    part .value (parenthesized grammar)
    part .body (switchBody grammar)

def withStatement (grammar : Grammar) : Production Unit :=
  node .withStatement do
    keyword "with"
    part .object (parenthesized grammar)
    part .body (grammar .statement)

def jump (kind : Kind) (word : String) : Production Unit :=
  closed kind do
    keyword word
    gap
    if !(← endsHere true) && wordLength (← look) ≠ 0 then
      withRole .label (wordLeaf .statementIdentifier)
    semicolon true

def returnStatement (grammar : Grammar) : Production Unit :=
  closed .returnStatement do
    keyword "return"
    gap
    if !(← endsHere true) && (← look).head? ≠ some ';' then
      openGap
      grammar (.expressions true)
      semicolon false
    else semicolon true

def throwStatement (grammar : Grammar) : Production Unit :=
  closed .throwStatement do
    keyword "throw"
    openGap
    grammar (.expressions true)
    semicolon false

def anyString : Production Unit := do
  match ← look with
  | '"' :: _ => string '"'
  | '\'' :: _ => string '\''
  | _ => stop

def exportedName : Production Unit := do
  match ← look with
  | '"' :: _ => string '"'
  | '\'' :: _ => string '\''
  | _ => wordLeaf .identifier

def renamed (kind : Kind) : Production Unit :=
  node kind do
    withRole .name exportedName
    gap
    if (← nextWord) = "as" then
      keyword "as"
      part .aliasName exportedName

def namedMembers (kind item : Kind) : Production Unit :=
  closed kind do
    expect "\x7b"
    list "\x7d" (renamed item)

def namespaceImport : Production Unit :=
  node .namespaceImport do
    expect "*"
    gap
    keyword "as"
    openGap
    wordLeaf .identifier

def importedMembers : Production Unit := do
  match ← look with
  | '*' :: _ => namespaceImport
  | _ => namedMembers .namedImports .importSpecifier

def importClause : Production Unit :=
  node .importClause do
    if wordLength (← look) ≠ 0 then
      wordLeaf .identifier
      if ← isNext "," then
        let _ ← accept ","
        openGap
        importedMembers
    else importedMembers

def fromClause : Production Unit := do
  gap
  keyword "from"
  part .source anyString

def importAttribute (grammar : Grammar) : Production Unit := do
  gap
  if (← nextWord) = "with" then
    node .importAttribute do
      keyword "with"
      openGap
      object grammar

def importStatement (grammar : Grammar) : Production Unit :=
  closed .importStatement do
    keyword "import"
    openGap
    match ← look with
    | '"' :: _ | '\'' :: _ => withRole .source anyString
    | _ =>
      importClause
      fromClause
    importAttribute grammar
    semicolon true

def declares (cs : List Char) : Bool :=
  match wordOf cs with
  | "var" | "const" | "class" => true
  | "let" => letDeclares cs
  | "function" => wordLength (afterStar (peekAfterWord cs)) ≠ 0
  | "async" =>
    let after := peekAfterWord cs
    wordOf after = "function" && wordLength (afterStar (peekAfterWord after)) ≠ 0
  | _ => cs.head? = some '@'
where
  afterStar : List Char → List Char
    | '*' :: rest => afterGap (rest.length + 1) rest
    | cs => cs

def anyDeclaration (grammar : Grammar) : Production Unit := do
  let word ← nextWord
  match word with
  | "var" | "let" | "const" => declaration grammar word
  | "function" | "async" => function grammar true
  | _ => classNode grammar .classDeclaration

def exportDefault (grammar : Grammar) : Production Unit := do
  keyword "default"
  openGap
  let cs ← look
  let named := wordOf cs ≠ "class" ||
    (wordLength (peekAfterWord cs) ≠ 0 && wordOf (peekAfterWord cs) ≠ "extends")
  if declares cs && named then withRole .declaration (anyDeclaration grammar)
  else
    withRole .value (grammar (.expression true))
    semicolon false

def exportStatement (grammar : Grammar) : Production Unit :=
  closed .exportStatement do
    decorators grammar
    keyword "export"
    openGap
    match ← look with
    | '*' :: _ =>
      let start ← here
      let mark ← height
      let _ ← take 1
      gap
      if (← nextWord) = "as" then
        keyword "as"
        openGap
        exportedName
        gather .namespaceExport mark start
      fromClause
      semicolon true
    | '\x7b' :: _ =>
      namedMembers .exportClause .exportSpecifier
      gap
      if (← nextWord) = "from" then fromClause
      semicolon true
    | cs =>
      if wordOf cs = "default" then exportDefault grammar
      else if declares cs then withRole .declaration (anyDeclaration grammar)
      else stop

def labeled (grammar : Grammar) : Production Unit :=
  node .labeledStatement do
    withRole .label (wordLeaf .statementIdentifier)
    symbol ":"
    part .body (grammar .statement)

/-- Whether the text after an opening brace reads like the first entry of an object. -/
def looksLikeEntry (cs : List Char) : Bool :=
  let inner := afterGap (cs.length + 1) cs
  wordLength inner ≠ 0 && (peekAfterWord inner).head? = some ':'

def braced (grammar : Grammar) : Production Unit := do
  match ← look with
  | _ :: rest =>
    if looksLikeEntry rest then orElse (expressionStatement grammar) (grammar .block)
    else orElse (grammar .block) (expressionStatement grammar)
  | [] => stop

/-- Whether a class, and not an export, follows the decorators at the front. -/
def decorated (grammar : Grammar) : Production Unit :=
  orElse (classNode grammar .classDeclaration) (exportStatement grammar)

def wordStatement (grammar : Grammar) (word : String) (cs : List Char) : Production Unit := do
  let after := peekAfterWord cs
  match word with
  | "if" => ifStatement grammar
  | "for" => forStatement grammar
  | "while" => whileStatement grammar
  | "do" => doStatement grammar
  | "try" => tryStatement grammar
  | "switch" => switchStatement grammar
  | "with" => withStatement grammar
  | "break" => jump .breakStatement word
  | "continue" => jump .continueStatement word
  | "debugger" =>
    closed .debuggerStatement do
      keyword word
      semicolon true
  | "return" => returnStatement grammar
  | "throw" => throwStatement grammar
  | "import" =>
    if after.head? = some '(' || after.head? = some '.' then expressionStatement grammar
    else importStatement grammar
  | "export" => exportStatement grammar
  | _ =>
    if declares cs && (word ≠ "class" || wordLength after ≠ 0 && wordOf after ≠ "extends") then
      anyDeclaration grammar
    else if after.head? = some ':' then labeled grammar
    else expressionStatement grammar

def statement (grammar : Grammar) : Production Unit := do
  match ← look with
  | '\x7b' :: _ => braced grammar
  | ';' :: _ => leaf .emptyStatement 1
  | '@' :: _ => decorated grammar
  | cs =>
    match wordOf cs with
    | "" => expressionStatement grammar
    | word => wordStatement grammar word cs

end AddonAudit.Script.Reader
