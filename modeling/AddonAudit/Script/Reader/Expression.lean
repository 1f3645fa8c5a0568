import AddonAudit.Script.Reader.Markup

/-!
# Expressions

Operands with their members and calls, assignments, unary and binary operators, conditions and
sequences. Whether parentheses hold an expression or the parameters of an arrow function is known
only at the arrow, so their content is read as expressions first.
-/

namespace AddonAudit.Script.Reader

def arrowFollows (cs : List Char) : Bool :=
  "=>".toList.isPrefixOf (afterGap (cs.length + 1) cs)

/-- The arrow and the body of an arrow function whose parameters stand at a mark. -/
def arrowRest (grammar : Grammar) (mark : Nat) (start : Position) : Production Unit := do
  symbol "=>"
  openGap
  match ← look with
  | '\x7b' :: _ => withRole .body (grammar .block)
  | _ => withRole .body (grammar (.expression true))
  gather .arrowFunction mark start

def nameArrow (grammar : Grammar) (mark : Nat) (start : Position) : Production Unit := do
  withRole .parameter (wordLeaf .identifier)
  arrowRest grammar mark start

/-- Expressions between commas inside of parentheses. The answer is their number, and whether they
can only be parameters. -/
def groupItems (grammar : Grammar) : Nat → Nat → Bool → Production (Nat × Bool)
  | 0, count, only => return (count, only)
  | fuel + 1, count, only => do
    openGap
    match ← look with
    | ')' :: _ => return (count, true)
    | cs =>
      let spreads := "...".toList.isPrefixOf cs
      element grammar
      gap
      if ← accept "," then groupItems grammar fuel (count + 1) (only || spreads)
      else return (count + 1, only || spreads)

def group (grammar : Grammar) : Production Unit := do
  let start ← here
  let mark ← height
  expect "("
  openGap
  let innerStart ← here
  let inner ← height
  let (count, only) ← groupItems grammar ((← look).length + 1) 0 false
  symbol ")"
  if arrowFollows (← look) then
    targetsFrom inner
    gatherAll .formalParameters mark start
    change mark fun n => { n with role := some .parameters }
    arrowRest grammar mark start
  else if only then stop
  else
    if 1 < count then gather .sequenceExpression inner innerStart
    gatherAll .parenthesizedExpression mark start

def discard (mark : Nat) : Production Unit :=
  modify fun s => { s with stack := s.stack.eraseIdx (s.stack.length - 1 - mark) }

/-- The word `async` and parentheses: a call, or an arrow function. -/
def asyncGroup (grammar : Grammar) (mark : Nat) (start : Position) : Production Unit := do
  wordLeaf .identifier
  gap
  let inner ← height
  arguments grammar
  if arrowFollows (← look) then
    change inner fun n =>
      { n with
        kind := .formalParameters, role := some .parameters, children := toTargets n.children }
    discard mark
    arrowRest grammar mark start
  else
    change mark fun n => { n with role := some .function }
    change inner fun n => { n with role := some .arguments }
    gather .callExpression mark start

def asyncWord (grammar : Grammar) : Production Unit := do
  let start ← here
  let mark ← height
  let after := peekAfterWord (← look)
  if wordOf after = "function" then function grammar false
  else if wordLength after ≠ 0 && "=>".toList.isPrefixOf (peekAfterWord after) then
    let _ ← take 5
    gap
    nameArrow grammar mark start
  else if after.head? = some '(' then asyncGroup grammar mark start
  else if "=>".toList.isPrefixOf after then nameArrow grammar mark start
  else wordLeaf .identifier

/-- What the word `import` starts inside an expression. -/
def importWord : Production Unit := do
  match peekAfterWord (← look) with
  | '.' :: _ =>
    closed .metaProperty do
      keyword "import"
      symbol "."
      gap
      keyword "meta"
  | _ => wordLeaf .importCall

def wordOperand (grammar : Grammar) (word : String) : Production Unit := do
  match word with
  | "function" => function grammar false
  | "async" => asyncWord grammar
  | "class" => classNode grammar .classExpression
  | "new" => grammar .construct
  | "import" => importWord
  | "this" => wordLeaf .thisValue
  | "super" => wordLeaf .superValue
  | "null" => wordLeaf .nullLiteral
  | "true" => wordLeaf .trueLiteral
  | "false" => wordLeaf .falseLiteral
  | word =>
    if "=>".toList.isPrefixOf (peekAfterWord (← look)) then
      nameArrow grammar (← height) (← here)
    else wordLeaf (if word = "undefined" then .undefinedValue else .identifier)

def primary (grammar : Grammar) : Production Unit := do
  match ← look with
  | '"' :: _ => string '"'
  | '\'' :: _ => string '\''
  | '\x60' :: _ => template grammar
  | '/' :: _ => regex
  | '(' :: _ => group grammar
  | '[' :: _ => array grammar
  | '\x7b' :: _ => object grammar
  | '<' :: _ => grammar .markup
  | '@' :: _ => classNode grammar .classExpression
  | '#' :: _ => memberName
  | cs =>
    if numberLength cs ≠ 0 then number
    else match wordOf cs with
      | "" => stop
      | word => wordOperand grammar word

def subscript (grammar : Grammar) (mark : Nat) (start : Position) : Production Unit := do
  change mark fun n => { n with role := some .object }
  expect "["
  part .index (grammar (.expressions true))
  symbol "]"
  gatherAll .subscriptExpression mark start

def tagged (grammar : Grammar) (mark : Nat) (start : Position) : Production Unit := do
  change mark fun n => { n with role := some .function }
  withRole .arguments (template grammar)
  gather .callExpression mark start

/-- One member, call or index after the operand at a mark. -/
def chainStep (grammar : Grammar) (calls : Bool) (mark : Nat) (start : Position) :
    Production Bool := do
  gap
  match ← look with
  | '.' :: rest =>
    if rest.head?.any Char.isDigit then return false
    let _ ← take 1
    member mark start
    return true
  | '?' :: '.' :: rest =>
    if rest.head?.any Char.isDigit then return false
    leaf .optionalChain 2
    gap
    match ← look with
    | '(' :: _ => call grammar mark start
    | '[' :: _ => subscript grammar mark start
    | _ => member mark start
    return true
  | '[' :: _ =>
    subscript grammar mark start
    return true
  | '(' :: _ =>
    if calls then
      call grammar mark start
      return true
    else return false
  | '\x60' :: _ =>
    tagged grammar mark start
    return true
  | _ => return false

/-- What follows the word `new`: a constructor and perhaps arguments. -/
def construct (grammar : Grammar) : Production Unit := do
  let start ← here
  let mark ← height
  keyword "new"
  openGap
  match ← look with
  | '.' :: _ =>
    let _ ← take 1
    gap
    keyword "target"
    gatherAll .metaProperty mark start
  | cs =>
    let innerStart ← here
    let inner ← height
    withRole .constructor do
      if wordOf cs = "new" then grammar .construct
      else
        primary grammar
        loop (chainStep grammar false inner innerStart)
    gap
    if (← look).head? = some '(' then withRole .arguments (arguments grammar)
    gather .newExpression mark start

def assignmentOperators : List String :=
  [">>>=", "<<=", ">>=", "**=", "&&=", "||=", "??=", "+=", "-=", "*=", "/=", "%=", "^=", "&=", "|="]

def assignmentOperator? (cs : List Char) : Option String :=
  assignmentOperators.find? fun op => op.toList.isPrefixOf cs

def assigns : List Char → Bool
  | '=' :: '=' :: _ => false
  | '=' :: '>' :: _ => false
  | '=' :: _ => true
  | _ => false

def assignment (grammar : Grammar) (allowIn : Bool) (mark : Nat) (start : Position) :
    Production Unit := do
  let cs ← look
  let target ← nodeAt? mark
  if assigns cs then
    if target.any isTarget then
      change mark fun n => { toTarget n with role := some .left }
      let _ ← take 1
      part .right (grammar (.expression allowIn))
      gather .assignmentExpression mark start
  else match assignmentOperator? cs with
    | some op =>
      if target.any isPlainTarget then
        change mark fun n => { n with role := some .left }
        tokenLeaf .operator op.length
        part .right (grammar (.expression allowIn))
        gather .augmentedAssignmentExpression mark start
    | none => pure ()

def operand (grammar : Grammar) (allowIn : Bool) : Production Unit := do
  let start ← here
  let mark ← height
  primary grammar
  loop (chainStep grammar true mark start)
  let s ← get
  let steps := "++".toList.isPrefixOf s.rest || "--".toList.isPrefixOf s.rest
  if steps && !s.newline then
    change mark fun n => { n with role := some .argument }
    tokenLeaf .operator 2
    gatherAll .updateExpression mark start
  else assignment grammar allowIn mark start

def canStart (cs : List Char) : Bool :=
  match cs with
  | [] => false
  | c :: _ => !";),]\x7d:".toList.contains c

/-- The word `yield` and its operand, which may be left out. -/
def yieldWord (grammar : Grammar) (allowIn : Bool) : Production Unit :=
  node .yieldExpression do
    keyword "yield"
    gap
    if ← accept "*" then
      openGap
      grammar (.expression allowIn)
    else if !(← endsHere true) && canStart (← look) then
      openGap
      grammar (.expression allowIn)

def leading (grammar : Grammar) (allowIn : Bool) (kind : Kind) (length : Nat) : Production Unit :=
  node kind do
    tokenLeaf .operator length
    part .argument (grammar (.unary allowIn))

def unary (grammar : Grammar) (allowIn : Bool) : Production Unit := do
  match ← look with
  | '+' :: '+' :: _ => leading grammar allowIn .updateExpression 2
  | '-' :: '-' :: _ => leading grammar allowIn .updateExpression 2
  | '!' :: _ | '~' :: _ | '+' :: _ | '-' :: _ => leading grammar allowIn .unaryExpression 1
  | cs =>
    match wordOf cs with
    | "typeof" | "delete" => leading grammar allowIn .unaryExpression 6
    | "void" => leading grammar allowIn .unaryExpression 4
    | "await" =>
      node .awaitExpression do
        keyword "await"
        openGap
        grammar (.unary allowIn)
    | "yield" => yieldWord grammar allowIn
    | _ => operand grammar allowIn

/-- A binary operator: its text, its level, and whether it groups to the right. -/
structure BinaryToken where
  text : String
  level : Nat
  right : Bool := false

/-- The binary operators that are not words, longer ones before those they start with. -/
def binaryTokens : List BinaryToken :=
  [⟨">>>", 9, false⟩, ⟨"===", 7, false⟩, ⟨"!==", 7, false⟩, ⟨"??", 1, false⟩, ⟨"||", 2, false⟩,
    ⟨"&&", 3, false⟩, ⟨"==", 7, false⟩, ⟨"!=", 7, false⟩, ⟨"<=", 8, false⟩, ⟨">=", 8, false⟩,
    ⟨">>", 9, false⟩, ⟨"<<", 9, false⟩, ⟨"**", 12, true⟩, ⟨"|", 4, false⟩, ⟨"^", 5, false⟩,
    ⟨"&", 6, false⟩, ⟨"<", 8, false⟩, ⟨">", 8, false⟩, ⟨"+", 10, false⟩, ⟨"-", 10, false⟩,
    ⟨"*", 11, false⟩, ⟨"/", 11, false⟩, ⟨"%", 11, false⟩]

def binaryToken? (allowIn : Bool) (cs : List Char) : Option BinaryToken :=
  if (assignmentOperator? cs).isSome || "++".toList.isPrefixOf cs || "--".toList.isPrefixOf cs then
    none
  else match wordOf cs with
    | "" => binaryTokens.find? fun t => t.text.toList.isPrefixOf cs
    | "instanceof" => some ⟨"instanceof", 8, false⟩
    | "in" => if allowIn then some ⟨"in", 8, false⟩ else none
    | _ => none

/-- An operator of at least some level after the operand at a mark, and its right operand. An
operator after which no operand can start is an error that stands alone. -/
def binaryStep (grammar : Grammar) (allowIn : Bool) (level mark : Nat) (start : Position) :
    Production Bool := do
  gap
  let cs ← look
  match binaryToken? allowIn cs with
  | none => return false
  | some token =>
    if token.level < level then return false
    let rest := cs.drop token.text.length
    if canStart (afterGap (rest.length + 1) rest) then
      change mark fun n => { n with role := some .left }
      tokenLeaf .operator token.text.length
      part .right (grammar (.binary allowIn (if token.right then token.level else token.level + 1)))
      gather .binaryExpression mark start
    else
      let place ← here
      let _ ← take token.text.length
      push { kind := .error, start := place }
    return true

def binary (grammar : Grammar) (allowIn : Bool) (level : Nat) : Production Unit := do
  let start ← here
  let mark ← height
  grammar (.unary allowIn)
  loop (binaryStep grammar allowIn level mark start)

def chooses : List Char → Bool
  | '?' :: '?' :: _ => false
  | '?' :: '.' :: rest => rest.head?.any Char.isDigit
  | '?' :: _ => true
  | _ => false

def expression (grammar : Grammar) (allowIn : Bool) : Production Unit := do
  let start ← here
  let mark ← height
  grammar (.binary allowIn 1)
  gap
  if chooses (← look) then
    change mark fun n => { n with role := some .condition }
    let _ ← take 1
    part .consequence (grammar (.expression true))
    symbol ":"
    part .alternative (grammar (.expression allowIn))
    gather .ternaryExpression mark start

/-- Expressions between commas; more than one are a sequence. -/
def expressions (grammar : Grammar) (allowIn : Bool) : Production Unit := do
  let start ← here
  let mark ← height
  grammar (.expression allowIn)
  if ← isNext "," then
    loop do
      gap
      if ← accept "," then
        openGap
        grammar (.expression allowIn)
        return true
      else return false
    gather .sequenceExpression mark start

end AddonAudit.Script.Reader
