import AddonAudit.Script.Reader.Literal

/-!
# Functions, classes and objects

Lists between brackets, the keys of properties, and all that has parameters and a body.
-/

namespace AddonAudit.Script.Reader

/-- One turn of a list: an item and the comma after it, or a comma alone. -/
def listStep (close : String) (item : Production Unit) : Production Bool := do
  openGap
  if close.toList.isPrefixOf (← look) then return false
  if ← accept "," then return true
  item
  gap
  accept ","

def list (close : String) (item : Production Unit) : Production Unit := do
  loop (listStep close item)
  symbol close

def spread (grammar : Grammar) : Production Unit :=
  node .spreadElement do
    expect "..."
    openGap
    grammar (.expression true)

def element (grammar : Grammar) : Production Unit := do
  if "...".toList.isPrefixOf (← look) then spread grammar else grammar (.expression true)

def arguments (grammar : Grammar) : Production Unit :=
  closed .arguments do
    expect "("
    list ")" (element grammar)

def array (grammar : Grammar) : Production Unit :=
  closed .array do
    expect "["
    list "]" (element grammar)

def parameter (grammar : Grammar) : Production Unit := do
  let mark ← height
  element grammar
  targetsFrom mark

def parameters (grammar : Grammar) : Production Unit :=
  closed .formalParameters do
    expect "("
    list ")" (parameter grammar)

def signature (grammar : Grammar) : Production Unit := do
  part .parameters (parameters grammar)
  part .body (grammar .block)

def functionKind (declared generator : Bool) : Kind :=
  match declared, generator with
  | true, true => .generatorFunctionDeclaration
  | true, false => .functionDeclaration
  | false, true => .generatorFunction
  | false, false => .functionExpression

def function (grammar : Grammar) (declared : Bool) : Production Unit := do
  let start ← here
  let mark ← height
  if (← nextWord) = "async" then
    let _ ← take 5
    gap
  keyword "function"
  gap
  let generator ← accept "*"
  gap
  if wordLength (← look) ≠ 0 then part .name (wordLeaf .identifier)
  signature grammar
  gather (functionKind declared generator) mark start

def propertyKey (grammar : Grammar) : Production Unit := do
  match ← look with
  | '"' :: _ => string '"'
  | '\'' :: _ => string '\''
  | '[' :: _ => closed .computedPropertyName do
      expect "["
      openGap
      grammar (.expression true)
      symbol "]"
  | '#' :: rest =>
      if wordLength rest = 0 then stop else leaf .privatePropertyIdentifier (wordLength rest + 1)
  | cs => if numberLength cs ≠ 0 then number else wordLeaf .propertyIdentifier

/-- Whether the word at the front changes the member after it, and is not its name. -/
def isModifier (cs : List Char) : Bool :=
  ["static", "async", "get", "set"].contains (wordOf cs) &&
    match peekAfterWord cs with
    | [] => false
    | c :: _ => !"(,\x7d:=;".toList.contains c

/-- The words, and the star of a generator, before the name of a member. -/
def modifiers : Production Unit := do
  loop do
    if isModifier (← look) then
      let _ ← take (wordLength (← look))
      gap
      return true
    else return false
  if ← accept "*" then openGap

/-- Parameters and body of the method whose name stands at a mark. -/
def method (grammar : Grammar) (name mark : Nat) (start : Position) : Production Unit := do
  change name fun n => { n with role := some .name }
  signature grammar
  gather .methodDefinition mark start

/-- The value of a property. Where it is missing, that is noted after the colon. -/
def pairValue (grammar : Grammar) : Production Unit := do
  let start ← here
  openGap
  match ← look with
  | ',' :: _ | '\x7d' :: _ =>
    push { kind := .identifier, role := some .value, start, missing := true }
  | _ => withRole .value (grammar (.expression true))

def keyed (grammar : Grammar) : Production Unit := do
  let start ← here
  let mark ← height
  modifiers
  let name ← height
  propertyKey grammar
  gap
  match ← look with
  | '(' :: _ => method grammar name mark start
  | _ =>
    expect ":"
    change name fun n => { n with role := some .key }
    pairValue grammar
    gather .pair mark start

/-- A property that is only a name, with a default value. It makes sense in a target. -/
def shorthandDefault (grammar : Grammar) : Production Unit :=
  node .objectAssignmentPattern do
    withRole .left (wordLeaf .shorthandPropertyIdentifierPattern)
    symbol "="
    part .right (grammar (.expression true))

def objectEntry (grammar : Grammar) : Production Unit := do
  let cs ← look
  if "...".toList.isPrefixOf cs then spread grammar
  else if wordLength cs = 0 then keyed grammar
  else match peekAfterWord cs with
    | [] | ',' :: _ | '\x7d' :: _ => wordLeaf .shorthandPropertyIdentifier
    | '=' :: _ => shorthandDefault grammar
    | _ => keyed grammar

def object (grammar : Grammar) : Production Unit :=
  closed .object do
    expect "\x7b"
    list "\x7d" (objectEntry grammar)

def memberName : Production Unit := do
  match ← look with
  | '#' :: rest =>
      if wordLength rest = 0 then stop else leaf .privatePropertyIdentifier (wordLength rest + 1)
  | _ => wordLeaf .propertyIdentifier

def member (mark : Nat) (start : Position) : Production Unit := do
  change mark fun n => { n with role := some .object }
  gap
  withRole .property memberName
  gather .memberExpression mark start

def call (grammar : Grammar) (mark : Nat) (start : Position) : Production Unit := do
  change mark fun n => { n with role := some .function }
  withRole .arguments (arguments grammar)
  gather .callExpression mark start

/-- A decorator: a name, its members, and perhaps a call. -/
def decorator (grammar : Grammar) : Production Unit :=
  node .decorator do
    expect "@"
    gap
    let start ← here
    let mark ← height
    wordLeaf .identifier
    loop do
      match ← look with
      | '.' :: _ =>
        let _ ← take 1
        member mark start
        return true
      | '(' :: _ =>
        call grammar mark start
        return false
      | _ => return false

def decorators (grammar : Grammar) : Production Unit :=
  loop do
    match ← look with
    | '@' :: _ =>
      decorator grammar
      openGap
      return true
    | _ => return false

def field (grammar : Grammar) (name mark : Nat) (start : Position) : Production Unit := do
  change name fun n => { n with role := some .property }
  gap
  let initialized ← accept "="
  if initialized then part .value (grammar (.expression true))
  gather .fieldDefinition mark start
  semicolon (!initialized)

def staticBlock (grammar : Grammar) : Production Unit :=
  node .classStaticBlock do
    keyword "static"
    part .body (grammar .block)

def classMember (grammar : Grammar) : Production Unit := do
  let start ← here
  let mark ← height
  decorators grammar
  let cs ← look
  if wordOf cs = "static" && (peekAfterWord cs).head? = some '\x7b' then staticBlock grammar
  else
    modifiers
    let name ← height
    propertyKey grammar
    gap
    match ← look with
    | '(' :: _ => method grammar name mark start
    | _ => field grammar name mark start

def classBody (grammar : Grammar) : Production Unit :=
  closed .classBody do
    expect "\x7b"
    loop do
      openGap
      match ← look with
      | '\x7d' :: _ => return false
      | ';' :: _ =>
        let _ ← take 1
        return true
      | _ =>
        classMember grammar
        return true
    expect "\x7d"

def classNode (grammar : Grammar) (kind : Kind) : Production Unit :=
  node kind do
    decorators grammar
    keyword "class"
    gap
    let word ← nextWord
    if word ≠ "" && word ≠ "extends" then part .name (wordLeaf .identifier)
    gap
    if (← nextWord) = "extends" then
      node .classHeritage do
        keyword "extends"
        openGap
        grammar (.expression true)
    part .body (classBody grammar)

end AddonAudit.Script.Reader
