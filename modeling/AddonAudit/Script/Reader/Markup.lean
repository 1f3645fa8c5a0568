import AddonAudit.Script.Reader.Function

/-!
# Markup in scripts

Elements that a script writes as markup: tags with attributes, texts, and expressions in braces.
-/

namespace AddonAudit.Script.Reader

/-- The length of the name of a tag or an attribute; a name may have hyphens. -/
def tagLength (cs : List Char) : Nat :=
  if wordLength cs = 0 then 0 else (cs.takeWhile fun c => inWord c || c = '-').length

/-- The length of a character reference; zero if there is none. -/
def referenceLength (cs : List Char) : Nat :=
  let ending (body : List Char) (before limit : Nat) : Nat :=
    if !body.isEmpty && body.length ≤ limit &&
        (cs.drop (before + body.length)).head? = some ';' then
      before + body.length + 1
    else 0
  match cs with
  | '&' :: '#' :: x :: rest =>
    if x = 'x' || x = 'X' then ending (rest.takeWhile isHex) 3 6
    else ending ((x :: rest).takeWhile Char.isDigit) 2 5
  | '&' :: rest => ending (rest.takeWhile Char.isAlpha) 1 30
  | _ => 0

def plainLength (ends : Char → Bool) : List Char → Nat
  | [] => 0
  | c :: rest =>
    if ends c || referenceLength (c :: rest) ≠ 0 then 0 else plainLength ends rest + 1

def textPiece (kind : Kind) (ends : Char → Bool) : Production Unit := do
  let cs ← look
  match referenceLength cs with
  | 0 =>
    match plainLength ends cs with
    | 0 => stop
    | n => leaf kind n
  | n => leaf .htmlCharacterReference n

def attributeString (quote : Char) : Production Unit :=
  spelled .string do
    let _ ← take 1
    loop do
      match ← look with
      | [] => stop
      | c :: _ =>
        if c = quote then return false
        else
          textPiece .stringFragment (· = quote)
          return true
    expect quote.toString

def embedded (grammar : Grammar) : Production Unit :=
  closed .jsxExpression do
    expect "\x7b"
    openGap
    match ← look with
    | '\x7d' :: _ => pure ()
    | '.' :: '.' :: '.' :: _ => spread grammar
    | _ => grammar (.expressions true)
    symbol "\x7d"

def tagName : Production Unit := do
  let start ← here
  let mark ← height
  match tagLength (← look) with
  | 0 => stop
  | n => leaf .identifier n
  loop do
    match ← look with
    | '.' :: _ =>
      let _ ← take 1
      member mark start
      return true
    | ':' :: rest =>
      match tagLength rest with
      | 0 => stop
      | n =>
        let _ ← take 1
        leaf .identifier n
        gather .jsxNamespaceName mark start
        return true
    | _ => return false

def tagAttribute (grammar : Grammar) : Production Unit := do
  match ← look with
  | '\x7b' :: _ => embedded grammar
  | cs =>
    node .jsxAttribute do
      match tagLength cs with
      | 0 => stop
      | n => leaf .propertyIdentifier n
      gap
      if ← accept "=" then
        gap
        match ← look with
        | '"' :: _ => attributeString '"'
        | '\'' :: _ => attributeString '\''
        | '\x7b' :: _ => embedded grammar
        | '<' :: _ => grammar .markup
        | _ => stop

/-- What stands between an opening and a closing tag, one piece of it. -/
def contentStep (grammar : Grammar) : Production Bool := do
  match ← look with
  | '<' :: '/' :: _ => return false
  | '<' :: _ =>
    grammar .markup
    return true
  | '\x7b' :: _ =>
    embedded grammar
    return true
  | _ =>
    textPiece .jsxText fun c => c = '<' || c = '\x7b' || c = '\x7d' || c = '>'
    return true

def closingTag : Production Unit :=
  closed .jsxClosingElement do
    expect "</"
    gap
    if tagLength (← look) ≠ 0 then withRole .name tagName
    symbol ">"

def tagAttributes (grammar : Grammar) : Production Unit :=
  loop do
    gap
    match ← look with
    | '>' :: _ | '/' :: _ => return false
    | _ =>
      tagAttribute grammar
      return true

def markupElement (grammar : Grammar) : Production Unit := do
  let start ← here
  let mark ← height
  expect "<"
  gap
  if tagLength (← look) ≠ 0 then withRole .name tagName
  tagAttributes grammar
  if ← accept "/" then
    symbol ">"
    gatherAll .jsxSelfClosingElement mark start
  else
    expect ">"
    gatherAll .jsxOpeningElement mark start
    loop (contentStep grammar)
    closingTag
    gatherAll .jsxElement mark start

end AddonAudit.Script.Reader
