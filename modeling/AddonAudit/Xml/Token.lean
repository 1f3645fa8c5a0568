import AddonAudit.Number.Text
import AddonAudit.Xml.Error

/-!
# Tokens of XML documents

A document is read as a sequence of tokens: tags, attributes and pieces of text. Comments and
instructions are checked and left out. Reading stops at the first error; the tokens before it are
kept, because what is wrong with them comes first.
-/

namespace AddonAudit.Xml

def inSome (ranges : List (Nat × Nat)) (n : Nat) : Bool :=
  ranges.any fun (first, last) => first ≤ n && n ≤ last

/-- Ranges of characters outside of ASCII that start names. -/
def nameStartRanges : List (Nat × Nat) := [
  (0xC0, 0xD6), (0xD8, 0xF6), (0xF8, 0x2FF), (0x370, 0x37D), (0x37F, 0x1FFF), (0x200C, 0x200D),
  (0x2070, 0x218F), (0x2C00, 0x2FEF), (0x3001, 0xD7FF), (0xF900, 0xFDCF), (0xFDF0, 0xFFFD),
  (0x10000, 0xEFFFF)]

def isNameStart (c : Char) : Bool :=
  if c.toNat ≤ 128 then c.isAlpha || c = ':' || c = '_' else inSome nameStartRanges c.toNat

def isName (c : Char) : Bool :=
  if c.toNat ≤ 128 then c.isAlphanum || c = ':' || c = '_' || c = '-' || c = '.'
  else c.toNat = 0xB7 || inSome [(0x300, 0x36F), (0x203F, 0x2040)] c.toNat ||
    inSome nameStartRanges c.toNat

def isAllowed (c : Char) : Bool :=
  if c.toNat < 0x20 then c = '\t' || c = '\n' || c = '\r' else c.toNat ≠ 0xFFFE && c.toNat ≠ 0xFFFF

def isSpace (c : Char) : Bool :=
  c = ' ' || c = '\t' || c = '\n' || c = '\r'

structure Input where
  rest : List Char
  place : Place := {}
  deriving Repr

structure QName where
  space : String
  name : String
  deriving DecidableEq, Repr, Inhabited

def QName.text (q : QName) : String :=
  if q.space.isEmpty then q.name else q.space ++ ":" ++ q.name

inductive Token where
  | start (name : QName) (place : Place)
  /-- An attribute with its value as it is written. -/
  | item (name : QName) (value : Input) (place : Place)
  /-- The end of a tag whose element has content. -/
  | enter
  /-- The end of a tag whose element is empty. -/
  | empty
  | close (name : QName) (place : Place)
  | text (content : Input)
  /-- Text that stands for itself. -/
  | plain (content : List Char)
  deriving Repr

abbrev Scan := StateT Input (Except Error)

namespace Scan

def look : Scan (List Char) := do
  return (← get).rest

def place : Scan Place := do
  return (← get).place

def skipped : Nat → Input → Input
  | n + 1, ⟨c :: rest, p⟩ => skipped n ⟨rest, p.after c⟩
  | _, input => input

def take (n : Nat) : Scan (List Char) := do
  let input ← get
  set (skipped n input)
  return input.rest.take n

def takeWhile (p : Char → Bool) : Scan (List Char) := do
  take ((← look).takeWhile p).length

def spaces : Scan Unit := do
  let _ ← takeWhile isSpace

def isNext (s : String) : Scan Bool := do
  return s.toList.isPrefixOf (← look)

def peek : Scan Char := do
  match ← look with
  | c :: _ => return c
  | [] => throw .endOfInput

def expect (c : Char) : Scan Unit := do
  let found ← peek
  if found ≠ c then throw (.expectedChar c found (← place))
  let _ ← take 1

def expectText (s : String) : Scan Unit := do
  if !(← isNext s) then throw (.expectedText s (← place))
  let _ ← take s.length

/-- The number of characters before the place where a test of what is left holds; all of them have
to be allowed. -/
def countUntil (stop : List Char → Bool) : List Char → Nat × Bool
  | [] => (0, true)
  | c :: rest =>
    if !isAllowed c then (0, false)
    else if stop (c :: rest) then (0, true)
    else
      let (n, fine) := countUntil stop rest
      (n + 1, fine)

def takeUntil (stop : List Char → Bool) : Scan (List Char) := do
  let (n, fine) := countUntil stop (← look)
  let taken ← take n
  if fine then return taken
  throw (.forbiddenChar (← peek) (← place))

def takeUntilText (s : String) : Scan (List Char) :=
  takeUntil (s.toList.isPrefixOf ·)

def name : Scan (List Char) := do
  let p ← place
  match ← look with
  | c :: _ =>
    if isNameStart c then takeWhile isName else throw (.badName p)
  | [] => throw (.badName p)

def qname : Scan QName := do
  let p ← place
  let cs ← look
  let isPart (c : Char) := isName c && c ≠ ':'
  let first := cs.takeWhile isPart
  let (space, name) ← match cs.drop first.length with
    | ':' :: rest =>
      let second := rest.takeWhile isPart
      if (rest.drop second.length).head? = some ':' then throw (.badName p)
      let _ ← take (first.length + 1 + second.length)
      pure (first, second)
    | _ =>
      let _ ← take first.length
      pure ([], first)
  if space.head?.any (!isNameStart ·) then throw (.badName p)
  match name with
  | [] => throw (.badName p)
  | c :: _ => if !isNameStart c then throw (.badName p)
  return ⟨String.ofList space, String.ofList name⟩

def item : Scan Token := do
  let p ← place
  let name ← qname
  spaces
  expect '='
  spaces
  let quote ← peek
  if quote ≠ '\'' && quote ≠ '"' then throw (.expectedKind "a quote" quote (← place))
  let _ ← take 1
  let start ← place
  let value ← takeUntil fun cs => cs.head? = some quote || cs.head? = some '<'
  expect quote
  return .item name ⟨value, start⟩ p

def contains (part : String) : List Char → Bool
  | [] => part.isEmpty
  | c :: rest => part.toList.isPrefixOf (c :: rest) || contains part rest

def comment : Scan Unit := do
  let p ← place
  let _ ← take 4
  let text ← takeUntilText "-->"
  expectText "-->"
  if contains "--" text || text.getLast? = some '-' then throw (.badComment p)

def instruction : Scan Unit := do
  if ← isNext "<?xml " then throw (.misplacedDeclaration (← place))
  let _ ← take 2
  let _ ← name
  spaces
  let _ ← takeUntilText "?>"
  expectText "?>"

def partSpaces : Scan Unit := do
  match ← look with
  | [] => pure ()
  | c :: _ =>
    if isSpace c then spaces
    else if !(← isNext "?>") then throw (.expectedKind "a whitespace" c (← place))

def declarationPart (s : String) : Scan Unit := do
  if ← isNext s then
    let _ ← item
    partSpaces

def declaration : Scan Unit := do
  let _ ← take 5
  partSpaces
  declarationPart "version"
  declarationPart "encoding"
  if ← isNext "standalone" then
    let _ ← item
  spaces
  expectText "?>"

def plainSection : Scan Token := do
  let _ ← take 9
  let text ← takeUntilText "]]>"
  expectText "]]>"
  return .plain text

def text : Scan Token := do
  let start ← place
  let content ← takeUntil fun cs => cs.head? = some '<'
  if contains "]]>" content then throw (.sectionEnd (← place))
  return .text ⟨content, start⟩

def close : Scan Token := do
  let p ← place
  let _ ← take 2
  let name ← qname
  spaces
  expect '>'
  return .close name p

def start : Scan Token := do
  let p ← place
  let _ ← take 1
  let name ← qname
  return .start name p

/-- What is being read: what is around the root element, or the inside of a tag, or the content of
an element. Tags and content know how many elements are open. -/
inductive Mode where
  | outside (isRootSeen : Bool)
  | tag (depth : Nat)
  | content (depth : Nat)
  deriving DecidableEq, Repr

/-- What comes after an element, if a number of elements are still open. -/
def Mode.after : Nat → Mode
  | 0 => .outside true
  | depth + 1 => .content (depth + 1)

def outside (isRootSeen : Bool) : Scan (Option (List Token × Mode)) := do
  spaces
  if ← isNext "<!--" then
    comment
    return some ([], .outside isRootSeen)
  if ← isNext "<?" then
    instruction
    return some ([], .outside isRootSeen)
  match ← look with
  | [] => return none
  | c :: _ =>
    if isRootSeen then throw (.unknownToken (← place))
    if ← isNext "<!DOCTYPE" then throw .doctype
    if c ≠ '<' then throw (.unknownToken (← place))
    let t ← start
    return some ([t], .tag 0)

def tag (depth : Nat) : Scan (Option (List Token × Mode)) := do
  match ← look with
  | [] => return none
  | first :: _ =>
    spaces
    match ← peek with
    | '/' =>
      let _ ← take 1
      expect '>'
      return some ([.empty], .after depth)
    | '>' =>
      let _ ← take 1
      return some ([.enter], .content (depth + 1))
    | c =>
      if !isSpace first then throw (.expectedKind "a whitespace" c (← place))
      let t ← item
      return some ([t], .tag depth)

def content (depth : Nat) : Scan (Option (List Token × Mode)) := do
  match ← look with
  | [] => return none
  | '<' :: '!' :: _ =>
    if ← isNext "<!--" then
      comment
      return some ([], .content depth)
    if ← isNext "<![CDATA[" then return some ([← plainSection], .content depth)
    throw (.unknownToken (← place))
  | '<' :: '?' :: _ =>
    instruction
    return some ([], .content depth)
  | '<' :: '/' :: _ => return some ([← close], .after (depth - 1))
  | '<' :: _ :: _ => return some ([← start], .tag depth)
  | ['<'] => throw (.unknownToken (← place))
  | _ => return some ([← text], .content depth)

def step : Mode → Scan (Option (List Token × Mode))
  | .outside isRootSeen => outside isRootSeen
  | .tag depth => tag depth
  | .content depth => content depth

/-- The tokens from a place on, and the error that ends them, if there is one. Every step takes
characters, so their number bounds the steps. -/
def tokensFrom : Nat → Mode → Input → List Token × Option Error
  | 0, _, _ => ([], none)
  | fuel + 1, mode, input =>
    match (step mode).run input with
    | .error e => ([], some e)
    | .ok (none, _) => ([], none)
    | .ok (some (tokens, mode), input) =>
      let (rest, e) := tokensFrom fuel mode input
      (tokens ++ rest, e)

/-- What stands before a document: a mark of byte order and the declaration. -/
def front : Scan Unit := do
  if (← look).head? = some '\ufeff' then
    let _ ← take 1
  if ← isNext "<?xml " then declaration

end Scan

def tokensOf (source : List Char) : List Token × Option Error :=
  match Scan.front.run ⟨source, {}⟩ with
  | .error e => ([], some e)
  | .ok (_, input) => Scan.tokensFrom (input.rest.length + 1) (.outside false) input

end AddonAudit.Xml
