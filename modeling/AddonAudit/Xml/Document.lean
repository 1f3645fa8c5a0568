import AddonAudit.Script.Escape
import AddonAudit.Xml.Token

/-!
# XML documents

A document is a tree of elements and texts. Names of elements and attributes are resolved to their
namespaces, and references in texts and values are replaced by what they stand for.
-/

namespace AddonAudit.Xml

structure Attribute where
  space : Option String
  name : String
  value : String
  deriving DecidableEq, Repr

/-- What an element has inside. -/
inductive Content where
  | text (s : String)
  | element (space : Option String) (name : String) (line : Nat) (attributes : List Attribute)
    (children : List Content)
  deriving Repr

def charReference? (base : Nat) (digits : List Char) : Option Char :=
  (Number.natural? base (Number.twoTo 32) digits).bind fun n =>
    let c := (Script.charOf? n).getD '\ufffd'
    if isAllowed c then some c else none

def namedChar? : String → Option Char
  | "quot" => some '"'
  | "amp" => some '&'
  | "apos" => some '\''
  | "lt" => some '<'
  | "gt" => some '>'
  | _ => none

def reference : Scan Char := do
  let p ← Scan.place
  let malformed := Error.malformedReference p
  let _ ← Scan.take 1
  let found ← match ← Scan.look with
    | '#' :: 'x' :: _ => do
      let _ ← Scan.take 2
      let digits ← Scan.takeWhile fun c =>
        c.isDigit || ('a' ≤ c && c ≤ 'f') || ('A' ≤ c && c ≤ 'F')
      pure ((charReference? 16 digits).map Sum.inl)
    | '#' :: _ => do
      let _ ← Scan.take 1
      let digits ← Scan.takeWhile Char.isDigit
      pure ((charReference? 10 digits).map Sum.inl)
    | c :: _ => do
      if isNameStart c then
        let name := String.ofList (← Scan.takeWhile isName)
        pure (some (match namedChar? name with
          | some c => Sum.inl c
          | none => Sum.inr name))
      else pure none
    | [] => pure none
  match found, ← Scan.look with
  | some (.inl c), ';' :: _ =>
    let _ ← Scan.take 1
    return c
  | some (.inr name), ';' :: _ => throw (.unknownEntity name p)
  | _, _ => throw malformed

/-- A character of a text, and whether it came from a reference. -/
structure Piece where
  char : Char
  isReference : Bool
  deriving DecidableEq, Repr

/-- The pieces of a written text. Every turn takes a character, so their number bounds the turns. -/
def piecesFrom : Nat → Input → Except Error (List Piece)
  | 0, _ => .ok []
  | fuel + 1, input =>
    match input.rest with
    | [] => .ok []
    | '&' :: _ => do
      let (c, input) ← reference.run input
      return ⟨c, true⟩ :: (← piecesFrom fuel input)
    | c :: rest => do
      return ⟨c, false⟩ :: (← piecesFrom fuel ⟨rest, input.place.after c⟩)

def piecesOf (input : Input) : Except Error (List Piece) :=
  piecesFrom (input.rest.length + 1) input

/-- The value that the pieces of an attribute give: white space becomes blanks, and the two
characters that end a line become one. -/
def valueOf : List Piece → List Char
  | [] => []
  | ⟨c, true⟩ :: rest => c :: valueOf rest
  | ⟨'\r', false⟩ :: rest =>
    match rest with
    | ⟨'\n', false⟩ :: _ => valueOf rest
    | _ => ' ' :: valueOf rest
  | ⟨'\n', false⟩ :: rest => ' ' :: valueOf rest
  | ⟨'\t', false⟩ :: rest => ' ' :: valueOf rest
  | ⟨c, false⟩ :: rest => c :: valueOf rest

/-- Add a character to a text that is kept in reverse, so that every end of a line becomes one
character. -/
def addChar (text : List Char) (c : Char) (isLast : Bool) : List Char :=
  match text with
  | '\r' :: before =>
    if isLast && c = '\r' then '\n' :: '\n' :: before
    else if c ≠ '\n' then c :: '\n' :: before
    else '\n' :: before
  | text => if isLast && c = '\r' then '\n' :: text else c :: text

/-- The text that pieces give, in reverse. A character from a reference and the one right after it
are taken as they are. -/
def textFrom (text : List Char) (asIs : Bool) : List Piece → List Char
  | [] => text
  | ⟨c, true⟩ :: rest => textFrom (c :: text) true rest
  | ⟨c, false⟩ :: rest =>
    if asIs then textFrom (c :: text) false rest
    else textFrom (addChar text c rest.isEmpty) false rest

def textOf (pieces : List Piece) : String :=
  String.ofList (textFrom [] false pieces).reverse

/-- The namespaces in force, by their short names; the default one has none. -/
abbrev Namespaces := List (Option String × String)

/-- The namespace of the attributes that start with `xml`. -/
def xmlUri : String := "http://www.w3.org/XML/1998/namespace"

def xmlnsUri : String := "http://www.w3.org/2000/xmlns/"

structure OpenTag where
  name : QName
  place : Place
  /-- The namespaces that the tag declares, in order. -/
  declared : Namespaces := []
  /-- The other attributes, in order. -/
  items : List (QName × String × Place) := []

/-- An element whose content is being read. -/
structure Frame where
  name : QName
  space : Option String
  line : Nat
  attributes : List Attribute
  namespaces : Namespaces
  /-- The content so far, in reverse. -/
  children : List Content := []

structure Builder where
  tag : Option OpenTag := none
  /-- The open elements, innermost first. -/
  frames : List Frame := []
  root : Option Content := none

namespace Builder

/-- Add content to the innermost open element; outside of all elements it is the root. -/
def add (c : Content) (b : Builder) : Builder :=
  match b.frames with
  | [] => { b with root := some c }
  | frame :: rest => { b with frames := { frame with children := c :: frame.children } :: rest }

def declareNamespace (t : OpenTag) (name : String) (uri : String) (p : Place) :
    Except Error OpenTag := do
  if uri = xmlnsUri then throw (.misusedXmlnsUri p)
  if name = "xml" && uri ≠ xmlUri then throw (.wrongXmlUri p)
  if name ≠ "xml" && uri = xmlUri then throw (.misusedXmlUri p)
  if t.declared.any (·.1 = some name) then throw (.repeatedNamespace name p)
  return if uri = xmlUri then t else { t with declared := t.declared ++ [(some name, uri)] }

def declareDefault (t : OpenTag) (uri : String) (p : Place) : Except Error OpenTag := do
  if uri = xmlUri then throw (.misusedXmlUri p)
  if uri = xmlnsUri then throw (.misusedXmlnsUri p)
  return { t with declared := t.declared ++ [(none, uri)] }

def addItem (t : OpenTag) (name : QName) (value : Input) (p : Place) : Except Error OpenTag := do
  let value := String.ofList (valueOf (← piecesOf value))
  if name.space = "xmlns" then declareNamespace t name.name value p
  else if name.name = "xmlns" then declareDefault t value p
  else return { t with items := t.items ++ [(name, value, p)] }

/-- The namespaces in force inside a tag: those it declares, then those around it that it does not
replace. -/
def namespacesOf (t : OpenTag) (outer : Namespaces) : Namespaces :=
  t.declared ++ outer.filter fun (name, _) => !t.declared.any (·.1 = name)

def spaceOf (spaces : Namespaces) (short : String) (p : Place) : Except Error (Option String) :=
  let key := if short.isEmpty then none else some short
  match spaces.find? (·.1 = key) with
  | some (_, uri) => .ok (some uri)
  | none => if short.isEmpty then .ok none else .error (.unknownNamespace short p)

/-- Resolve the names of attributes; no two of them may be the same. -/
def resolveItems (spaces : Namespaces) (done : List Attribute) :
    List (QName × String × Place) → Except Error (List Attribute)
  | [] => .ok done
  | (name, value, p) :: rest => do
    let space ← if name.space = "xml" then pure (some xmlUri)
      else if name.space.isEmpty then pure none
      else spaceOf spaces name.space p
    if done.any fun a => a.space = space && a.name = name.name then
      throw (.repeatedAttribute name.name p)
    resolveItems spaces (done ++ [⟨space, name.name, value⟩]) rest

def frameOf (t : OpenTag) (outer : Namespaces) : Except Error Frame := do
  let namespaces := namespacesOf t outer
  let attributes ← resolveItems namespaces [] t.items
  let space ← spaceOf namespaces t.name.space (t.place.after '<')
  return { name := t.name, space, line := t.place.row, attributes, namespaces }

/-- The namespaces in force where the next tag stands. -/
def outer (b : Builder) : Namespaces :=
  match b.frames with
  | frame :: _ => frame.namespaces
  | [] => []

def finished (f : Frame) : Content :=
  .element f.space f.name.name f.line f.attributes f.children.reverse

def step (b : Builder) : Token → Except Error Builder
  | .start name place => do
    if name.space = "xmlns" then throw (.misusedXmlnsTag (place.after '<'))
    return { b with tag := some { name, place } }
  | .item name value place =>
    match b.tag with
    | some t => do
      let t ← addItem t name value place
      return { b with tag := some t }
    | none => .ok b
  | .enter =>
    match b.tag with
    | some t => do
      let frame ← frameOf t b.outer
      return { b with tag := none, frames := frame :: b.frames }
    | none => .ok b
  | .empty =>
    match b.tag with
    | some t => do
      let frame ← frameOf t b.outer
      return { b with tag := none }.add (finished frame)
    | none => .ok b
  | .close name place =>
    match b.frames with
    | frame :: rest =>
      if frame.name = name then .ok ({ b with frames := rest }.add (finished frame))
      else .error (.wrongClosingTag frame.name.text name.text place)
    | [] => .ok b
  | .text content => do
    let pieces ← piecesOf content
    return b.add (.text (textOf pieces))
  | .plain content => .ok (b.add (.text (textOf (content.map fun c => ⟨c, false⟩))))

def steps (b : Builder) : List Token → Except Error Builder
  | [] => .ok b
  | t :: rest => do
    let b ← b.step t
    steps b rest

end Builder

def parse (source : List Char) : Except Error Content := do
  let (tokens, e) := tokensOf source
  let b ← Builder.steps {} tokens
  match e with
  | some e => throw e
  | none =>
    match b.frames, b.root with
    | [], some root => return root
    | [], none => throw .noRoot
    | _ :: _, _ => throw .openRoot

end AddonAudit.Xml
