import AddonAudit.Text.Quoted

/-!
# Errors of XML documents
-/

namespace AddonAudit.Xml

/-- A place in a document: lines and characters, both counted from one. -/
structure Place where
  row : Nat := 1
  column : Nat := 1
  deriving DecidableEq, Repr, Inhabited

def Place.after (p : Place) (c : Char) : Place :=
  if c = '\n' then ⟨p.row + 1, 1⟩ else ⟨p.row, p.column + 1⟩

def Place.text (p : Place) : String :=
  toString p.row ++ ":" ++ toString p.column

/-- What a document can lack. -/
inductive Error where
  | wrongXmlUri (p : Place)
  | misusedXmlUri (p : Place)
  | misusedXmlnsUri (p : Place)
  | misusedXmlnsTag (p : Place)
  | repeatedNamespace (name : String) (p : Place)
  | unknownNamespace (name : String) (p : Place)
  | wrongClosingTag (expected found : String) (p : Place)
  | unknownEntity (name : String) (p : Place)
  | malformedReference (p : Place)
  | repeatedAttribute (name : String) (p : Place)
  | noRoot
  | openRoot
  | misplacedDeclaration (p : Place)
  | doctype
  | badName (p : Place)
  | forbiddenChar (c : Char) (p : Place)
  /-- One character was expected and another byte was found. -/
  | expectedChar (expected : Char) (found : Char) (p : Place)
  /-- One of several characters was expected and another byte was found. -/
  | expectedKind (expected : String) (found : Char) (p : Place)
  | expectedText (expected : String) (p : Place)
  | badComment (p : Place)
  | sectionEnd (p : Place)
  | unknownToken (p : Place)
  | endOfInput
  deriving DecidableEq, Repr

def firstByte (c : Char) : Char :=
  match c.toString.toUTF8.toList with
  | b :: _ => Char.ofNat b.toNat
  | [] => c

def Error.message : Error → String
  | .wrongXmlUri p => "'xml' namespace prefix mapped to wrong URI at " ++ p.text
  | .misusedXmlUri p => "the 'xml' namespace URI is used for not 'xml' prefix at " ++ p.text
  | .misusedXmlnsUri p => "the 'xmlns' URI is used at " ++ p.text ++ ", but it must not be declared"
  | .misusedXmlnsTag p => "the 'xmlns' prefix is used at " ++ p.text ++ ", but it must not be"
  | .repeatedNamespace name p => "namespace '" ++ name ++ "' at " ++ p.text ++ " is already defined"
  | .unknownNamespace name p => "an unknown namespace prefix '" ++ name ++ "' at " ++ p.text
  | .wrongClosingTag expected found p =>
    "expected '" ++ expected ++ "' tag, not '" ++ found ++ "' at " ++ p.text
  | .unknownEntity name p => "unknown entity reference '" ++ name ++ "' at " ++ p.text
  | .malformedReference p => "malformed entity reference at " ++ p.text
  | .repeatedAttribute name p => "attribute '" ++ name ++ "' at " ++ p.text ++ " is already defined"
  | .noRoot => "the document does not have a root node"
  | .openRoot => "the root node was opened but never closed"
  | .misplacedDeclaration p => "unexpected XML declaration at " ++ p.text
  | .doctype => "XML with DTD detected"
  | .badName p => "invalid name token at " ++ p.text
  | .forbiddenChar c p =>
    "a non-XML character " ++ Text.quotedChar c ++ " found at " ++ p.text
  | .expectedChar expected found p =>
    "expected '" ++ expected.toString ++ "' not '" ++ (firstByte found).toString ++
      "' at " ++ p.text
  | .expectedKind expected found p =>
    "expected " ++ expected ++ " not '" ++ (firstByte found).toString ++ "' at " ++ p.text
  | .expectedText expected p => "expected '" ++ expected ++ "' at " ++ p.text
  | .badComment p => "comment at " ++ p.text ++ " contains '--'"
  | .sectionEnd p => "']]>' at " ++ p.text ++ " is not allowed inside a character data"
  | .unknownToken p => "unknown token at " ++ p.text
  | .endOfInput => "unexpected end of stream"

end AddonAudit.Xml
