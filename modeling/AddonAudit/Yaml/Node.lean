/-!
# YAML values

The values of a YAML document: texts, lists and maps. A text knows whether it stood there without
quotes, because only such a text can also be a number or a truth value.
-/

namespace AddonAudit.Yaml

/-- A place in a document: lines and characters, both counted from zero. -/
structure Mark where
  row : Nat := 0
  column : Nat := 0
  deriving DecidableEq, Repr, Inhabited

def Mark.after (m : Mark) (c : Char) : Mark :=
  if c = '\n' then ⟨m.row + 1, 0⟩ else ⟨m.row, m.column + 1⟩

def Mark.text (m : Mark) : String :=
  "line " ++ toString (m.row + 1) ++ " column " ++ toString (m.column + 1)

/-- A value and the place where it starts. -/
inductive Node where
  | scalar (text : String) (isPlain : Bool) (mark : Mark)
  | list (items : List Node) (mark : Mark)
  | map (entries : List (Node × Node)) (mark : Mark)
  deriving Repr, Inhabited

def Node.mark : Node → Mark
  | .scalar _ _ m | .list _ m | .map _ m => m

/-- What keeps a document from being read. -/
inductive Error where
  | badToken (m : Mark)
  | misplacedValue (m : Mark)
  | misplacedItem (m : Mark)
  | missingColon (m start : Mark)
  | missingKey (m start : Mark)
  | missingItem (m start : Mark)
  | missingContent (m start : Mark)
  | openList (m start : Mark)
  | openMap (m start : Mark)
  | openQuote (m start : Mark)
  | badEscape (m start : Mark)
  | extraContent (m : Mark)
  | manyDocuments
  deriving DecidableEq, Repr

/-- A problem at a place, while something was read that started at another place. -/
def Error.during (problem : String) (m : Mark) (activity : String) (start : Mark) : String :=
  let found := if start = m || start = {} then "" else " at " ++ start.text
  problem ++ " at " ++ m.text ++ ", " ++ activity ++ found

def Error.message : Error → String
  | .badToken m =>
    during "found character that cannot start any token" m "while scanning for the next token" m
  | .misplacedValue m => "mapping values are not allowed in this context at " ++ m.text
  | .misplacedItem m => "block sequence entries are not allowed in this context at " ++ m.text
  | .missingColon m start =>
    during "could not find expected ':'" m "while scanning a simple key" start
  | .missingKey m start =>
    during "did not find expected key" m "while parsing a block mapping" start
  | .missingItem m start =>
    during "did not find expected '-' indicator" m "while parsing a block collection" start
  | .missingContent m start =>
    during "did not find expected node content" m "while parsing a flow node" start
  | .openList m start =>
    during "did not find expected ',' or ']'" m "while parsing a flow sequence" start
  | .openMap m start =>
    during "did not find expected ',' or '\x7d'" m "while parsing a flow mapping" start
  | .openQuote m start =>
    during "found unexpected end of stream" m "while scanning a quoted scalar" start
  | .badEscape m start =>
    during "found unknown escape character" m "while parsing a quoted scalar" start
  | .extraContent m => "did not find expected <document start> at " ++ m.text
  | .manyDocuments => "deserializing from YAML containing more than one document is not supported"

end AddonAudit.Yaml
