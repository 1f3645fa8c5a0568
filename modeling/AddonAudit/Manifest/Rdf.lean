import AddonAudit.Text.Blank
import AddonAudit.Xml.Document

/-!
# Statements of a manifest

A manifest is a document of descriptions. It is read as a list of statements, each with a subject, a
predicate and an object. A predicate is the namespace of its name followed by the name. Descriptions
that do not say what they are about get subjects of their own.
-/

namespace AddonAudit.Rdf

def rdfUri : String := "http://www.w3.org/1999/02/22-rdf-syntax-ns#"

def emUri : String := "http://www.mozilla.org/2004/em-rdf#"

def installRoot : String := "urn:mozilla:install-manifest"

def em (name : String) : String :=
  emUri ++ name

inductive Object where
  | literal (s : String)
  /-- The subject of other statements. -/
  | node (s : String)
  deriving DecidableEq, Repr

def Object.text : Object → String
  | .literal s | .node s => s

/-- A statement, with the line where it stands. -/
structure Triple where
  subject : String
  predicate : String
  object : Object
  line : Nat
  deriving DecidableEq, Repr

abbrev Graph := List Triple

namespace Graph

def about (g : Graph) (subject : String) : List Triple :=
  g.filter (·.subject = subject)

def hasSubject (g : Graph) (subject : String) : Bool :=
  g.any (·.subject = subject)

def objects (g : Graph) (subject predicate : String) : List Object :=
  ((g.about subject).filter (·.predicate = predicate)).map (·.object)

def object? (g : Graph) (subject predicate : String) : Option Object :=
  (g.objects subject predicate).head?

/-- The text of the first object of a predicate, without white space around it. -/
def literal? (g : Graph) (subject predicate : String) : Option String :=
  (g.object? subject predicate).map fun o => Text.trim o.text

end Graph

def isDescription : Xml.Content → Bool
  | .element _ name .. => name = "Description"
  | .text _ => false

mutual

def textOf : Xml.Content → String
  | .text s => s
  | .element _ _ _ _ children => textOfAll children

def textOfAll : List Xml.Content → String
  | [] => ""
  | c :: rest => textOf c ++ textOfAll rest

end

/-- What was read so far. -/
structure Reading where
  triples : List Triple := []
  /-- How many subjects were made up. -/
  blanks : Nat := 0

namespace Reading

def push (subject predicate : String) (object : Object) (line : Nat) (r : Reading) : Reading :=
  { r with triples := ⟨subject, predicate, object, line⟩ :: r.triples }

def subjectOf (attributes : List Xml.Attribute) (r : Reading) : String × Reading :=
  let isAbout (a : Xml.Attribute) := a.name = "about" && (a.space = none || a.space = some rdfUri)
  match attributes.find? isAbout with
  | some a => (a.value, r)
  | none => ("_:b" ++ toString (r.blanks + 1), { r with blanks := r.blanks + 1 })

def addAttributes (subject : String) (line : Nat) (attributes : List Xml.Attribute) (r : Reading) :
    Reading :=
  attributes.foldl (fun r a =>
    match a.space with
    | none => r
    | some space =>
      if space = rdfUri then r else r.push subject (space ++ a.name) (.literal a.value) line) r

mutual

def addDescription (subject : String) : Xml.Content → Reading → Reading
  | .text _, r => r
  | .element _ _ line attributes children, r =>
    addProperties subject children (r.addAttributes subject line attributes)

/-- Add the statements that elements inside of a description make. -/
def addProperties (subject : String) : List Xml.Content → Reading → Reading
  | [], r => r
  | .text _ :: rest, r => addProperties subject rest r
  | .element space name line attributes children :: rest, r =>
    let predicate := space.getD "" ++ name
    let r := match attributes.find? (·.name = "resource") with
      | some a => r.push subject predicate (.node a.value) line
      | none =>
        if children.any isDescription then addNested subject predicate line children r
        else r.push subject predicate (.literal (Text.trim (textOfAll children))) line
    addProperties subject rest r

/-- Add a statement for every description in a list, and the statements of those descriptions. -/
def addNested (subject predicate : String) (line : Nat) : List Xml.Content → Reading → Reading
  | [], r => r
  | .text _ :: rest, r => addNested subject predicate line rest r
  | .element space name line' attributes children :: rest, r =>
    if name = "Description" then
      let (object, r) := r.subjectOf attributes
      let r := r.push subject predicate (.node object) line
      let r := addDescription object (.element space name line' attributes children) r
      addNested subject predicate line rest r
    else addNested subject predicate line rest r

end

def addDescriptions : List Xml.Content → Reading → Reading
  | [], r => r
  | c :: rest, r =>
    match c with
    | .element _ name _ attributes _ =>
      if name = "Description" then
        let (subject, r) := r.subjectOf attributes
        addDescriptions rest (addDescription subject c r)
      else addDescriptions rest r
    | .text _ => addDescriptions rest r

end Reading

def Graph.ofRoot : Xml.Content → Graph
  | .text _ => []
  | .element _ _ _ _ children => (Reading.addDescriptions children {}).triples.reverse

def Graph.parse (source : List Char) : Except Xml.Error Graph :=
  (Xml.parse source).map Graph.ofRoot

end AddonAudit.Rdf
