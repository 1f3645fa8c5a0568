import AddonAudit.Check.Battery
import AddonAudit.Script.Engine.Target
import AddonAudit.Script.Escape

/-!
# Literals

The values of names, strings, templates, objects and arrays.
-/

namespace AddonAudit.Script.Engine

def identifierValue (n : Node) : Engine Value :=
  match n.text with
  | "undefined" => return .undefined
  | "NaN" => return .number Number.nan
  | "Infinity" => return .number Number.infinity
  | name => seekVariable name n

def escapedText (n : Node) : List Char :=
  decodeEscape n.text.toList

/-- The text of a string from a byte offset on, with its escape sequences replaced. -/
def contentFrom (n : Node) (position : Nat) : List Node → List Char
  | [] => n.slice position (n.stop - 1)
  | c :: rest =>
    if c.kind = .escapeSequence then
      n.slice position c.start.offset ++ escapedText c ++ contentFrom n c.stop rest
    else contentFrom n position rest

def stringContent (n : Node) : String :=
  let start := n.start.offset + 1
  if n.stop - 1 ≤ start then "" else String.ofList (contentFrom n start n.parts)

/-- Report a literal that names a guarded preference. The record may be taken back. -/
def checkPreference (literal : String) (n : Node) : Engine (Option Nat) := do
  match GuardedPreference.find? literal with
  | none => return none
  | some p =>
    let f ← findingAt ["javascript", "preference", "literal_pref"]
      "Potentially unsafe preference branch referenced" n
    record .warning { f with
      description := ["The preference \x60" ++ literal ++ "\x60 is referenced.", p.reason] }

def reportTests (n : Node) : List PatternTest → Engine Unit
  | [] => pure ()
  | t :: rest => do
    let f ← findingAt t.id t.message n
    let _ ← record t.severity (t.decorate f)
    reportTests n rest

def stringValue (n : Node) : Engine Value := do
  let content := stringContent n
  let provisional ← checkPreference content n
  reportTests n (Battery.matching content)
  return { Value.string content with provisional }

/-- What is known of a template while its pieces are read. -/
structure Draft where
  text : List Char := []
  /-- The byte offset behind the last piece that was replaced. -/
  position : Nat
  /-- Whether a piece is not known. -/
  dirty : Bool := false

/-- Go on behind a piece of a template, in whose place a text is put. -/
def Draft.replace (d : Draft) (n piece : Node) (text : List Char) : Draft :=
  { d with text := d.text ++ n.slice d.position piece.start.offset ++ text, position := piece.stop }

def templatePieces (visit : Visit) (n : Node) (d : Draft) : List Node → Engine Draft
  | [] => return d
  | c :: rest => do
    match c.kind with
    | .templateSubstitution =>
      let v ← visit c
      if v.isDirty then templatePieces visit n { d.replace n c [] with dirty := true } rest
      else
        let s := (← heap).toText v
        templatePieces visit n (d.replace n c s.toList) rest
    | .escapeSequence => templatePieces visit n (d.replace n c (escapedText c)) rest
    | _ => templatePieces visit n d rest

def templateValue (visit : Visit) (n : Node) : Engine Value := do
  let start := n.start.offset + 1
  let d ← templatePieces visit n { position := start } n.parts
  let text := d.text ++ n.slice d.position (max (n.stop - 1) start)
  return { Value.string (String.ofList text) with dirty := d.dirty }

def propertyKey (visit : Visit) (key : Node) : Engine String := do
  match key.kind with
  | .string => return stringContent key
  | .number => return Number.toText (Number.ofLiteral key.text)
  | .computedPropertyName =>
    let v ← visit key
    keyName v
  | _ => return key.text

def setProperty (id : ObjectId) (name : String) (v : Value) : Engine Unit :=
  modify (·.setProperty id name v)

def objectPart (visit : Visit) (id : ObjectId) (n : Node) : Engine Unit := do
  match n.kind with
  | .pair =>
    (n.child? .key).forM fun key => do
      let name ← propertyKey visit key
      let v ← valueAs visit n .value .undefined
      setProperty id name v
  | .shorthandPropertyIdentifier =>
    let v ← seekVariable n.text n
    setProperty id n.text v
  | .methodDefinition =>
    let v ← visit n
    (n.child? .name).forM fun key => do
      let name ← propertyKey visit key
      setProperty id name v
  | _ =>
    let _ ← visit n

def objectParts (visit : Visit) (id : ObjectId) : List Node → Engine Unit
  | [] => pure ()
  | n :: rest => do
    objectPart visit id n
    objectParts visit id rest

def objectValue (visit : Visit) (n : Node) : Engine Value := do
  let id ← onHeap Heap.newObject
  objectParts visit id n.parts
  return .object id

/-- The values of nodes, block and line comments apart. -/
def elementValues (visit : Visit) : List Node → Engine Arguments
  | [] => return []
  | n :: rest => do
    if n.kind = .comment then elementValues visit rest
    else
      let v ← visit n
      let values ← elementValues visit rest
      return (n, v) :: values

def arrayValue (visit : Visit) (n : Node) : Engine Value := do
  let values ← elementValues visit n.parts
  let id ← onHeap (Heap.newArray · (values.map Prod.snd).toArray)
  return .object id

end AddonAudit.Script.Engine
