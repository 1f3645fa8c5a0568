import AddonAudit.Script.Node
import AddonAudit.Text.Blank

/-!
# Reading a script

The state of reading is the text that is left, its place, and a stack of the nodes read so far. A
production pushes the nodes of its parts and then gathers those above a mark into one node. Comments
are pushed where they stand; gathering leaves comments at the end outside of the node, unless a
token follows them.

A production that cannot go on gives back the state where it stopped, with the nodes it had read.
-/

namespace AddonAudit.Script.Reader

structure Input where
  rest : List Char
  position : Position := {}
  /-- Whether a line ended since the last token. -/
  newline : Bool := false
  /-- Whether a line ended inside a comment since the last token. -/
  innerNewline : Bool := false
  /-- The nodes read so far, the last one first. -/
  stack : List Node := []

/-- A production; its failure is the state where it stopped. -/
abbrev Production := StateT Input (Except Input)

def look : Production (List Char) := do
  return (← get).rest

def here : Production Position := do
  return (← get).position

def stop {α : Type} : Production α := do
  throw (← get)

def height : Production Nat := do
  return (← get).stack.length

def push (n : Node) : Production Unit :=
  modify fun s => { s with stack := n :: s.stack }

def placeAfter (p : Position) (cs : List Char) : Position :=
  cs.foldl Position.after p

def take (n : Nat) : Production (List Char) := do
  let s ← get
  let cs := s.rest.take n
  set { s with
    rest := s.rest.drop n
    position := placeAfter s.position cs
    newline := false
    innerNewline := false }
  return cs

def expect (token : String) : Production Unit := do
  if token.toList.isPrefixOf (← look) then
    let _ ← take token.length
  else stop

/-- Take a token that is a given text, if it stands there. -/
def accept (token : String) : Production Bool := do
  if token.toList.isPrefixOf (← look) then
    let _ ← take token.length
    return true
  else return false

def leaf (kind : Kind) (n : Nat) : Production Unit := do
  let start ← here
  let cs ← take n
  push { kind, start, text := String.ofList cs }

/-- Whether a node at the end of a production stays outside of its node. -/
def isExtra (n : Node) : Bool :=
  n.isComment || n.kind = .error

/-- Gather the nodes above a mark. Comments at the end stay outside. -/
def gather (kind : Kind) (mark : Nat) (start : Position) : Production Unit :=
  modify fun s =>
    let count := s.stack.length - mark
    let above := s.stack.take count
    let extras := above.takeWhile isExtra
    let children := (above.dropWhile isExtra).reverse
    { s with stack := extras ++ { kind, start, children } :: s.stack.drop count }

/-- Gather all nodes above a mark, where a token stands at the end. -/
def gatherAll (kind : Kind) (mark : Nat) (start : Position) : Production Unit :=
  modify fun s =>
    let count := s.stack.length - mark
    { s with
      stack := { kind, start, children := (s.stack.take count).reverse } :: s.stack.drop count }

def node {α : Type} (kind : Kind) (p : Production α) : Production α := do
  let start ← here
  let mark ← height
  let a ← p
  gather kind mark start
  return a

def closed {α : Type} (kind : Kind) (p : Production α) : Production α := do
  let start ← here
  let mark ← height
  let a ← p
  gatherAll kind mark start
  return a

def change (mark : Nat) (f : Node → Node) : Production Unit :=
  modify fun s => { s with stack := s.stack.modify (s.stack.length - 1 - mark) f }

def spelled {α : Type} (kind : Kind) (p : Production α) : Production α := do
  let start ← here
  let mark ← height
  let cs ← look
  let a ← closed kind p
  let stop ← here
  let text := (Text.takeBytes? (stop.offset - start.offset) cs).getD []
  change mark fun n => { n with text := String.ofList text }
  return a

def withRole {α : Type} (role : Role) (p : Production α) : Production α := do
  let mark ← height
  let a ← p
  change mark fun n => { n with role := some role }
  return a

/-- Repeat a step while it asks for it. The fuel bounds the turns. -/
def turns (step : Production Bool) : Nat → Production Unit
  | 0 => pure ()
  | fuel + 1 => do
    if ← step then turns step fuel

/-- Repeat a step while it asks for it; a step that asks takes a character. -/
def loop (step : Production Bool) : Production Unit := do
  turns step ((← look).length + 1)

/-- Try a production, and if it fails another one. If both fail, the one that came further tells
where. -/
def orElse {α : Type} (p q : Production α) : Production α := fun s =>
  match p s with
  | .ok r => .ok r
  | .error e =>
    match q s with
    | .ok r => .ok r
    | .error e' => .error (if e'.rest.length < e.rest.length then e' else e)

end AddonAudit.Script.Reader
