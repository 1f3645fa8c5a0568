import AddonAudit.Script.Heap
import AddonAudit.Script.Node
import AddonAudit.Script.Registry
import AddonAudit.Session

/-!
# The state of an analysis

An analysis walks the tree of one script. It keeps the bundle it reports to, the objects of the
script, its scopes and the values of nodes it has seen. The state survives a fault, so that what was
recorded before stays.
-/

namespace AddonAudit.Script

/-- Why the analysis of a script was given up. -/
inductive Fault where
  /-- A node was visited twice where that is not allowed. -/
  | retraversal (kind : Kind) (line : Nat)
  /-- The script is nested too deep. -/
  | depthExceeded
  | timeout
  deriving DecidableEq, Repr

def maxDepth : Nat := 200

def Fault.message : Fault → String
  | .retraversal kind line =>
    "node \x60" ++ kind.name ++ "\x60 on line " ++ toString line ++ " was traversed twice"
  | .depthExceeded => "maximum nesting depth of " ++ toString maxDepth ++ " exceeded"
  | .timeout => "validation timed out"

structure Options where
  /-- Visiting a node twice is a fault. -/
  strict : Bool := false
  /-- The script has a global scope of its own. -/
  isModule : Bool := false
  /-- The script is a fragment inside of markup. -/
  snippet : Bool := false
  deriving DecidableEq, Repr, Inhabited

inductive ScopeKind where
  /-- The scope of a function: it takes variables and functions. -/
  | function
  | block
  deriving DecidableEq, Repr

/-- The names of a scope, in the order of their declaration. -/
structure Scope where
  kind : ScopeKind
  names : Properties := []

inductive Declaration where
  | variable
  | letting
  | constant
  deriving DecidableEq, Repr

/-- What stays the same during an analysis. -/
structure Env where
  registry : Registry
  file : String
  lines : Text.Lines
  options : Options := {}

/-- What changes during an analysis. -/
structure State where
  bundle : Bundle
  heap : Heap := {}
  globals : Properties := []
  /-- The scopes inside the global one, innermost first. -/
  scopes : List Scope := []
  /-- The value of the global object. -/
  window : Value
  /-- The values of `this` in the functions around, innermost first. -/
  receivers : List Value := []
  /-- The values of nodes, by number. -/
  results : Array (Option Value)
  depth : Nat := 0
  visited : Nat := 0
  clock : Clock := none

def Declaration.goesTo (d : Declaration) (scope : Scope) : Bool :=
  match d with
  | .variable => scope.kind = .function
  | .letting | .constant => true

def Declaration.holds (d : Declaration) (v : Value) : Value :=
  v.named (d = .constant)

/-- Store a name in the first scope that satisfies a predicate; if there is none, in the globals. -/
def storeIn (p : Scope → Bool) (name : String) (v : Value) (globals : Properties) :
    List Scope → Properties × List Scope
  | [] => (globals.store name v, [])
  | scope :: rest =>
    if p scope then (globals, { scope with names := scope.names.store name v } :: rest)
    else
      let (globals, rest) := storeIn p name v globals rest
      (globals, scope :: rest)

/-- Store the name of a function in the nearest function around its own scope; if there is none, in
the globals. -/
def storeAround (name : String) (v : Value) (globals : Properties) :
    List Scope → Properties × List Scope
  | [] => (globals.store name v, [])
  | own :: rest =>
    let (globals, rest) := storeIn Declaration.variable.goesTo name v globals rest
    (globals, own :: rest)

/-- The value of a name, from the inside out. -/
def lookup? (name : String) (globals : Properties) : List Scope → Option Value
  | [] => globals.find? name
  | scope :: rest => scope.names.find? name <|> lookup? name globals rest

/-- Replace the value of a name where it is found, from the inside out. The answer is the value that
was there. -/
def replace? (name : String) (v : Value → Value) (globals : Properties) :
    List Scope → Option (Value × Properties × List Scope)
  | [] => (globals.find? name).map fun old => (old, globals.store name (v old), [])
  | scope :: rest =>
    match scope.names.find? name with
    | some old =>
        some (old, globals, { scope with names := scope.names.store name (v old) } :: rest)
    | none => (replace? name v globals rest).map fun (old, globals, rest) =>
        (old, globals, scope :: rest)

namespace State

def enterScope (kind : ScopeKind) (s : State) : State :=
  { s with scopes := { kind } :: s.scopes }

/-- Leave the innermost scope. The globals are no scope that can be left. -/
def leaveScope (s : State) : State :=
  { s with scopes := s.scopes.tail }

/-- Enter a function whose receiver is not known. -/
def enterReceiver (s : State) : State :=
  { s with receivers := .unknown :: s.receivers }

def leaveReceiver (s : State) : State :=
  { s with receivers := s.receivers.tail }

def enterLevel (s : State) : State :=
  { s with depth := s.depth + 1 }

def leaveLevel (s : State) : State :=
  { s with depth := s.depth - 1 }

def receiver (s : State) : Value :=
  s.receivers.headD s.window

def record (severity : Severity) (f : Finding) (s : State) : Option Nat × State :=
  let (uid, bundle) := s.bundle.push severity f
  (uid, { s with bundle })

def drop (uid : Nat) (s : State) : State :=
  { s with bundle := (s.bundle.drop uid).2 }

def find? (s : State) (name : String) : Option Value :=
  lookup? name s.globals s.scopes

def variableScope (s : State) : Properties :=
  match s.scopes.find? Declaration.variable.goesTo with
  | some scope => scope.names
  | none => s.globals

def storeGlobal (name : String) (v : Value) (s : State) : State :=
  { s with globals := s.globals.store name v }

/-- Declare a name: a variable in the nearest function, others in the innermost scope. -/
def declare (name : String) (v : Value) (d : Declaration) (s : State) : State :=
  let (globals, scopes) := storeIn d.goesTo name (d.holds v) s.globals s.scopes
  { s with globals, scopes }

/-- Declare the name of a function outside of the function's own scope. -/
def declareFunction (name : String) (v : Value) (s : State) : State :=
  let (globals, scopes) := storeAround name (Declaration.variable.holds v) s.globals s.scopes
  { s with globals, scopes }

/-- Assign to a name that is declared. The answer is the value that was there; a constant stays a
constant. -/
def overwrite? (name : String) (v : Value) (s : State) : Option (Value × State) :=
  (replace? name (fun old => v.named old.isConst) s.globals s.scopes).map
    fun (old, globals, scopes) => (old, { s with globals, scopes })

def onHeap (f : Heap → ObjectId × Heap) (s : State) : ObjectId × State :=
  let (id, heap) := f s.heap
  (id, { s with heap })

def setProperty (id : ObjectId) (name : String) (v : Value) (s : State) : State :=
  { s with heap := s.heap.set id name v }

def keep (node : Nat) (v : Value) (s : State) : State :=
  { s with results := s.results.setIfInBounds node (some v) }

def kept? (s : State) (node : Nat) : Option Value :=
  s.results[node]?.join

end State

abbrev Engine := ReaderT Env (ExceptT Fault (StateM State))

namespace Engine

def registry : Engine Registry := do
  return (← read).registry

def heap : Engine Heap := do
  return (← get).heap

def when (condition : Bool) (x : Engine Unit) : Engine Unit :=
  if condition then x else pure ()

/-- Run a step and give back its fault, if there is one. -/
def observe {α : Type} (x : Engine α) : Engine (Except Fault α) := fun env =>
  (fun s => let (r, s) := (x env).run s; (.ok r, s) : StateM State (Except Fault (Except Fault α)))

/-- Run a step, then another one whether or not there was a fault. -/
def andAlways {α : Type} (x : Engine α) (after : Engine Unit) : Engine α := do
  let r ← observe x
  after
  match r with
  | .ok a => return a
  | .error e => throw e

def onHeap (f : Heap → ObjectId × Heap) : Engine ObjectId :=
  modifyGet (·.onHeap f)

def newFunction : Engine Value := do
  return .function (← onHeap Heap.newObject)

def checkDeadline : Engine Unit := do
  let s ← get
  let (passed, clock) := s.clock.look
  set { s with clock }
  if passed then throw .timeout

def findingAt (id : List String) (message : String) (n : Node) : Engine Finding := do
  let env ← read
  let line := n.start.row + 1
  return {
    id, message
    file := some env.file
    line := some line
    column := some n.start.column
    context := some (env.lines.excerpt line n.start.column) }

def record (severity : Severity) (f : Finding) : Engine (Option Nat) :=
  modifyGet (·.record severity f)

def lastSegment (path : String) : String :=
  (Text.split '.' path).getLastD path

/-- Report something about an entity, or about none. What the advice leaves open comes from the
entity. -/
def report (entity : Option EntityId) (advice : Advice) (n : Node) : Engine (Option Nat) := do
  let r ← registry
  let (advice, path) := match entity with
    | some id => (advice.over (r.advice id), r.path id)
    | none => (advice, "")
  let id := advice.id.getD ["javascript", "dangerous_global", lastSegment path]
  let message := advice.message.getD ("Potentially dangerous use of \x60" ++ path ++ "\x60")
  let finding ← findingAt id message n
  record (advice.severity.getD .warning) { finding with
    description := advice.description.toList
    signing := advice.signing
    editorsOnly := advice.editorsOnly = some true
    compatibility := advice.compatibility
    forVersions := advice.gate.map VersionGate.expand }

/-- Report something that is not taken back. -/
def flag (entity : Option EntityId) (advice : Advice) (n : Node) : Engine Unit := do
  let _ ← report entity advice n

/-- Take back the record that a value carries. -/
def dropProvisional (v : Value) : Engine Unit :=
  v.provisional.forM fun uid => modify (·.drop uid)

def inScope {α : Type} (kind : ScopeKind) (x : Engine α) : Engine α := do
  modify (·.enterScope kind)
  andAlways x (modify State.leaveScope)

/-- Run a step inside a function whose receiver is not known. -/
def inReceiver {α : Type} (x : Engine α) : Engine α := do
  modify State.enterReceiver
  andAlways x (modify State.leaveReceiver)

def inLevel {α : Type} (x : Engine α) : Engine α := do
  modify State.enterLevel
  andAlways x (modify State.leaveLevel)

def declare (name : String) (v : Value) (d : Declaration) : Engine Unit :=
  modify (·.declare name v d)

def declareFunction (name : String) (v : Value) : Engine Unit :=
  modify (·.declareFunction name v)

/-- Whether an assignment of a value is not allowed. -/
def forbids (readonly : Readonly) (v : Value) : Bool :=
  match readonly with
  | .no => false
  | .yes => true
  | .exceptText => !v.isDirty && !v.isString

/-- Warn when something is replaced that must not be. -/
def checkOverwrite (entity : EntityId) (name : String) (v : Value) (n : Node) (declaring : Bool) :
    Engine Unit := do
  let b := (← registry).behavior entity
  if declaring && b.overwriteable then return
  if forbids b.readonly v then
    flag (some entity) {
      id := some ["javascript", "traverser", "global_overwrite"]
      severity := some .warning
      message := some ("Overwriting the read-only \x60" ++ name ++ "\x60")
      description := some "Built-in and host objects must not be replaced by add-on code." } n

/-- Warn when a global that must not be replaced is hidden by a name or assigned to. -/
def checkGlobal (name : String) (v : Value) (n : Node) (declaring : Bool) : Engine Unit := do
  ((← registry).global? name).forM fun entity => checkOverwrite entity name v n declaring

/-- Declare a name, and warn if it replaces a global that must not be replaced. -/
def declareChecked (name : String) (v : Value) (d : Declaration) (n : Node) : Engine Unit := do
  let s ← get
  when (!s.scopes.any d.goesTo) (checkGlobal name v n true)
  declare name v d

def flagConstant (name : String) (n : Node) : Engine Unit := do
  let f ← findingAt ["javascript", "traverser", "const_overwrite"]
    ("Assignment to constant \x60" ++ name ++ "\x60") n
  let _ ← record .warning f

/-- Assign to a name. A name that nothing declares becomes a global. -/
def setVariable (name : String) (v : Value) (n : Node) : Engine Unit := do
  match (← get).overwrite? name v with
  | some (old, s) =>
    set s
    when old.isConst (flagConstant name n)
  | none =>
    checkGlobal name v n false
    modify (·.storeGlobal name (v.named false))

end Engine

end AddonAudit.Script
