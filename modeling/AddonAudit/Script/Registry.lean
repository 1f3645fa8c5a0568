import AddonAudit.Finding
import AddonAudit.Glob
import AddonAudit.Script.Value

/-!
# The entity registry

An entity is a node in a tree of property paths such as `Components.classes.*.createInstance`. It
says what happens when the path is read, written or called, and what to report then. A star is a
child for every name that has no child of its own. A path that starts with two stars applies to a
property on any object, and its second part is a glob of names.
-/

namespace AddonAudit.Script

/-- What to report about an entity. What is not set comes from the entities around it. -/
structure Advice where
  id : Option (List String) := none
  severity : Option Severity := none
  message : Option String := none
  description : Option String := none
  signing : Option SigningSeverity := none
  editorsOnly : Option Bool := none
  compatibility : Option Severity := none
  gate : Option VersionGate := none
  deriving DecidableEq, Repr, Inhabited

/-- Field by field: what is set in the first advice wins. -/
def Advice.over (a b : Advice) : Advice where
  id := a.id <|> b.id
  severity := a.severity <|> b.severity
  message := a.message <|> b.message
  description := a.description <|> b.description
  signing := a.signing <|> b.signing
  editorsOnly := a.editorsOnly <|> b.editorsOnly
  compatibility := a.compatibility <|> b.compatibility
  gate := a.gate <|> b.gate

inductive CallHook where
  /-- The result has the interface that is the first argument. -/
  | typedByInterface
  | returnsInterface (name : String)
  | writesPreference
  | readsPreference
  | setsAttribute
  /-- An element is created; the argument with this index is its tag. -/
  | createsElement (argument : Nat)
  | insertsMarkup
  | addsListener
  deriving DecidableEq, Repr

/-- What happens when a property is read. -/
inductive GetHook where
  | unwraps
  deriving DecidableEq, Repr

/-- What happens when a property is written. -/
inductive SetHook where
  | extendsPrototype
  | setsHandler
  | setsMarkup
  | exposesProperties
  | changesEngine
  deriving DecidableEq, Repr

inductive DangerCheck where
  | stringTimer
  /-- A request without encryption. -/
  | insecureRequest
  deriving DecidableEq, Repr

/-- When calling an entity is dangerous. -/
inductive Danger where
  | always
  | check (c : DangerCheck)
  deriving DecidableEq, Repr

/-- Whether an entity may be assigned. -/
inductive Readonly where
  | no
  | yes
  /-- Only a string or a value that is not known may be assigned. -/
  | exceptText
  deriving DecidableEq, Repr, Inhabited

/-- How the value of an entity is made when it is read. -/
inductive EntityValue where
  | link (path : List String)
  | constant (x : Float)

structure Behavior where
  value : Option EntityValue := none
  onCall : Option CallHook := none
  onGet : Option GetHook := none
  onSet : Option SetHook := none
  dangerous : Option Danger := none
  /-- Report on every read, not only on calls. -/
  dangerousOnRead : Bool := false
  readonly : Readonly := .no
  overwriteable : Bool := false
  isConst : Bool := false
  /-- Properties that are not known are looked up as globals. -/
  globalScope : Bool := false
  /-- Properties that are not known are the entity itself. -/
  openEnded : Bool := false
  advice : Advice := {}

def Behavior.isCallable (b : Behavior) : Bool :=
  b.onCall.isSome || b.dangerous.isSome

/-- A node of the entity tree. -/
structure Entity where
  name : String := ""
  parent : Option EntityId := none
  behavior : Behavior := {}
  children : Dict EntityId := []
  /-- The child for all other names. -/
  wildcard : Option EntityId := none
  registered : Bool := false

namespace Entity

/-- The child under exactly this name. A star names the child for all other names. -/
def slot? (e : Entity) (name : String) : Option EntityId :=
  if name = "*" then e.wildcard else e.children.find? name

def link (e : Entity) (name : String) (child : EntityId) : Entity :=
  if name = "*" then { e with wildcard := some child }
  else { e with children := Dict.insert name child e.children }

end Entity

/-- The entities, and the globs of names that apply to any object. -/
structure Registry where
  entities : Array Entity
  deep : List (Glob × EntityId)

/-- Why an entity cannot be registered, or a registry not be used. -/
inductive RegistryError where
  | duplicate (path : List String)
  | badPattern (pattern : String) (source : Glob.Error)
  | unknownAlias (source : String) (target : List String)
  | emptyPath
  deriving DecidableEq, Repr

def RegistryError.message : RegistryError → String
  | .duplicate path => "entity \x60" ++ ".".intercalate path ++ "\x60 registered twice"
  | .badPattern pattern source =>
    "invalid property pattern \x60" ++ pattern ++ "\x60: " ++ source.describe pattern
  | .unknownAlias source target =>
    "alias at \x60" ++ source ++ "\x60 points to unknown entity \x60" ++ ".".intercalate target ++
      "\x60"
  | .emptyPath => "empty entity path"

namespace Registry

def root : EntityId := 0

/-- A registry without entities but the root. -/
def empty : Registry where
  entities := #[{ registered := true }]
  deep := []

def get (r : Registry) (id : EntityId) : Entity :=
  r.entities[id]?.getD {}

def behavior (r : Registry) (id : EntityId) : Behavior :=
  (r.get id).behavior

def size (r : Registry) : Nat :=
  r.entities.size

def isEmpty (r : Registry) : Bool :=
  r.size ≤ 1 && r.deep.isEmpty

/-- A child of an entity: one with the name comes before the one for all names. -/
def child? (r : Registry) (parent : EntityId) (name : String) : Option EntityId :=
  let entity := r.get parent
  entity.children.find? name <|> entity.wildcard

def global? (r : Registry) (name : String) : Option EntityId :=
  r.child? root name

/-- The entity for a property on any object. -/
def deep? (r : Registry) (name : String) : Option EntityId :=
  (r.deep.find? fun entry => entry.1.isMatch name).map Prod.snd

/-- The entity that is reached by reading a property of a value, whose entity is given if it has
one. -/
def resolve? (r : Registry) (parent : Option EntityId) (name : String) : Option EntityId :=
  match parent with
  | none => r.deep? name
  | some parent =>
    r.child? parent name <|>
      (if (r.behavior parent).globalScope then r.global? name else none) <|>
      r.deep? name <|>
      if (r.behavior parent).openEnded then some parent else none

def lookupFrom? (r : Registry) : EntityId → List String → Option EntityId
  | current, [] => some current
  | current, segment :: rest => (r.child? current segment).bind fun next => lookupFrom? r next rest

def lookup? (r : Registry) (path : List String) : Option EntityId :=
  r.lookupFrom? root path

def dealiasSteps (r : Registry) : Nat → EntityId → EntityId
  | 0, id => id
  | steps + 1, id =>
    match (r.behavior id).value with
    | some (.link path) =>
      match r.lookup? path with
      | some target => if target = id then id else dealiasSteps r steps target
      | none => id
    | _ => id

/-- Follow aliases; after eight of them the search is given up. -/
def dealias (r : Registry) (id : EntityId) : EntityId :=
  r.dealiasSteps 8 id

/-- An entity and those around it, up to the root. The fuel bounds their number. -/
def chainFrom (r : Registry) : Nat → EntityId → List EntityId
  | 0, _ => []
  | fuel + 1, id =>
    id :: match (r.get id).parent with
      | some parent => chainFrom r fuel parent
      | none => []

/-- An entity and those around it, up to the root. -/
def chain (r : Registry) (id : EntityId) : List EntityId :=
  r.chainFrom (r.size + 1) id

def segments (r : Registry) (id : EntityId) : List String :=
  (((r.chain id).takeWhile (· ≠ root)).map fun id => (r.get id).name).reverse

def path (r : Registry) (id : EntityId) : String :=
  ".".intercalate (r.segments id)

/-- What to report about an entity, filled up from those around it. -/
def advice (r : Registry) (id : EntityId) : Advice :=
  (r.chain id).foldl (fun a id => a.over (r.behavior id).advice) {}

def isInterface (r : Registry) (id : EntityId) : Bool :=
  match r.lookup? ["Components", "interfaces"] with
  | some interfaces => (r.get id).parent = some interfaces
  | none => false

def alloc (r : Registry) (name : String) (parent : EntityId) : EntityId × Registry :=
  let id := r.size
  let entities := r.entities.push { name, parent := some parent }
  (id, { r with entities := entities.modify parent fun e => e.link name id })

/-- The child under exactly this name, added if there is none. -/
def childOrAlloc (r : Registry) (parent : EntityId) (name : String) : EntityId × Registry :=
  match (r.get parent).slot? name with
  | some id => (id, r)
  | none => r.alloc name parent

/-- The entity at the end of a path, with what is missing on the way added. -/
def walk : List String → EntityId → Registry → EntityId × Registry
  | [], id, r => (id, r)
  | segment :: rest, id, r =>
    let (next, r) := r.childOrAlloc id segment
    walk rest next r

def fill (r : Registry) (id : EntityId) (behavior : Behavior) : Registry :=
  { r with entities := r.entities.modify id fun e => { e with behavior, registered := true } }

/-- Give a behaviour to the entity at the end of a path, unless it was given one before. The answer
comes with the registry after it. -/
def place (r : Registry) (path : List String) (behavior : Behavior) :
    Except RegistryError EntityId × Registry :=
  -- What is missing on the way is added before it is known whether the end is free.
  let (id, r) := walk path root r
  if (r.get id).registered then (.error (.duplicate path), r) else (.ok id, r.fill id behavior)

/-- The glob of names in a path that starts with two stars. -/
def pattern (path : List String) : String :=
  ".".intercalate path.tail

/-- Give a behaviour to the properties of any object whose name a glob describes. The answer comes
with the registry after it. -/
def placeDeep (r : Registry) (path : List String) (behavior : Behavior) :
    Except RegistryError EntityId × Registry :=
  if r.deep.any fun entry => entry.1.text = pattern path then (.error (.duplicate path), r)
  else match Glob.ofText (pattern path) with
    | .error e => (.error (.badPattern (pattern path) e), r)
    | .ok glob =>
      let id := r.size
      (.ok id, {
        entities := r.entities.push { name := pattern path, behavior, registered := true }
        deep := r.deep ++ [(glob, id)] })

/-- Try to give a behaviour to a path, which can have only one. The answer comes with the registry
after it, whether there is an error or not. -/
def attempt (r : Registry) (path : List String) (behavior : Behavior) :
    Except RegistryError EntityId × Registry :=
  match path with
  | [] => (.error .emptyPath, r)
  | "**" :: _ :: _ => r.placeDeep path behavior
  | path => r.place path behavior

/-- Make attempts one after the other, and go on after an error. The answers come with the registry
in the end. -/
def attemptAll : List (List String × Behavior) → Registry →
    List (Except RegistryError EntityId) × Registry
  | [], r => ([], r)
  | (path, behavior) :: rest, r =>
    let (answer, r) := r.attempt path behavior
    let (answers, r) := attemptAll rest r
    (answer :: answers, r)

/-- Give a behaviour to a path. A path can have only one. -/
def register (path : List String) (behavior : Behavior) (r : Registry) :
    Except RegistryError (EntityId × Registry) :=
  match r.attempt path behavior with
  | (.ok id, r) => .ok (id, r)
  | (.error e, _) => .error e

def danglingAlias? (r : Registry) : List EntityId → Option RegistryError
  | [] => none
  | id :: rest =>
    match (r.behavior id).value with
    | some (.link target) =>
      if (r.lookup? target).isSome then danglingAlias? r rest
      else some (.unknownAlias (r.path id) target)
    | _ => danglingAlias? r rest

/-- Check that every alias has a target. -/
def check (r : Registry) : Except RegistryError Registry :=
  match r.danglingAlias? (List.range r.size) with
  | some e => .error e
  | none => .ok r

def registerAll : List (List String × Behavior) → Registry → Except RegistryError Registry
  | [], r => .ok r
  | (path, behavior) :: rest, r => do
    let (_, r) ← r.register path behavior
    registerAll rest r

end Registry

end AddonAudit.Script
