import AddonAudit.Json
import AddonAudit.MessageTree

/-!
# Bundles

A bundle collects the records of one run. Packages inside the package are examined between `enter`
and `leave`: their records carry the chain of package names, and they have metadata, a message tree
and resources of their own, which are merged into the outer package on the way out.
-/

namespace AddonAudit

inductive PackageType where
  | unknown
  | extension
  | theme
  | dictionary
  | langpack
  | search
  | multi
  deriving DecidableEq, Repr, Inhabited

namespace PackageType

def name : PackageType → String
  | .unknown => "unknown"
  | .extension => "extension"
  | .theme => "theme"
  | .dictionary => "dictionary"
  | .langpack => "langpack"
  | .search => "search"
  | .multi => "multi"

/-- Read a name, in any case. The unknown type has no name that can be read. -/
def ofName (s : String) : Except String PackageType :=
  match Text.lower s with
  | "extension" => .ok .extension
  | "theme" => .ok .theme
  | "dictionary" => .ok .dictionary
  | "langpack" => .ok .langpack
  | "search" => .ok .search
  | "multi" => .ok .multi
  | _ => .error ("unknown package type: " ++ s)

def ofCode? (code : String) : Option PackageType :=
  match Text.trim code with
  | "2" => some .extension
  | "4" => some .theme
  | "8" => some .langpack
  | "32" => some .multi
  | "64" => some .dictionary
  | _ => none

end PackageType

/-- A counter for each signing severity. -/
structure SigningCounts where
  trivial : Nat := 0
  low : Nat := 0
  medium : Nat := 0
  high : Nat := 0
  deriving DecidableEq, Repr, Inhabited

def SigningCounts.modify (f : Nat → Nat) (c : SigningCounts) : SigningSeverity → SigningCounts
  | .trivial => { c with trivial := f c.trivial }
  | .low => { c with low := f c.low }
  | .medium => { c with medium := f c.medium }
  | .high => { c with high := f c.high }

/-- What belongs to an outer package while an inner one is examined. -/
structure OuterPackage where
  name : String
  metadata : Dict Json
  tree : MessageTree Nat
  resources : Dict Json
  detected : PackageType

/-- The records of a run and what the checks share. -/
structure Bundle where
  errors : List Record := []
  warnings : List Record := []
  notices : List Record := []
  tree : MessageTree Nat := []
  compat : Counts := {}
  signing : SigningCounts := {}
  metadata : Dict Json := []
  detected : PackageType := .unknown
  tier : Nat := 1
  endingTier : Nat := 1
  /-- The versions that matter; never a set without versions. -/
  supported : Option AppVersions := none
  /-- The packages around the one that is examined, innermost first. -/
  outer : List OuterPackage := []
  /-- The names of the packages that were entered, outermost first. -/
  packageStack : List String := []
  /-- What the checks share over the whole run. -/
  shared : Dict Json := []
  /-- What the checks share inside the present package. -/
  resources : Dict Json := []
  next : Nat := 0

instance : Inhabited Bundle := ⟨{}⟩

namespace Bundle

/-- An empty bundle for the given versions; a set without versions stands for all of them. -/
def ofSupported (versions : Option AppVersions) : Bundle :=
  { supported := versions.filter fun v => !v.isVoid }

def setTier (tier : Nat) (b : Bundle) : Bundle :=
  { b with tier, endingTier := max b.endingTier tier }

def isNested (b : Bundle) : Bool :=
  !b.packageStack.isEmpty

def isRelevant (b : Bundle) (requirement : Option AppVersions) : Bool :=
  match requirement, b.supported with
  | some required, some supported => required.intersects supported
  | _, _ => true

def records (b : Bundle) : Severity → List Record
  | .error => b.errors
  | .warning => b.warnings
  | .notice => b.notices

def setRecords (b : Bundle) (records : List Record) : Severity → Bundle
  | .error => { b with errors := records }
  | .warning => { b with warnings := records }
  | .notice => { b with notices := records }

def summarize (f : Nat → Nat) (r : Record) (b : Bundle) : Bundle :=
  { b with
    compat := match r.compatibility with
      | some s => b.compat.modify f s
      | none => b.compat
    signing := match r.signing with
      | some s => b.signing.modify f s
      | none => b.signing }

def stamp (b : Bundle) (severity : Severity) (f : Finding) : Record where
  uid := b.next
  severity := severity
  id := f.id
  message := f.message
  description := f.description
  file := match f.file with
    | some file => b.packageStack ++ [file]
    | none => []
  line := f.line
  column := f.column
  context := f.context
  tier := b.tier
  forVersions := f.forVersions
  compatibility := f.compatibility
  signing := f.signing
  editorsOnly := f.editorsOnly

def append (r : Record) (b : Bundle) : Bundle :=
  let b := b.summarize (· + 1) r
  let b := { b with tree := b.tree.insert r.uid r.severity r.id, next := r.uid + 1 }
  b.setRecords (b.records r.severity ++ [r]) r.severity

/-- Record a finding. A finding that does not concern the supported versions is left out; otherwise
the number of the record is given back. -/
def push (severity : Severity) (f : Finding) (b : Bundle) : Option Nat × Bundle :=
  if b.isRelevant f.forVersions then
    let r := b.stamp severity f
    (some r.uid, b.append r)
  else (none, b)

/-- Record a finding whose number is not needed. -/
def add (severity : Severity) (f : Finding) (b : Bundle) : Bundle :=
  (b.push severity f).2

/-- Take back a record among those of a severity. -/
def retract (r : Record) (severity : Severity) (b : Bundle) : Bundle :=
  let b := b.summarize (· - 1) r
  let b := { b with tree := b.tree.remove r.uid r.severity r.id }
  b.setRecords ((b.records severity).eraseP (·.uid = r.uid)) severity

/-- Take back the record with a number, if one of this severity has it. -/
def dropFrom? (uid : Nat) (severity : Severity) (b : Bundle) : Option Bundle :=
  ((b.records severity).find? (·.uid = uid)).map fun r => b.retract r severity

/-- Take back the record with a number; the answer says whether there was one. -/
def drop (uid : Nat) (b : Bundle) : Bool × Bundle :=
  match b.dropFrom? uid .error <|> b.dropFrom? uid .warning <|> b.dropFrom? uid .notice with
  | some b => (true, b)
  | none => (false, b)

/-- Whether the run failed: on any error, and if asked on any warning. -/
def failed (b : Bundle) (onWarnings : Bool) : Bool :=
  !b.errors.isEmpty || (onWarnings && !b.warnings.isEmpty)

/-- All records: errors, then warnings, then notices. -/
def messages (b : Bundle) : List Record :=
  b.errors ++ b.warnings ++ b.notices

def find (b : Bundle) (id : List String) : List Record :=
  b.messages.filter (·.id = id)

/-- Share a value, inside the present package or over the whole run. -/
def saveResource (name : String) (value : Json) (inPackage : Bool) (b : Bundle) : Bundle :=
  if inPackage then { b with resources := Dict.insert name value b.resources }
  else { b with shared := Dict.insert name value b.shared }

/-- A shared value; those of the package come first. -/
def resource? (name : String) (b : Bundle) : Option Json :=
  Dict.find? name b.resources <|> Dict.find? name b.shared

def resourceFlag (name : String) (b : Bundle) : Bool :=
  match b.resource? name with
  | some (.bool true) => true
  | _ => false

def setMeta (name : String) (value : Json) (b : Bundle) : Bundle :=
  { b with metadata := Dict.insert name value b.metadata }

def metaFlag (name : String) (b : Bundle) : Bool :=
  match Dict.find? name b.metadata with
  | some (.bool true) => true
  | _ => false

def enter (name : String) (b : Bundle) : Bundle :=
  { b with
    outer := ⟨name, b.metadata, b.tree, b.resources, b.detected⟩ :: b.outer
    packageStack := b.packageStack ++ [name]
    metadata := []
    tree := []
    resources := []
    detected := .unknown }

/-- What stands in the place of inner packages, with one more package in it. A value that is no
object is left as it is. -/
def putInner (name : String) (inner : Dict Json) : Option Json → Json
  | none => .obj [(name, .obj inner)]
  | some (.obj fields) => .obj (Dict.insert name (.obj inner) fields)
  | some other => other

def addInner (name : String) (inner : Dict Json) (metadata : Dict Json) : Dict Json :=
  metadata.alter "sub_packages" (putInner name inner)

/-- Return from an inner package; the answer says whether there was one. -/
def leave (b : Bundle) : Bool × Bundle :=
  match b.outer with
  | [] => (false, b)
  | o :: outer =>
    (true, { b with
      outer
      packageStack := b.packageStack.dropLast
      metadata := addInner o.name b.metadata o.metadata
      tree := o.tree.merge b.tree
      resources := o.resources
      detected := o.detected })

end Bundle

end AddonAudit
