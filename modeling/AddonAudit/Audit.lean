import AddonAudit.Audit.Layout
import AddonAudit.Audit.Registration
import AddonAudit.Check.Markup
import AddonAudit.Check.Stylesheet

/-!
# Audits

A package is audited in tiers: its type and manifest, its registrations, and the contents of its
files. A tier is left out if one before it failed, unless the configuration says otherwise. Packages
inside the package are audited on their own in the tier of contents.

An error ends the audit. The bundle is then as it was when the error came up, but every package that
was entered has been left.
-/

namespace AddonAudit

/-- Why an audit ended. -/
inductive AuditError where
  | timeout
  /-- The analysis of a file had a fault. -/
  | fault (file : String) (f : Script.Fault)
  | package (e : PackageError)
  deriving DecidableEq, Repr

def AuditError.message : AuditError → String
  | .timeout => "validation timed out"
  | .fault file f => "engine fault in " ++ file ++ ": " ++ f.message
  | .package e => "could not open package: " ++ e.message

abbrev Audit := ExceptT AuditError (StateM Session)

namespace Audit

def update (f : Bundle → Bundle) : Audit Unit :=
  modify (·.update f)

def checkDeadline : Audit Unit := do
  let s ← get
  let (isOver, clock) := s.clock.look
  set { s with clock }
  if isOver then throw .timeout

def ofRead {α : Type} : Except PackageError α → Audit α
  | .ok a => return a
  | .error e => throw (.package e)

/-- What a file holds, as far as it is checked. -/
inductive Role where
  | script
  | markup
  | stylesheet
  /-- A package; whether it is an add-on, which has a manifest. -/
  | package (isAddon : Bool)
  deriving DecidableEq, Repr

def Role.ofExtension? (extension : String) : Option Role :=
  if ["js", "jsm", "mjs"].contains extension then some .script
  else if ["xul", "xbl", "html", "htm", "xhtml"].contains extension then some .markup
  else if extension = "css" then some .stylesheet
  else if extension = "xpi" then some (.package true)
  else if extension = "jar" then some (.package false)
  else none

def Role.of? (path : String) : Option Role :=
  ofExtension? (Package.extension path)

/-- Record that the analysis of a file had a fault. The record belongs to the first tier. -/
def recordFault (file : String) (f : Script.Fault) (b : Bundle) : Bundle :=
  let recorded := { b with tier := 1 }.add .error {
    id := ["javascript", "traverser", "unexpected_exception"]
    message := "Unexpected error during analysis"
    description :=
      ["An internal error occurred while analysing \x60" ++ file ++ "\x60: " ++ f.message]
    file := some file }
  { recorded with tier := b.tier }

/-- Run the analysis of a file. A fault ends a strict audit, and is recorded by others. -/
def analyse (config : Config) (file : String)
    (check : Script.Options → Session → Except Script.Fault Unit × Session) : Audit Unit := do
  let (result, s) := check { strict := config.strict } (← get)
  set s
  match result with
  | .ok _ => pure ()
  | .error .timeout => throw .timeout
  | .error f => if config.strict then throw (.fault file f) else update (recordFault file f)

/-- Audit an inner package between entering and leaving it, whatever the outcome is. The tier is the
same afterwards. -/
def within (name : String) (inner : Audit Unit) : Audit Unit := fun s =>
  let (result, after) := inner (s.update (·.enter name))
  (result, after.update fun b => { b.leave.2 with tier := s.bundle.tier })

def checkPackage (audit : Package → Bool → Audit Unit) (p : Package) (path : String)
    (isAddon : Bool) : Audit Unit := do
  let data ← ofRead (p.read path)
  match Package.ofArchive path data with
  | .ok inner => within path (audit inner isAddon)
  | .error e =>
    update (·.add .warning {
      id := ["testcases_packagelayout", "nested", "corrupt"]
      message := "Unreadable nested package"
      description := ["\x60" ++ path ++ "\x60 could not be opened: " ++ e.message]
      file := some path })

/-- Check a file by its role. Known libraries are left out. -/
def checkFile (audit : Package → Bool → Audit Unit) (config : Config) (p : Package)
    (path : String) : Audit Unit := do
  match Role.of? path with
  | none => pure ()
  | some .script =>
    if (Library.find? path).isNone then
      let source ← ofRead (p.readText path)
      analyse config path fun options => Script.analyse path source options
  | some .markup =>
    let source ← ofRead (p.readText path)
    analyse config path fun options => Markup.check path source options
  | some .stylesheet =>
    let source ← ofRead (p.readText path)
    update (Stylesheet.check path source)
  | some (.package isAddon) => checkPackage audit p path isAddon

/-- Check files in order, those that are not excluded. -/
def checkFiles (audit : Package → Bool → Audit Unit) (config : Config) (p : Package) :
    List String → Audit Unit
  | [] => pure ()
  | path :: rest => do
    checkDeadline
    if !config.excludes path then checkFile audit config p path
    checkFiles audit config p rest

/-- The known library in the file with a path, if it is a script that is not excluded. -/
def libraryIn? (config : Config) (path : String) : Option (String × Json) :=
  if config.excludes path || Role.of? path ≠ some .script then none
  else (Library.find? path).map fun library => (path, Json.ofEntries [("library", .str library)])

def noteLibraries (config : Config) (p : Package) (b : Bundle) : Bundle :=
  match p.paths.filterMap (libraryIn? config) with
  | [] => b
  | found => b.setMeta "identified_files" (.ofEntries found)

/-- The third tier: the contents of all files. -/
def checkContents (audit : Package → Bool → Audit Unit) (config : Config) (p : Package) :
    Audit Unit := do
  checkFiles audit config p p.paths
  update (noteLibraries config p)

def stops (config : Config) : Audit Bool :=
  return (← get).bundle.failed false && !config.determined

/-- Audit a package, and the packages inside of it down to a depth. -/
def tiers (config : Config) : Nat → Package → Bool → Audit Unit
  | 0, _, _ => pure ()
  | depth + 1, p, hasManifest => do
    update (·.setTier 1)
    if hasManifest then
      update (Layout.check config p)
      if ← stops config then return
    update (·.setTier 2)
    update (Registration.check p)
    if ← stops config then return
    update (·.setTier 3)
    checkContents (tiers config depth) config p

/-- How deep packages in a package are followed: as deep as it has bytes. Every archive around
another one has bytes of its own, and the audit of an archive that expands to itself comes to an
end. -/
def depth (p : Package) : Nat :=
  p.files.foldl (fun n (_, content) => n + content.length) 1

def run (config : Config) (p : Package) : Audit Unit :=
  tiers config (depth p) p true

end Audit

def audit (config : Config) (clock : Clock) (p : Package) : Except AuditError Bundle :=
  let (result, s) := Audit.run config p ⟨.ofSupported config.supported, clock⟩
  result.map fun _ => s.bundle

end AddonAudit
