import AddonAudit.Audit
import AddonAudit.Proofs.Analysis

/-!
# How audits are put together

The audit of a package is put together from few steps in few ways. A property of audits that all
steps have and all ways keep is a property of the audit of every package, whatever is nested in it.
`FileRules` asks this for the check of one file, `Rules` for whole audits.
-/

namespace AddonAudit.Audit

open Bundle

section Steps

variable {α β : Type} {x : Audit α} {f : α → Audit β} {s t : Session}

theorem bind_ok {a : α} (first : x s = (.ok a, t)) : (x >>= f) s = f a t := by
  change (ExceptT.bindCont f (x s).1 : StateM Session (Except AuditError β)) (x s).2 = _
  rw [first]
  rfl

theorem bind_error {e : AuditError} (first : x s = (.error e, t)) :
    (x >>= f) s = (.error e, t) := by
  change (ExceptT.bindCont f (x s).1 : StateM Session (Except AuditError β)) (x s).2 = _
  rw [first]
  rfl

theorem onSession_apply (f : Session → Audit β) (s : Session) : (get >>= f) s = f s s := rfl

/-- A look at the deadline changes nothing but the clock. -/
theorem checkDeadline_apply (s : Session) :
    checkDeadline s =
      (if s.clock.look.1 then .error .timeout else .ok (), { s with clock := s.clock.look.2 }) := by
  change (if s.clock.look.1 then throw .timeout else pure () : Audit Unit)
    { s with clock := s.clock.look.2 } = _
  split
  · rfl
  · rfl

theorem checkDeadline_of_untimed (untimed : s.clock = none) : checkDeadline s = (.ok (), s) := by
  obtain ⟨bundle, clock⟩ := s
  obtain rfl : clock = none := untimed
  exact checkDeadline_apply _

theorem update_apply (f : Bundle → Bundle) (s : Session) : update f s = (.ok (), s.update f) := rfl

theorem update_update (f g : Bundle → Bundle) :
    (do update f; update g) = update fun b => g (f b) := rfl

end Steps

section Analyse

variable {config : Config} {path : String} {s t : Session}
  {check : Script.Options → Session → Except Script.Fault Unit × Session}

theorem analyse_of_ok (ends : check { strict := config.strict } s = (.ok (), t)) :
    analyse config path check s = (.ok (), t) := by
  unfold analyse
  rw [onSession_apply]
  simp only [ends]
  rfl

theorem analyse_of_timeout (ends : check { strict := config.strict } s = (.error .timeout, t)) :
    analyse config path check s = (.error .timeout, t) := by
  unfold analyse
  rw [onSession_apply]
  simp only [ends]
  rfl

theorem analyse_of_fault {f : Script.Fault} (other : f ≠ .timeout)
    (ends : check { strict := config.strict } s = (.error f, t)) :
    analyse config path check s =
      if config.strict then (.error (.fault path f), t)
      else (.ok (), t.update (recordFault path f)) := by
  unfold analyse
  rw [onSession_apply]
  simp only [ends]
  cases f with
  | timeout => exact absurd rfl other
  | retraversal kind line => cases config.strict <;> rfl
  | depthExceeded => cases config.strict <;> rfl

/-- How the analysis of a file ends an audit, by how the check ends. -/
inductive AnalyseEnds (config : Config) (path : String) :
    Except Script.Fault Unit × Session → Except AuditError Unit × Session → Prop where
  | well (t : Session) : AnalyseEnds config path (.ok (), t) (.ok (), t)
  | late (t : Session) : AnalyseEnds config path (.error .timeout, t) (.error .timeout, t)
  | raised (t : Session) (f : Script.Fault) : f ≠ .timeout → config.strict = true →
      AnalyseEnds config path (.error f, t) (.error (.fault path f), t)
  | recorded (t : Session) (f : Script.Fault) : f ≠ .timeout → config.strict = false →
      AnalyseEnds config path (.error f, t) (.ok (), t.update (recordFault path f))

theorem analyse_ends (config : Config) (path : String)
    (check : Script.Options → Session → Except Script.Fault Unit × Session) (s : Session) :
    AnalyseEnds config path (check { strict := config.strict } s)
      (analyse config path check s) := by
  generalize ends : check { strict := config.strict } s = outcome
  obtain ⟨f | _, t⟩ := outcome
  · by_cases late : f = .timeout
    · subst late
      rw [analyse_of_timeout ends]
      exact .late t
    · rw [analyse_of_fault late ends]
      split
      next strict => exact .raised t f late strict
      next lax => exact .recorded t f late (Bool.eq_false_iff.2 lax)
  · rw [analyse_of_ok ends]
    exact .well t

/-- The finding that a fault becomes. -/
def faultFinding (file : String) (f : Script.Fault) : Finding where
  id := ["javascript", "traverser", "unexpected_exception"]
  message := "Unexpected error during analysis"
  description :=
    ["An internal error occurred while analysing \x60" ++ file ++ "\x60: " ++ f.message]
  file := some file

end Analyse

/-- Run an audit, unless the tiers that follow are left out. -/
def gated (config : Config) (x : Audit Unit) : Audit Unit := do
  if ← stops config then return
  x

/-- Whether the tiers that follow are left out after what a bundle has recorded. -/
def halts (config : Config) (b : Bundle) : Bool :=
  b.failed false && !config.determined

theorem gated_apply (config : Config) (x : Audit Unit) (s : Session) :
    gated config x s = if halts config s.bundle then (.ok (), s) else x s := by
  change (if halts config s.bundle then pure () else x : Audit Unit) s = _
  split
  · rfl
  · rfl

/-- The second tier and those that follow. -/
def laterTiers (config : Config) (depth : Nat) (p : Package) : Audit Unit := do
  update (·.setTier 2)
  update (Registration.check p)
  gated config do
    update (·.setTier 3)
    checkContents (tiers config depth) config p

/-- A package without a manifest goes on to the second tier in any case. -/
theorem tiers_succ (config : Config) (depth : Nat) (p : Package) (hasManifest : Bool) :
    tiers config (depth + 1) p hasManifest = (do
      update (·.setTier 1)
      if hasManifest then
        update (Layout.check config p)
        gated config (laterTiers config depth p)
      else laterTiers config depth p) := by
  cases hasManifest <;> rfl

/-- Check a file, unless it is excluded. -/
def examine (audit : Package → Bool → Audit Unit) (config : Config) (p : Package) (path : String) :
    Audit Unit :=
  if config.excludes path then pure () else checkFile audit config p path

theorem checkFiles_cons (audit : Package → Bool → Audit Unit) (config : Config) (p : Package)
    (path : String) (rest : List String) :
    checkFiles audit config p (path :: rest) = (do
      checkDeadline
      examine audit config p path
      checkFiles audit config p rest) := by
  rw [checkFiles, examine]
  cases config.excludes path <;> rfl

/-- A package in a file ends the audit if it cannot be read, is audited if it opens, and is reported
if it does not. -/
theorem checkPackage_cases (audit : Package → Bool → Audit Unit) (p : Package) (path : String)
    (isAddon : Bool) :
    (∃ e, p.read path = .error e ∧ checkPackage audit p path isAddon = throw (.package e)) ∨
      (∃ data q, p.read path = .ok data ∧ Package.ofArchive path data = .ok q ∧
        checkPackage audit p path isAddon = within path (audit q isAddon)) ∨
      ∃ data e f, p.read path = .ok data ∧ Package.ofArchive path data = .error e ∧
        f.file = some path ∧ checkPackage audit p path isAddon = update (·.add .warning f) := by
  unfold checkPackage
  cases p.read path with
  | error e => exact .inl ⟨e, rfl, rfl⟩
  | ok data =>
      simp only [ofRead, pure_bind]
      cases opened : Package.ofArchive path data with
      | ok q => exact .inr (.inl ⟨data, q, rfl, opened, rfl⟩)
      | error e => exact .inr (.inr ⟨data, e, _, rfl, opened, rfl, rfl⟩)

/-- Rules by which the checks of files have a property that may depend on the path. The audits of
packages in files have a property of their own, and the packages that are read are of some kind. -/
structure FileRules (config : Config) (IsKind : Package → Prop) (J : Audit Unit → Prop)
    (About : String → Audit Unit → Prop) : Prop where
  skip : ∀ path, About path (pure ())
  report : ∀ {path f}, IsRun (Step.IsAbout path) f → About path (update f)
  analyse : ∀ {path check}, IsAnalysis path check → About path (analyse config path check)
  within : ∀ {path x}, J x → About path (within path x)
  unread : ∀ {p : Package} {path e}, IsKind p → path ∈ p.paths → p.read path = .error e →
    About path (throw (.package e))
  opened : ∀ {path data inner}, Package.ofArchive path data = .ok inner → IsKind inner

/-- Rules by which audits have a property. -/
structure Rules (config : Config) (IsKind : Package → Prop) (J : Audit Unit → Prop)
    (About : String → Audit Unit → Prop) : Prop extends FileRules config IsKind J About where
  done : J (pure ())
  seq : ∀ {x y : Audit Unit}, J x → J y → J (do x; y)
  gate : ∀ {x}, J x → J (gated config x)
  deadline : J checkDeadline
  tier : ∀ n, J (update (·.setTier n))
  change : ∀ {f}, IsRun Step.IsLocal f → J (update f)
  about : ∀ {path x}, About path x → J x

variable {config : Config} {IsKind : Package → Prop} {J : Audit Unit → Prop}
  {About : String → Audit Unit → Prop} {audit : Package → Bool → Audit Unit} {p : Package}
  {path : String}

section File

variable (K : FileRules config IsKind J About) (kind : IsKind p) (mem : path ∈ p.paths)

include K kind mem

/-- What is read is there, or the audit ends. -/
theorem FileRules.ofReadText {f : List Char → Audit Unit} (h : ∀ source, About path (f source)) :
    About path (ofRead (p.readText path) >>= f) := by
  rw [Package.readText]
  cases found : p.read path with
  | ok data => exact h _
  | error e => exact K.unread kind mem found

theorem FileRules.checkPackage (inner : ∀ q isAddon, IsKind q → J (audit q isAddon))
    (isAddon : Bool) : About path (checkPackage audit p path isAddon) := by
  rcases checkPackage_cases audit p path isAddon with
    ⟨e, failed, same⟩ | ⟨data, q, -, opened, same⟩ | ⟨data, e, f, -, -, here, same⟩
  · rw [same]
    exact K.unread kind mem failed
  · rw [same]
    exact K.within (inner q isAddon (K.opened opened))
  · rw [same]
    exact K.report (isRun_addAbout .warning here)

/-- The check of a file has the property, by the role of the file. -/
theorem FileRules.checkFile (inner : ∀ q isAddon, IsKind q → J (audit q isAddon)) :
    About path (checkFile audit config p path) := by
  unfold Audit.checkFile
  cases Role.of? path with
  | none => exact K.skip path
  | some role =>
      cases role with
      | script =>
          simp only
          split
          · exact K.ofReadText kind mem fun source => K.analyse (.script source)
          · exact K.skip path
      | markup => exact K.ofReadText kind mem fun source => K.analyse (.markup source)
      | stylesheet =>
          exact K.ofReadText kind mem fun source => K.report (Stylesheet.isRun_check path source)
      | package isAddon => exact K.checkPackage kind mem inner isAddon

theorem FileRules.examine (inner : ∀ q isAddon, IsKind q → J (audit q isAddon)) :
    About path (examine audit config p path) := by
  unfold Audit.examine
  split
  · exact K.skip path
  · exact K.checkFile kind mem inner

end File

theorem isRun_noteLibraries (config : Config) (p : Package) :
    IsRun Step.IsLocal (noteLibraries config p) := by
  show IsRun Step.IsLocal fun b => noteLibraries config p b
  unfold noteLibraries
  split
  · exact .nothing
  · exact isRun_setMeta ..

theorem noteLibraries_sameRecords (config : Config) (p : Package) (b : Bundle) :
    SameRecords b (noteLibraries config p b) := by
  unfold noteLibraries
  split
  · exact .refl b
  · exact .of_lists rfl rfl rfl rfl rfl rfl

/-- The contents are the files, and after these the note of the libraries if the audit goes on. -/
theorem checkContents_bundle (audit : Package → Bool → Audit Unit) (config : Config) (p : Package)
    (s : Session) :
    let files := (checkFiles audit config p p.paths s).2.bundle
    (checkContents audit config p s).2.bundle = files ∨
      (checkContents audit config p s).2.bundle = noteLibraries config p files := by
  unfold checkContents
  generalize checked : checkFiles audit config p p.paths s = outcome
  obtain ⟨_ | _, t⟩ := outcome
  · rw [bind_error checked]
    exact .inl rfl
  · rw [bind_ok checked]
    exact .inr rfl

theorem checkContents_records (audit : Package → Bool → Audit Unit) (config : Config) (p : Package)
    (s : Session) (severity : Severity) :
    (checkContents audit config p s).2.bundle.records severity =
      (checkFiles audit config p p.paths s).2.bundle.records severity := by
  rcases checkContents_bundle audit config p s with same | same
  · rw [same]
  · rw [same]
    exact (noteLibraries_sameRecords config p _).records severity

namespace Rules

variable (K : Rules config IsKind J About)

include K

theorem checkFiles (inner : ∀ q isAddon, IsKind q → J (audit q isAddon)) (kind : IsKind p)
    {list : List String} (listed : ∀ path ∈ list, path ∈ p.paths) :
    J (checkFiles audit config p list) := by
  induction list with
  | nil => exact K.done
  | cons path rest ih =>
      obtain ⟨head, tail⟩ := List.forall_mem_cons.1 listed
      rw [checkFiles_cons]
      exact K.seq K.deadline (K.seq (K.about (K.examine kind head inner)) (ih tail))

theorem checkContents (inner : ∀ q isAddon, IsKind q → J (audit q isAddon)) (kind : IsKind p) :
    J (checkContents audit config p) :=
  K.seq (K.checkFiles inner kind fun _ mem => mem) (K.change (isRun_noteLibraries config p))

/-- The audit of a package has the property, down to any depth. -/
theorem tiers (depth : Nat) (p : Package) (kind : IsKind p) (hasManifest : Bool) :
    J (tiers config depth p hasManifest) := by
  induction depth generalizing p hasManifest with
  | zero => exact K.done
  | succ depth ih =>
      have later : J (laterTiers config depth p) := by
        refine K.seq (K.tier 2) (K.seq (K.change (Registration.isRun_check p)) (K.gate ?_))
        exact K.seq (K.tier 3) (K.checkContents (fun q isAddon inside => ih q inside isAddon) kind)
      rw [tiers_succ]
      refine K.seq (K.tier 1) ?_
      cases hasManifest with
      | true => exact K.seq (K.change (Layout.isRun_check config p)) (K.gate later)
      | false => exact later

end Rules

end AddonAudit.Audit
