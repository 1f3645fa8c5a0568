import AddonAudit.Proofs.Audit.Rules
import AddonAudit.Proofs.Bracket
import Mathlib.Order.Bounds.Basic

/-!
# Every way out unwinds

An audit can end in the middle: at the deadline, at a fault, at a file that cannot be read, and all
of this inside of packages in packages. On every way out each package that was entered has been
left, and the tier of the outer package is in force again. The ending tier is a high-water mark of
all the tiers that were entered on the way, described here by `Enters` without the mark.
-/

namespace AddonAudit

namespace Bundle

theorem leave_endingTier (b : Bundle) : b.leave.2.endingTier = b.endingTier := by
  unfold leave
  split <;> rfl

end Bundle

namespace Audit

open Bundle

variable {config : Config} {audit : Package → Bool → Audit Unit} {p q : Package} {path : String}
  {isAddon hasManifest : Bool} {s t u : Session} {depth : Nat}

/-! ## Packages that were entered are left -/

/-- On every way out of an audit the same packages are open as before. -/
def Unwinds (x : Audit Unit) : Prop :=
  ∀ s, SameStacks s.bundle (x s).2.bundle

theorem recordFault_sameSetting (file : String) (f : Script.Fault) (b : Bundle) :
    b.SameSetting (recordFault file f b) := by
  have added := push_sameSetting .error (faultFinding file f) { b with tier := 1 }
  exact { added with tier := rfl }

/-- The analysis of a file changes nothing but records, also if it has a fault. -/
theorem analyse_sameSetting {check : Script.Options → Session → Except Script.Fault Unit × Session}
    (h : IsAnalysis path check) (s : Session) :
    s.bundle.SameSetting (analyse config path check s).2.bundle := by
  have kept := h.sameSetting { strict := config.strict } s
  have ends := analyse_ends config path check s
  generalize check { strict := config.strict } s = checked,
    analyse config path check s = ended at kept ends
  cases ends with
  | well | late | raised => exact kept
  | recorded t f => exact kept.trans (recordFault_sameSetting path f t.bundle)

theorem within_unwinds (name : String) (x : Audit Unit) (unwinds : Unwinds x) :
    Unwinds (within name x) := by
  intro s
  exact { (unwinds (s.update (·.enter name))).leave with }

theorem Unwinds.seq {x y : Audit Unit} (first : Unwinds x) (second : Unwinds y) :
    Unwinds (do x; y) := by
  intro s
  have same := first s
  generalize start : x s = outcome at same
  obtain ⟨_ | _, t⟩ := outcome
  · rw [bind_error start]
    exact same
  · rw [bind_ok start]
    exact same.trans (second t)

/-- Every step and every way to put audits together unwinds. -/
theorem unwinds_rules : Rules config (fun _ => True) Unwinds fun _ => Unwinds where
  skip _ _ := .refl _
  report run s := (run.sameSetting s.bundle).sameStacks
  analyse h s := (analyse_sameSetting h s).sameStacks
  within unwinds := within_unwinds _ _ unwinds
  unread _ _ _ _ := .refl _
  opened _ := trivial
  done _ := .refl _
  seq := .seq
  gate := by
    intro x unwinds s
    rw [gated_apply]
    split
    · exact .refl _
    · exact unwinds s
  deadline s := by
    rw [checkDeadline_apply]
    exact .refl _
  tier _ _ := ⟨rfl, rfl⟩
  change run s := (run.samePlace s.bundle).sameStacks
  about unwinds := unwinds

theorem tiers_unwinds (depth : Nat) (p : Package) (hasManifest : Bool) :
    Unwinds (tiers config depth p hasManifest) :=
  unwinds_rules.tiers depth p trivial hasManifest

/-! ## Packages in files -/

/-- A file that is not excluded holds a package that opens. -/
structure Nested (config : Config) (p : Package) (path : String) (q : Package) (isAddon : Bool) :
    Prop where
  included : config.excludes path = false
  role : Role.of? path = some (.package isAddon)
  opens : ∃ data, p.read path = .ok data ∧ Package.ofArchive path data = .ok q

/-- What a file holds is one package. -/
theorem Nested.unique {r : Package} {isAddon' : Bool} (h : Nested config p path q isAddon)
    (h' : Nested config p path r isAddon') : q = r ∧ isAddon = isAddon' := by
  obtain ⟨data, found, opened⟩ := h.opens
  obtain ⟨data', found', opened'⟩ := h'.opens
  have role := h.role.symm.trans h'.role
  obtain rfl : data = data' := Except.ok.inj (found.symm.trans found')
  exact ⟨Except.ok.inj (opened.symm.trans opened'), Role.package.inj (Option.some.inj role)⟩

theorem examine_of_nested (h : Nested config p path q isAddon) :
    examine audit config p path = within path (audit q isAddon) := by
  obtain ⟨data, found, opened⟩ := h.opens
  have unpacked : checkPackage audit p path isAddon = within path (audit q isAddon) := by
    rcases checkPackage_cases audit p path isAddon with
      ⟨e, failed, -⟩ | ⟨data', q', found', opened', same⟩ | ⟨data', e, f, found', corrupt, -, -⟩
    · exact nomatch found.symm.trans failed
    · cases found.symm.trans found'
      cases opened.symm.trans opened'
      exact same
    · cases found.symm.trans found'
      exact nomatch opened.symm.trans corrupt
  rw [examine, if_neg (Bool.eq_false_iff.1 h.included)]
  unfold checkFile
  rw [h.role]
  exact unpacked

theorem ofRead_sameSetting {α : Type} {r : Except PackageError α} {f : α → Audit Unit}
    (h : ∀ a (s : Session), s.bundle.SameSetting (f a s).2.bundle) (s : Session) :
    s.bundle.SameSetting ((ofRead r >>= f) s).2.bundle := by
  cases r with
  | ok a => exact h a s
  | error e => exact .refl _

/-- A file without a package that opens does not depend on how packages are audited. -/
theorem examine_of_absent (other : Package → Bool → Audit Unit)
    (absent : ∀ q isAddon, ¬ Nested config p path q isAddon) :
    examine audit config p path = examine other config p path := by
  unfold examine
  split
  · rfl
  next included =>
    unfold checkFile
    cases role : Role.of? path with
    | none => rfl
    | some kind =>
        cases kind with
        | script | markup | stylesheet => rfl
        | package isAddon =>
            simp only [checkPackage]
            cases found : p.read path with
            | error e => rfl
            | ok data =>
                simp only [ofRead, pure_bind]
                cases opened : Package.ofArchive path data with
                | error e => rfl
                | ok q =>
                    exact absurd ⟨Bool.eq_false_of_not_eq_true included, role, data, found, opened⟩
                      (absent q isAddon)

/-- A file without a package that opens changes nothing but records. -/
theorem examine_sameSetting (absent : ∀ q isAddon, ¬ Nested config p path q isAddon) (s : Session) :
    s.bundle.SameSetting (examine audit config p path s).2.bundle := by
  unfold examine
  split
  · exact .refl _
  next included =>
    unfold checkFile
    cases role : Role.of? path with
    | none => exact .refl _
    | some kind =>
        cases kind with
        | script =>
            simp only
            split
            · exact ofRead_sameSetting (fun source => analyse_sameSetting (.script source)) s
            · exact .refl _
        | markup => exact ofRead_sameSetting (fun source => analyse_sameSetting (.markup source)) s
        | stylesheet =>
            refine ofRead_sameSetting (fun source s => ?_) s
            exact (Stylesheet.isRun_check path source).sameSetting s.bundle
        | package isAddon =>
            show s.bundle.SameSetting (checkPackage audit p path isAddon s).2.bundle
            rcases checkPackage_cases audit p path isAddon with
              ⟨e, -, same⟩ | ⟨data, q, found, opened, -⟩ | ⟨data, e, f, -, -, -, same⟩
            · rw [same]
              exact .refl _
            · exact absurd ⟨Bool.eq_false_of_not_eq_true included, role, data, found, opened⟩
                (absent q isAddon)
            · rw [same]
              exact push_sameSetting ..

/-- The tier, the packages around and the resources of the package are as they were before. -/
structure Restored (b c : Bundle) : Prop extends SameStacks b c where
  tier : c.tier = b.tier
  resources : c.resources = b.resources

theorem restored_of_sameSetting {b c : Bundle} (h : SameSetting b c) : Restored b c :=
  ⟨h.sameStacks, h.tier, h.resources⟩

/-- A package in a file restores what it found. -/
theorem within_restores {x : Audit Unit} (unwinds : Unwinds x) (name : String) (s : Session) :
    Restored s.bundle (within name x s).2.bundle := by
  refine ⟨within_unwinds name x unwinds s, rfl, ?_⟩
  have inside : (x (s.update (·.enter name))).2.bundle.outer =
      ⟨name, s.bundle.metadata, s.bundle.tree, s.bundle.resources, s.bundle.detected⟩ ::
        s.bundle.outer := (unwinds _).outer
  show ((x (s.update (·.enter name))).2.bundle.leave.2).resources = s.bundle.resources
  rw [leave, inside]

/-- A file restores what it found, whether the package in it can be read and opened or not. -/
theorem checkPackage_restores (unwinds : ∀ q, Unwinds (audit q isAddon)) (s : Session) :
    Restored s.bundle (checkPackage audit p path isAddon s).2.bundle := by
  rcases checkPackage_cases audit p path isAddon with
    ⟨e, -, same⟩ | ⟨data, q, -, -, same⟩ | ⟨data, e, f, -, -, -, same⟩
  · rw [same]
    exact restored_of_sameSetting (.refl _)
  · rw [same]
    exact within_restores (unwinds q) path s
  · rw [same]
    exact restored_of_sameSetting (push_sameSetting ..)

/-! ## The tiers that an audit enters -/

/-- The first tier. -/
def firstTier (config : Config) (p : Package) (hasManifest : Bool) (b : Bundle) : Bundle :=
  if hasManifest then Layout.check config p (b.setTier 1) else b.setTier 1

/-- The second tier. -/
def secondTier (p : Package) (b : Bundle) : Bundle :=
  Registration.check p (b.setTier 2)

/-- Whether the audit of a package goes on to the second tier. -/
def passesFirst (config : Config) (p : Package) (hasManifest : Bool) (b : Bundle) : Bool :=
  !(hasManifest && halts config (firstTier config p hasManifest b))

theorem tiers_apply (config : Config) (depth : Nat) (p : Package) (hasManifest : Bool)
    (s : Session) :
    tiers config (depth + 1) p hasManifest s =
      if passesFirst config p hasManifest s.bundle then
        laterTiers config depth p (s.update (firstTier config p hasManifest))
      else (.ok (), s.update (firstTier config p hasManifest)) := by
  rw [tiers_succ]
  cases hasManifest with
  | false => rfl
  | true =>
      have checked : (fun b => Layout.check config p (b.setTier 1)) = firstTier config p true := rfl
      rw [if_pos rfl, ← bind_assoc, update_update, checked, bind_ok (update_apply _ s),
        gated_apply, passesFirst, Bool.true_and]
      show (if halts config (firstTier config p true s.bundle) then _ else _) = _
      cases halts config (firstTier config p true s.bundle) with
      | true => rfl
      | false => rfl

theorem laterTiers_apply (config : Config) (depth : Nat) (p : Package) (s : Session) :
    laterTiers config depth p s =
      if halts config (secondTier p s.bundle) then (.ok (), s.update (secondTier p))
      else checkContents (tiers config depth) config p
        (s.update fun b => (secondTier p b).setTier 3) := by
  have started : laterTiers config depth p = (do
      update (secondTier p)
      gated config do
        update (·.setTier 3)
        checkContents (tiers config depth) config p) := rfl
  rw [started, bind_ok (update_apply (secondTier p) s), gated_apply]
  rfl

theorem bundle_of_checkDeadline {r : Except AuditError Unit} (looked : checkDeadline s = (r, t)) :
    t.bundle = s.bundle := by
  rw [checkDeadline_apply] at looked
  rw [← (Prod.mk.inj looked).2]

/-- Where an audit comes to a file in a list: the deadline has not passed, and no file before has
ended the audit. -/
inductive ComesTo (audit : Package → Bool → Audit Unit) (config : Config) (p : Package) :
    List String → Session → String → Session → Prop where
  | here {path : String} {rest : List String} {s t : Session} :
      checkDeadline s = (.ok (), t) → ComesTo audit config p (path :: rest) s path t
  | later {path other : String} {rest : List String} {s t u v : Session} :
      checkDeadline s = (.ok (), t) → examine audit config p path t = (.ok (), u) →
      ComesTo audit config p rest u other v → ComesTo audit config p (path :: rest) s other v

theorem comesTo_cons_iff {rest : List String} {other : String}
    (looked : checkDeadline s = (.ok (), t)) :
    ComesTo audit config p (path :: rest) s other u ↔ other = path ∧ u = t ∨
      ∃ v, examine audit config p path t = (.ok (), v) ∧ ComesTo audit config p rest v other u := by
  constructor
  · intro comes
    cases comes with
    | here looked' =>
        cases looked.symm.trans looked'
        exact .inl ⟨rfl, rfl⟩
    | later looked' examined comes =>
        cases looked.symm.trans looked'
        exact .inr ⟨_, examined, comes⟩
  · rintro (⟨rfl, rfl⟩ | ⟨v, examined, comes⟩)
    · exact .here looked
    · exact .later looked examined comes

theorem not_comesTo {rest : List String} {other : String} {e : AuditError}
    (late : checkDeadline s = (.error e, t)) :
    ¬ ComesTo audit config p (path :: rest) s other u := by
  intro comes
  cases comes with
  | here looked => exact nomatch late.symm.trans looked
  | later looked => exact nomatch late.symm.trans looked

/-- The tiers that the audit of a package enters, those of the packages inside included. -/
inductive Enters (config : Config) : Nat → Package → Bool → Session → Nat → Prop where
  | first {depth : Nat} {p : Package} {hasManifest : Bool} {s : Session} :
      Enters config (depth + 1) p hasManifest s 1
  | second {depth : Nat} {p : Package} {hasManifest : Bool} {s : Session} :
      passesFirst config p hasManifest s.bundle → Enters config (depth + 1) p hasManifest s 2
  | third {depth : Nat} {p : Package} {hasManifest : Bool} {s : Session} :
      passesFirst config p hasManifest s.bundle →
      ¬ halts config (secondTier p (firstTier config p hasManifest s.bundle)) →
      Enters config (depth + 1) p hasManifest s 3
  | inner {depth : Nat} {p q : Package} {hasManifest isAddon : Bool} {s u : Session} {path : String}
      {n : Nat} :
      passesFirst config p hasManifest s.bundle →
      ¬ halts config (secondTier p (firstTier config p hasManifest s.bundle)) →
      ComesTo (tiers config depth) config p p.paths
        (s.update fun b => (secondTier p (firstTier config p hasManifest b)).setTier 3) path u →
      Nested config p path q isAddon → Enters config depth q isAddon (u.update (·.enter path)) n →
      Enters config (depth + 1) p hasManifest s n

/-- A mark was raised to the greatest of some numbers, or stayed where it was. -/
def Peak (old : Nat) (E : Nat → Prop) (new : Nat) : Prop :=
  IsGreatest {n | n = old ∨ E n} new

namespace Peak

variable {E F : Nat → Prop} {a b c : Nat}

theorem still (unmatched : ∀ n, ¬ E n) : Peak a E a := by
  refine ⟨.inl rfl, ?_⟩
  rintro n (rfl | member)
  · exact Nat.le_refl n
  · exact absurd member (unmatched n)

/-- Marks in sequence: all numbers of both count. -/
theorem trans (h : Peak a E b) (k : Peak b F c) : Peak a (fun n => E n ∨ F n) c := by
  have below : b ≤ c := k.2 (.inl rfl)
  constructor
  · rcases k.1 with rfl | member
    · rcases h.1 with same | member
      · exact .inl same
      · exact .inr (.inl member)
    · exact .inr (.inr member)
  · rintro n (rfl | member | member)
    · exact (h.2 (.inl rfl)).trans below
    · exact (h.2 (.inr member)).trans below
    · exact k.2 (.inr member)

theorem congr (h : Peak a E b) (same : ∀ n, E n ↔ F n) : Peak a F b := by
  have sets : {n | n = a ∨ E n} = {n | n = a ∨ F n} := by
    ext n
    simp only [Set.mem_ofPred_eq, same]
  exact (congrArg (IsGreatest · b) sets).mp h

theorem setTier (n : Nat) (b : Bundle) : Peak b.endingTier (· = n) (b.setTier n).endingTier := by
  constructor
  · rcases Nat.le_total b.endingTier n with le | le
    · exact .inr (Nat.max_eq_right le)
    · exact .inl (Nat.max_eq_left le)
  · rintro m (rfl | rfl)
    · exact Nat.le_max_left ..
    · exact Nat.le_max_right ..

end Peak

variable {E : Package → Bool → Session → Nat → Prop}

/-- A file raises the mark only through the package that it holds. -/
theorem examine_peak (config : Config) (p : Package)
    (inner : ∀ q isAddon u,
      Peak u.bundle.endingTier (E q isAddon u) (audit q isAddon u).2.bundle.endingTier)
    (path : String) (s : Session) :
    Peak s.bundle.endingTier
      (fun n => ∃ q isAddon, Nested config p path q isAddon ∧
        E q isAddon (s.update (·.enter path)) n)
      (examine audit config p path s).2.bundle.endingTier := by
  by_cases held : ∃ q isAddon, Nested config p path q isAddon
  · obtain ⟨q, isAddon, nested⟩ := held
    have raised := inner q isAddon (s.update (·.enter path))
    have left : (examine audit config p path s).2.bundle.endingTier =
        (audit q isAddon (s.update (·.enter path))).2.bundle.endingTier := by
      rw [examine_of_nested nested]
      exact leave_endingTier _
    rw [left]
    refine raised.congr fun n => ⟨fun member => ⟨q, isAddon, nested, member⟩, ?_⟩
    rintro ⟨q', isAddon', other, member⟩
    obtain ⟨rfl, rfl⟩ := nested.unique other
    exact member
  · have absent : ∀ q isAddon, ¬ Nested config p path q isAddon :=
      fun q isAddon nested => held ⟨q, isAddon, nested⟩
    rw [(examine_sameSetting absent s).endingTier]
    refine .still ?_
    rintro n ⟨q, isAddon, nested, -⟩
    exact absent q isAddon nested

/-- Files raise the mark to the greatest tier that is entered in a package that the audit comes
to. -/
theorem checkFiles_peak (config : Config) (p : Package)
    (inner : ∀ q isAddon u,
      Peak u.bundle.endingTier (E q isAddon u) (audit q isAddon u).2.bundle.endingTier)
    (list : List String) (s : Session) :
    Peak s.bundle.endingTier
      (fun n => ∃ path u q isAddon, ComesTo audit config p list s path u ∧
        Nested config p path q isAddon ∧ E q isAddon (u.update (·.enter path)) n)
      (checkFiles audit config p list s).2.bundle.endingTier := by
  induction list generalizing s with
  | nil =>
      refine .still ?_
      rintro n ⟨_, _, _, _, comes, -⟩
      cases comes
  | cons path rest ih =>
      rw [checkFiles_cons]
      generalize looked : checkDeadline s = outcome
      obtain ⟨_ | _, t⟩ := outcome
      · rw [bind_error looked, bundle_of_checkDeadline looked]
        refine .still ?_
        rintro n ⟨_, _, _, _, comes, -⟩
        exact not_comesTo looked comes
      simp only [comesTo_cons_iff looked]
      have first := examine_peak config p inner path t
      rw [bundle_of_checkDeadline looked] at first
      rw [bind_ok looked]
      generalize examined : examine audit config p path t = outcome at first
      obtain ⟨_ | _, u⟩ := outcome
      · rw [bind_error examined]
        refine first.congr fun n => ⟨?_, ?_⟩
        · rintro ⟨q, isAddon, nested, member⟩
          exact ⟨path, t, q, isAddon, .inl ⟨rfl, rfl⟩, nested, member⟩
        · rintro ⟨_, _, q, isAddon, ⟨rfl, rfl⟩ | ⟨v, ended, -⟩, nested, member⟩
          · exact ⟨q, isAddon, nested, member⟩
          · exact nomatch ended
      · rw [bind_ok examined]
        refine (first.trans (ih u)).congr fun n => ⟨?_, ?_⟩
        · rintro (⟨q, isAddon, nested, member⟩ | ⟨path', v, q, isAddon, comes, inside⟩)
          · exact ⟨path, t, q, isAddon, .inl ⟨rfl, rfl⟩, nested, member⟩
          · exact ⟨path', v, q, isAddon, .inr ⟨u, rfl, comes⟩, inside⟩
        · rintro ⟨path', v, q, isAddon, ⟨rfl, rfl⟩ | ⟨u', ended, comes⟩, nested, member⟩
          · exact .inl ⟨q, isAddon, nested, member⟩
          · cases ended
            exact .inr ⟨path', v, q, isAddon, comes, nested, member⟩

theorem not_enters_zero (n : Nat) : ¬ Enters config 0 p hasManifest s n := nofun

/-- The tiers that an audit enters, in the order in which it can come to them. -/
theorem enters_succ_iff {n : Nat} :
    Enters config (depth + 1) p hasManifest s n ↔ n = 1 ∨
      passesFirst config p hasManifest s.bundle ∧ (n = 2 ∨
        ¬ halts config (secondTier p (firstTier config p hasManifest s.bundle)) ∧ (n = 3 ∨
          ∃ path u q isAddon, ComesTo (tiers config depth) config p p.paths
            (s.update fun b => (secondTier p (firstTier config p hasManifest b)).setTier 3) path u ∧
            Nested config p path q isAddon ∧
            Enters config depth q isAddon (u.update (·.enter path)) n)) := by
  constructor
  · intro enters
    cases enters with
    | first => exact .inl rfl
    | second passed => exact .inr ⟨passed, .inl rfl⟩
    | third passed goes => exact .inr ⟨passed, .inr ⟨goes, .inl rfl⟩⟩
    | inner passed goes comes nested member =>
        exact .inr ⟨passed, .inr ⟨goes, .inr ⟨_, _, _, _, comes, nested, member⟩⟩⟩
  · rintro (rfl | ⟨passed, rfl | ⟨goes, rfl | ⟨path, u, q, isAddon, comes, nested, member⟩⟩⟩)
    · exact .first
    · exact .second passed
    · exact .third passed goes
    · exact .inner passed goes comes nested member

theorem firstTier_peak (config : Config) (p : Package) (hasManifest : Bool) (b : Bundle) :
    Peak b.endingTier (· = 1) (firstTier config p hasManifest b).endingTier := by
  have same : (firstTier config p hasManifest b).endingTier = (b.setTier 1).endingTier := by
    unfold firstTier
    split
    · exact ((Layout.isRun_check config p).samePlace _).endingTier
    · rfl
  rw [same]
  exact .setTier 1 b

theorem secondTier_peak (p : Package) (b : Bundle) :
    Peak b.endingTier (· = 2) (secondTier p b).endingTier := by
  have same := ((Registration.isRun_check p).samePlace (b.setTier 2)).endingTier
  rw [secondTier, same]
  exact .setTier 2 b

theorem checkContents_endingTier (audit : Package → Bool → Audit Unit) (s : Session) :
    (checkContents audit config p s).2.bundle.endingTier =
      (checkFiles audit config p p.paths s).2.bundle.endingTier := by
  rcases checkContents_bundle audit config p s with same | same
  · rw [same]
  · rw [same]
    exact ((isRun_noteLibraries config p).samePlace _).endingTier

/-- The ending tier is raised to the greatest tier that is entered anywhere. -/
theorem tiers_peak (depth : Nat) (p : Package) (hasManifest : Bool) (s : Session) :
    Peak s.bundle.endingTier (Enters config depth p hasManifest s)
      (tiers config depth p hasManifest s).2.bundle.endingTier := by
  induction depth generalizing p hasManifest s with
  | zero => exact .still not_enters_zero
  | succ depth ih =>
      have first := firstTier_peak config p hasManifest s.bundle
      rw [tiers_apply]
      split
      next passed =>
        have second := first.trans (secondTier_peak p _)
        rw [laterTiers_apply]
        split
        next halted =>
          refine second.congr fun n => ?_
          have halted : halts config (secondTier p (firstTier config p hasManifest s.bundle)) :=
            halted
          simp [enters_succ_iff, passed, halted]
        next goes =>
          have goes : ¬ halts config (secondTier p (firstTier config p hasManifest s.bundle)) :=
            goes
          have third := second.trans (.setTier 3 _)
          have inside := checkFiles_peak config p ih p.paths
            (s.update fun b => (secondTier p (firstTier config p hasManifest b)).setTier 3)
          rw [checkContents_endingTier]
          refine (third.trans inside).congr fun n => ?_
          simp [enters_succ_iff, passed, goes, or_assoc]
      next stopped =>
        refine first.congr fun n => ?_
        simp [enters_succ_iff, stopped]

/-- An audit to any depth has left the packages that it has entered, and the ending tier says how
far it came. -/
theorem tiers_ends (config : Config) (depth : Nat) (p : Package) (hasManifest : Bool)
    (s : Session) :
    let after := (tiers config depth p hasManifest s).2.bundle
    after.outer = s.bundle.outer ∧ after.packageStack = s.bundle.packageStack ∧
      IsGreatest {n | n = s.bundle.endingTier ∨ Enters config depth p hasManifest s n}
        after.endingTier := by
  have same : SameStacks s.bundle (tiers config depth p hasManifest s).2.bundle :=
    tiers_unwinds depth p hasManifest s
  exact ⟨same.outer, same.packageStack, tiers_peak depth p hasManifest s⟩

/-- However an audit ends, the packages that were open before it are open after it, each with its
resources, and their names are still those on the stack of names. The ending tier is the greatest
among its old value and all the tiers that were entered. This holds for every depth to which
packages in packages are followed, and so for a whole run. After every package in a file, at any
depth, the tier before it is in force again and the resources before it are shared again. -/
theorem run_unwinds (config : Config) (p : Package) (s : Session) :
    (∀ depth hasManifest, let after := (tiers config depth p hasManifest s).2.bundle
      after.outer = s.bundle.outer ∧ after.packageStack = s.bundle.packageStack ∧
      IsGreatest {n | n = s.bundle.endingTier ∨ Enters config depth p hasManifest s n}
        after.endingTier) ∧
    (run config p s).2.bundle.outer = s.bundle.outer ∧
    (run config p s).2.bundle.packageStack = s.bundle.packageStack ∧
    (∀ depth q path isAddon u,
      let after := (checkPackage (tiers config depth) q path isAddon u).2.bundle
      after.tier = u.bundle.tier ∧ after.outer = u.bundle.outer ∧
      after.packageStack = u.bundle.packageStack ∧ after.resources = u.bundle.resources) ∧
    IsGreatest {n | n = s.bundle.endingTier ∨ Enters config (Audit.depth p) p true s n}
      (run config p s).2.bundle.endingTier := by
  obtain ⟨outer, names, ending⟩ := tiers_ends config (Audit.depth p) p true s
  refine ⟨fun depth hasManifest => tiers_ends config depth p hasManifest s, outer,
    names, ?_, ending⟩
  intro depth q path isAddon u
  have restored : Restored u.bundle (checkPackage (tiers config depth) q path isAddon u).2.bundle :=
    checkPackage_restores (fun r => tiers_unwinds depth r isAddon) u
  exact ⟨restored.tier, restored.outer, restored.packageStack, restored.resources⟩

end Audit

end AddonAudit
