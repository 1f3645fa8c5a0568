import AddonAudit.Audit.Layout
import AddonAudit.Audit.Registration
import AddonAudit.Check.Stylesheet
import AddonAudit.Proofs.Run
import AddonAudit.Script.Analysis

/-!
# Checks that read nothing

The checks of manifests, registrations, stylesheets and lines look at files only. What they do to a
bundle is the same run of steps whatever the bundle is, and the steps are of few kinds. So all that
such a check leaves alone, in one bundle or in two at once, follows from its steps.
-/

namespace AddonAudit

namespace Bundle

/-- A step that touches nothing but the records and the open package: it records a finding or keeps
something about the package. -/
inductive Step.IsLocal : Step → Prop where
  | push (s : Severity) (f : Finding) : IsLocal (.operation (.push s f))
  | describe (name : String) (value : Json) : IsLocal (.operation (.setMeta name value))
  | share (name : String) (value : Json) : IsLocal (.operation (.saveResource name value true))
  | detect (type : PackageType) : IsLocal (.detect type)

/-- A step that records a finding about a file. -/
inductive Step.IsAbout (file : String) : Step → Prop where
  | push (s : Severity) (f : Finding) (here : f.file = some file) :
      IsAbout file (.operation (.push s f))

/-- A change of bundles that is one run of steps for all of them. -/
def IsRun (P : Step → Prop) (f : Bundle → Bundle) : Prop :=
  ∃ steps, (∀ step ∈ steps, P step) ∧ ∀ b, f b = run steps b

namespace IsRun

variable {P : Step → Prop} {f g : Bundle → Bundle}

theorem nothing : IsRun P fun b => b :=
  ⟨[], fun _ mem => absurd mem List.not_mem_nil, fun _ => rfl⟩

theorem single (step : Step) (h : P step) : IsRun P step.apply :=
  ⟨[step], fun _ mem => List.mem_singleton.1 mem ▸ h, fun _ => rfl⟩

/-- One change after the other. -/
theorem andThen (first : IsRun P f) (second : IsRun P g) : IsRun P fun b => g (f b) := by
  obtain ⟨steps, allowed, same⟩ := first
  obtain ⟨others, allowed', same'⟩ := second
  refine ⟨steps ++ others, fun step mem => ?_, fun b => ?_⟩
  · rcases List.mem_append.1 mem with mem | mem
    · exact allowed step mem
    · exact allowed' step mem
  · simp only [same, same', run, List.foldl_append]

theorem foldl {α : Type} {step : Bundle → α → Bundle} (list : List α)
    (h : ∀ a ∈ list, IsRun P fun b => step b a) : IsRun P fun b => list.foldl step b := by
  induction list with
  | nil => exact nothing
  | cons a rest ih =>
      obtain ⟨head, tail⟩ := List.forall_mem_cons.1 h
      exact head.andThen (ih tail)

/-- What every step keeps of two bundles is kept by the change. -/
theorem induct₂ {R : Bundle → Bundle → Prop} (h : IsRun P f)
    (keeps : ∀ step b c, P step → R b c → R (step.apply b) (step.apply c)) {b c : Bundle}
    (start : R b c) : R (f b) (f c) := by
  obtain ⟨steps, allowed, same⟩ := h
  rw [same, same]
  clear same
  induction steps generalizing b c with
  | nil => exact start
  | cons step rest ih =>
      obtain ⟨head, tail⟩ := List.forall_mem_cons.1 allowed
      exact ih (keeps step b c head start) tail

/-- What every step keeps is kept by the change. -/
theorem induct {R : Bundle → Prop} (h : IsRun P f)
    (keeps : ∀ step b, P step → R b → R (step.apply b)) {b : Bundle} (start : R b) : R (f b) :=
  h.induct₂ (R := fun b _ => R b) (fun step b _ => keeps step b) (c := b) start

end IsRun

/-- Two bundles agree on the packages around, the tiers, the supported versions and what is shared
over the run. -/
structure SamePlace (b c : Bundle) : Prop where
  outer : c.outer = b.outer
  packageStack : c.packageStack = b.packageStack
  tier : c.tier = b.tier
  endingTier : c.endingTier = b.endingTier
  supported : c.supported = b.supported
  shared : c.shared = b.shared

theorem SamePlace.refl (b : Bundle) : SamePlace b b :=
  ⟨rfl, rfl, rfl, rfl, rfl, rfl⟩

theorem SamePlace.trans {b c d : Bundle} (h : SamePlace b c) (h' : SamePlace c d) :
    SamePlace b d where
  outer := h'.outer.trans h.outer
  packageStack := h'.packageStack.trans h.packageStack
  tier := h'.tier.trans h.tier
  endingTier := h'.endingTier.trans h.endingTier
  supported := h'.supported.trans h.supported
  shared := h'.shared.trans h.shared

theorem SameSetting.samePlace {b c : Bundle} (h : SameSetting b c) : SamePlace b c :=
  ⟨h.outer, h.packageStack, h.tier, h.endingTier, h.supported, h.shared⟩

theorem SamePlace.sameStacks {b c : Bundle} (h : SamePlace b c) : SameStacks b c :=
  ⟨h.outer, h.packageStack⟩

/-- A local step stays in its place. -/
theorem Step.IsLocal.samePlace {step : Step} (h : step.IsLocal) (b : Bundle) :
    SamePlace b (step.apply b) := by
  cases h with
  | push s f => exact (push_sameSetting s f b).samePlace
  | describe name value => exact ⟨rfl, rfl, rfl, rfl, rfl, rfl⟩
  | share name value => exact ⟨rfl, rfl, rfl, rfl, rfl, rfl⟩
  | detect type => exact ⟨rfl, rfl, rfl, rfl, rfl, rfl⟩

theorem IsRun.samePlace {f : Bundle → Bundle} (h : IsRun Step.IsLocal f) (b : Bundle) :
    SamePlace b (f b) :=
  h.induct (R := SamePlace b) (fun _ c isLocal same => same.trans (isLocal.samePlace c)) (.refl b)

theorem isRun_add (s : Severity) (f : Finding) : IsRun Step.IsLocal fun b => b.add s f :=
  .single (.operation (.push s f)) (.push s f)

theorem isRun_addAbout {file : String} (s : Severity) {f : Finding} (here : f.file = some file) :
    IsRun (Step.IsAbout file) fun b => b.add s f :=
  .single (.operation (.push s f)) (.push s f here)

theorem isRun_setMeta (name : String) (value : Json) :
    IsRun Step.IsLocal fun b => b.setMeta name value :=
  .single (.operation (.setMeta name value)) (.describe name value)

theorem isRun_share (name : String) (value : Json) :
    IsRun Step.IsLocal fun b => b.saveResource name value true :=
  .single (.operation (.saveResource name value true)) (.share name value)

theorem isRun_detect (type : PackageType) :
    IsRun Step.IsLocal fun b => { b with detected := type } :=
  .single (.detect type) (.detect type)

end Bundle

open Bundle

/-! ## Files -/

theorem Battery.isRun_checkLines (file : String) (lines : Text.Lines) (number : Nat)
    (rest : List (List Char)) : IsRun (Step.IsAbout file) (checkLines file lines number rest) := by
  induction rest generalizing number with
  | nil => exact .nothing
  | cons line rest ih =>
      have checked : IsRun (Step.IsAbout file) (checkLine file lines number line) :=
        .foldl _ fun t _ => .foldl _ fun m _ => isRun_addAbout t.severity rfl
      exact checked.andThen (ih (number + 1))

theorem Battery.isRun_checkScript (file : String) (source : List Char) :
    IsRun (Step.IsAbout file) (checkScript file source) :=
  isRun_checkLines ..

theorem Script.isRun_noteError (file : String) (lines : Text.Lines) (t : Script.Tree) :
    IsRun (Step.IsAbout file) (noteError file lines t) := by
  unfold noteError
  cases t.firstError? with
  | none => exact .nothing
  | some n => exact isRun_addAbout .notice rfl

theorem Stylesheet.isRun_reportBinding (file : String) (lines : Text.Lines) (m : Pattern.Match) :
    IsRun (Step.IsAbout file) (reportBinding file lines m) := by
  unfold reportBinding
  simp only
  split
  · exact isRun_addAbout .warning rfl
  · exact isRun_addAbout .notice rfl

theorem Stylesheet.isRun_check (file : String) (source : List Char) :
    IsRun (Step.IsAbout file) (check file source) :=
  .foldl _ fun m _ => isRun_reportBinding file _ m

/-! ## Manifests -/

namespace Install

theorem isRun_checkSpecial (name : String) (line : Nat) :
    IsRun Step.IsLocal (checkSpecial name line) := by
  unfold checkSpecial
  split
  · exact isRun_add ..
  · exact isRun_add ..
  · exact isRun_add ..
  · exact .nothing

theorem isRun_checkRepeated (isFirst : Bool) (name : String) (line : Nat) :
    IsRun Step.IsLocal (checkRepeated isFirst name line) := by
  unfold checkRepeated
  split
  · exact isRun_add ..
  · exact .nothing

theorem isRun_checkKnown (isFirst : Bool) (name : String) (line : Nat) :
    IsRun Step.IsLocal (checkKnown isFirst name line) := by
  unfold checkKnown
  split
  · exact isRun_add ..
  · exact .nothing

theorem isRun_checkProperties (seen : List String) (triples : List Rdf.Triple) :
    IsRun Step.IsLocal (checkProperties seen triples) := by
  induction triples generalizing seen with
  | nil => exact .nothing
  | cons t rest ih =>
      show IsRun Step.IsLocal fun b => checkProperties seen (t :: rest) b
      simp only [checkProperties]
      cases Text.dropText? Rdf.emUri t.predicate with
      | none => exact ih seen
      | some name =>
          exact (isRun_checkRepeated _ name t.line).andThen
            ((isRun_checkKnown _ name t.line).andThen
            ((isRun_checkSpecial name t.line).andThen (ih (name :: seen))))

theorem isRun_checkMissing (g : Rdf.Graph) (o : Overrides) :
    IsRun Step.IsLocal (checkMissing g o) := by
  unfold checkMissing
  split
  · exact .nothing
  · exact isRun_add ..

theorem isRun_checkId (g : Rdf.Graph) : IsRun Step.IsLocal (checkId g) := by
  unfold checkId
  split
  · exact .nothing
  · split
    · exact .nothing
    · exact isRun_add ..

theorem isRun_checkVersion (g : Rdf.Graph) : IsRun Step.IsLocal (checkVersion g) := by
  unfold checkVersion
  split
  · exact .nothing
  · split
    · exact .nothing
    · exact isRun_add ..

theorem isRun_checkTarget (t : Target) : IsRun Step.IsLocal fun b => checkTarget b t := by
  unfold checkTarget
  split
  · split
    · exact isRun_add ..
    · exact .nothing
  · exact isRun_add ..

theorem isRun_checkTargets (g : Rdf.Graph) (o : Overrides) :
    IsRun Step.IsLocal (checkTargets g o) := by
  have folded : IsRun Step.IsLocal fun b => (targets g o).foldl checkTarget b :=
    .foldl _ fun t _ => isRun_checkTarget t
  unfold checkTargets
  simp only
  split
  · exact folded
  · exact folded.andThen (isRun_setMeta ..)

theorem isRun_keepTexts (g : Rdf.Graph) : IsRun Step.IsLocal (keepTexts g) := by
  refine .foldl _ fun name _ => ?_
  split
  · exact isRun_setMeta ..
  · exact .nothing

theorem isRun_keepBootstrap (g : Rdf.Graph) : IsRun Step.IsLocal (keepBootstrap g) := by
  unfold keepBootstrap
  split
  · exact isRun_share ..
  · exact .nothing

theorem check_fst (g : Rdf.Graph) (o : Overrides) (b c : Bundle) :
    (check g o b).1 = (check g o c).1 := by
  unfold check
  split <;> rfl

theorem isRun_check (g : Rdf.Graph) (o : Overrides) :
    IsRun Step.IsLocal fun b => (check g o b).2 := by
  unfold check
  split
  · exact isRun_add ..
  · exact (isRun_checkProperties [] _).andThen ((isRun_checkMissing g o).andThen
      ((isRun_checkId g).andThen ((isRun_checkVersion g).andThen ((isRun_checkTargets g o).andThen
        ((isRun_keepTexts g).andThen (isRun_keepBootstrap g))))))

end Install

theorem Package.isRun_markSdk (isSdk : Bool) : IsRun Step.IsLocal (markSdk isSdk) := by
  cases isSdk with
  | true => exact (isRun_setMeta ..).andThen (isRun_setMeta ..)
  | false => exact isRun_setMeta ..

theorem Package.detectSdk_fst (p : Package) (b c : Bundle) :
    (p.detectSdk b).1 = (p.detectSdk c).1 := by
  unfold detectSdk
  split <;> rfl

theorem Package.isRun_detectSdk (p : Package) :
    IsRun Step.IsLocal fun b => (p.detectSdk b).2 := by
  unfold detectSdk
  split
  next options _ =>
    cases (options.field? "sdkVersion").bind Json.str? with
    | none => exact isRun_markSdk true
    | some version => exact (isRun_setMeta ..).andThen (isRun_markSdk true)
  · exact isRun_markSdk _

namespace Layout

theorem checkManifest_fst (config : Config) (p : Package) (isSdk : Bool) (b c : Bundle) :
    (checkManifest config p isSdk b).1 = (checkManifest config p isSdk c).1 := by
  unfold checkManifest
  split
  · split
    · exact Install.check_fst ..
    · rfl
  · split <;> rfl

theorem isRun_checkManifest (config : Config) (p : Package) (isSdk : Bool) :
    IsRun Step.IsLocal fun b => (checkManifest config p isSdk b).2 := by
  unfold checkManifest
  split
  · split
    · exact Install.isRun_check ..
    · exact isRun_add ..
  · split
    · exact .nothing
    · exact isRun_add ..

theorem isRun_checkType (expected : Option PackageType) (detected : PackageType) :
    IsRun Step.IsLocal (checkType expected detected) := by
  unfold checkType
  split
  · exact .nothing
  · split
    · exact isRun_add ..
    · exact .nothing

/-- The check of the first tier is one run of steps. -/
theorem isRun_check (config : Config) (p : Package) : IsRun Step.IsLocal (check config p) := by
  -- What the first parts answer does not depend on the bundle, so it is that for the empty one.
  have split : check config p = fun b =>
      checkType config.expectedType (p.type (checkManifest config p (p.detectSdk {}).1 {}).1)
        ({ (checkManifest config p (p.detectSdk {}).1 (p.detectSdk b).2).2 with
          detected := p.type (checkManifest config p (p.detectSdk {}).1 {}).1 }.setMeta "type"
            (.str (p.type (checkManifest config p (p.detectSdk {}).1 {}).1).name)) := by
    funext b
    unfold check
    simp only [p.detectSdk_fst b {},
      checkManifest_fst config p (p.detectSdk {}).1 (p.detectSdk b).2 {}]
  rw [split]
  exact p.isRun_detectSdk.andThen ((isRun_checkManifest config p _).andThen
    ((isRun_detect _).andThen ((isRun_setMeta ..).andThen (isRun_checkType ..))))

end Layout

/-! ## Registrations -/

namespace Registration

theorem follow_fst (p : Package) (n : Nat) (pending : List String) (m : Chrome.Manifest)
    (b c : Bundle) : (follow p n pending m b).1 = (follow p n pending m c).1 := by
  induction n generalizing pending m b c with
  | zero => rfl
  | succ n ih =>
      cases pending with
      | nil => rfl
      | cons path pending =>
          simp only [follow]
          cases p.readText path with
          | error e => exact ih ..
          | ok text => exact ih ..

theorem isRun_follow (p : Package) (n : Nat) (pending : List String) (m : Chrome.Manifest) :
    IsRun Step.IsLocal fun b => (follow p n pending m b).2 := by
  induction n generalizing pending m with
  | zero => exact .nothing
  | succ n ih =>
      cases pending with
      | nil => exact .nothing
      | cons path pending =>
          simp only [follow]
          cases p.readText path with
          | error e => exact (isRun_add ..).andThen (ih pending m)
          | ok text => exact ih ..

theorem isRun_checkContent (paths : List String) (e : Chrome.Entry) :
    IsRun Step.IsLocal (checkContent paths e) := by
  unfold checkContent
  split
  · exact .nothing
  · simp only
    split
    · exact .nothing
    · split
      · exact .nothing
      · exact isRun_add ..

theorem isRun_checkResource (e : Chrome.Entry) : IsRun Step.IsLocal (checkResource e) := by
  unfold checkResource
  split
  · exact .nothing
  · split
    · exact isRun_add ..
    · exact .nothing

theorem isRun_describe (m : Chrome.Manifest) : IsRun Step.IsLocal (describe m) := by
  unfold describe
  simp only
  split
  · exact isRun_setMeta ..
  · exact (isRun_setMeta ..).andThen (isRun_setMeta ..)

/-- The check of the second tier is one run of steps. -/
theorem isRun_check (p : Package) : IsRun Step.IsLocal (check p) := by
  unfold check
  cases p.readText manifestPath with
  | error e => exact .nothing
  | ok source =>
      have manifest :=
        follow_fst p maxIncludes (includes (Chrome.Manifest.parse source manifestPath)).reverse
        (Chrome.Manifest.parse source manifestPath)
      simp only [fun b => manifest b {}]
      refine (isRun_follow ..).andThen
        ((IsRun.foldl _ fun e _ => isRun_checkContent p.paths e).andThen
        ((IsRun.foldl _ fun e _ => isRun_checkResource e).andThen (isRun_describe _)))

end Registration

end AddonAudit
