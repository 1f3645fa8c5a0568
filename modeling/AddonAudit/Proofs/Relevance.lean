import AddonAudit.Proofs.Bundle
import AddonAudit.Proofs.VersionOrder

/-!
# Which findings matter

A finding may name the versions it concerns, and it is recorded only if they meet the supported
ones. Versions meet if they are level, not only if they are written alike; that this makes no
difference for windows of known versions comes from the laws of the order. Supporting more versions
never hides a finding.
-/

namespace AddonAudit

namespace Version

variable {first last x y : String}

/-- A version lies between two others; the upper one does not belong to the window. -/
def InWindow (first last version : String) : Prop :=
  compare first version ≠ .gt ∧ compare version last = .lt
  deriving Decidable

theorem inWindow_iff :
    InWindow first last x ↔ compare x first ≠ .lt ∧ compare x last = .lt := by
  have turned : compare first x = (compare x first).swap := Std.OrientedCmp.eq_swap
  rw [InWindow, turned]
  cases compare x first <;> simp

/-- Versions that are level lie in the same windows. -/
theorem InWindow.congr (level : compare x y = .eq) (h : InWindow first last y) :
    InWindow first last x := by
  obtain ⟨lower, upper⟩ := h
  constructor
  · rwa [Std.TransCmp.congr_right level]
  · rwa [Std.TransCmp.congr_left level]

end Version

namespace AppVersions

variable {s t u : AppVersions} {app v : String}

/-- A set names a version of an application. -/
def Has (s : AppVersions) (app v : String) : Prop :=
  ∃ versions, s.find? app = some versions ∧ v ∈ versions

theorem intersects_iff :
    s.intersects t = true ↔
      ∃ app mine, (app, mine) ∈ s ∧ ∃ a ∈ mine, ∃ b, t.Has app b ∧ Version.compare a b = .eq := by
  rw [intersects, List.any_eq_true]
  constructor
  · rintro ⟨⟨app, mine⟩, mem, meets⟩
    refine ⟨app, mine, mem, ?_⟩
    cases found : t.find? app with
    | none => simp [found] at meets
    | some theirs =>
        simp only [found, List.any_eq_true, decide_eq_true_eq] at meets
        obtain ⟨a, ha, b, hb, level⟩ := meets
        exact ⟨a, ha, b, ⟨theirs, found, hb⟩, level⟩
  · rintro ⟨app, mine, mem, a, ha, b, ⟨theirs, found, hb⟩, level⟩
    refine ⟨(app, mine), mem, ?_⟩
    simp only [found, List.any_eq_true, decide_eq_true_eq]
    exact ⟨a, ha, b, hb, level⟩

/-- Two sets meet if they name level versions of one application. -/
theorem intersects_iff_has (h : Dict.Sorted s) :
    s.intersects t = true ↔
      ∃ app a b, s.Has app a ∧ t.Has app b ∧ Version.compare a b = .eq := by
  rw [intersects_iff]
  constructor
  · rintro ⟨app, mine, mem, a, ha, b, hb, level⟩
    exact ⟨app, a, b, ⟨mine, (Dict.find?_eq_some_iff h).2 mem, ha⟩, hb, level⟩
  · rintro ⟨app, a, b, ⟨mine, found, ha⟩, hb, level⟩
    exact ⟨app, mine, (Dict.find?_eq_some_iff h).1 found, a, ha, b, hb, level⟩

theorem intersects_symm (hs : Dict.Sorted s) (ht : Dict.Sorted t) (meets : s.intersects t = true) :
    t.intersects s = true := by
  obtain ⟨app, a, b, ha, hb, level⟩ := (intersects_iff_has hs).1 meets
  exact (intersects_iff_has ht).2 ⟨app, b, a, hb, ha, Std.OrientedCmp.eq_symm level⟩

theorem intersects_mono (more : ∀ app v, t.Has app v → u.Has app v)
    (meets : s.intersects t = true) : s.intersects u = true := by
  obtain ⟨app, mine, mem, a, ha, b, hb, level⟩ := intersects_iff.1 meets
  exact intersects_iff.2 ⟨app, mine, mem, a, ha, b, more app b hb, level⟩

theorem subset_appendNew (old new : List String) : old ⊆ appendNew old new := by
  induction new generalizing old with
  | nil => exact List.Subset.refl old
  | cons v rest ih =>
      intro w mem
      apply ih
      show w ∈ if old.contains v then old else old ++ [v]
      split
      · exact mem
      · exact List.mem_append_left _ mem

theorem Has.alter_appendNew (hs : Dict.Sorted s) (h : s.Has app v) (other : String)
    (new : List String) :
    Has (s.alter other fun old => appendNew (old.getD []) new) app v := by
  obtain ⟨versions, found, mem⟩ := h
  by_cases same : other = app
  · subst same
    refine ⟨appendNew versions new, ?_, subset_appendNew versions new mem⟩
    rw [Dict.find?_alter_self hs, found]
    rfl
  · exact ⟨versions, by rw [Dict.find?_alter_of_ne same, found], mem⟩

/-- An extended set still names what it named before. -/
theorem Has.extend (hs : Dict.Sorted s) (h : s.Has app v) (t : AppVersions) :
    (s.extend t).Has app v := by
  induction t generalizing s with
  | nil => exact h
  | cons entry rest ih => exact ih hs.alter (h.alter_appendNew hs entry.1 entry.2)

/-- The windows of a known application meet if a known version lies in both. -/
theorem range_intersects_iff {app first last first' last' : String}
    (known : (Application.find? app).isSome) :
    (range app first last).intersects (range app first' last') = true ↔
      ∃ v ∈ Application.versions,
        Version.InWindow first last v ∧ Version.InWindow first' last' v := by
  obtain ⟨guid, found⟩ := Option.isSome_iff_exists.1 known
  have single (first last : String) : range app first last =
      [(guid, Application.versions.filter fun v =>
        Version.compare v first ≠ .lt && Version.compare v last = .lt)] := by
    simp only [range, found]
  have has {first last other v : String} : (range app first last).Has other v ↔
      guid = other ∧ v ∈ Application.versions ∧ Version.InWindow first last v := by
    by_cases same : guid = other <;> simp [single, Has, same, Version.inWindow_iff]
  have sorted : Dict.Sorted (range app first last) := by
    rw [single]
    exact List.pairwise_singleton ..
  rw [intersects_iff_has sorted]
  constructor
  · -- The versions that meet may be written differently; being level, they lie in the same windows.
    rintro ⟨other, a, b, ha, hb, level⟩
    obtain ⟨-, knownVersion, inFirst⟩ := has.1 ha
    obtain ⟨-, -, inSecond⟩ := has.1 hb
    exact ⟨a, knownVersion, inFirst, inSecond.congr level⟩
  · rintro ⟨v, knownVersion, inFirst, inSecond⟩
    exact ⟨guid, v, v, has.2 ⟨rfl, knownVersion, inFirst⟩, has.2 ⟨rfl, knownVersion, inSecond⟩,
      Std.ReflCmp.compare_self⟩

end AppVersions

/-- A record without its number. -/
def Record.unnumbered (r : Record) : Record :=
  { r with uid := 0 }

namespace Bundle

variable {b c : Bundle} {required : Option AppVersions}

/-- Record findings, one after another. -/
def addAll (findings : List (Severity × Finding)) (b : Bundle) : Bundle :=
  findings.foldl (fun b entry => b.add entry.1 entry.2) b

theorem isRelevant_ofSupported (versions required : AppVersions) :
    (ofSupported (some versions)).isRelevant (some required) =
      (versions.isVoid || required.intersects versions) := by
  cases void : versions.isVoid <;> simp [isRelevant, ofSupported, Option.filter, void]

theorem SameSetting.isRelevant (h : SameSetting b c) :
    c.isRelevant required = b.isRelevant required := by
  simp only [Bundle.isRelevant, h.supported]

/-- Up to its number, the record that a finding becomes depends on the setting only. -/
theorem SameSetting.unnumbered_stamp (h : SameSetting b c) (s : Severity) (f : Finding) :
    (c.stamp s f).unnumbered = (b.stamp s f).unnumbered := by
  simp only [stamp, Record.unnumbered, h.packageStack, h.tier]

theorem unnumbered_records_add (b : Bundle) (t s : Severity) (f : Finding) :
    ((b.add t f).records s).map Record.unnumbered =
      (b.records s).map Record.unnumbered ++
        if t = s && b.isRelevant f.forVersions then [(b.stamp s f).unnumbered] else [] := by
  cases relevant : b.isRelevant f.forVersions with
  | false => simp [add_of_not_relevant relevant]
  | true =>
      rw [add_of_relevant relevant, append_records]
      change List.map _ (if t = s then _ else _) = _
      by_cases same : t = s
      · subst same
        simp
      · simp [same]

/-- A bundle keeps exactly the relevant findings, in their order. -/
theorem unnumbered_records_addAll (b : Bundle) (findings : List (Severity × Finding))
    (s : Severity) :
    ((b.addAll findings).records s).map Record.unnumbered =
      (b.records s).map Record.unnumbered ++
        (findings.filter fun entry => entry.1 = s && b.isRelevant entry.2.forVersions).map
          fun entry => (b.stamp s entry.2).unnumbered := by
  induction findings generalizing b with
  | nil => simp [addAll]
  | cons entry rest ih =>
      have setting : SameSetting b (b.add entry.1 entry.2) := push_sameSetting ..
      show (((b.add entry.1 entry.2).addAll rest).records s).map Record.unnumbered = _
      rw [ih, unnumbered_records_add, List.append_assoc]
      simp only [setting.isRelevant, setting.unnumbered_stamp, List.filter_cons]
      congr 1
      split <;> simp

theorem isRelevant_of_nonvoid {versions : AppVersions} (nonvoid : versions.isVoid = false)
    (required : Option AppVersions) :
    (ofSupported (some versions)).isRelevant required = required.all (·.intersects versions) := by
  cases required with
  | none => rfl
  | some required =>
      rw [isRelevant_ofSupported, nonvoid]
      rfl

/-- What matters for some versions matters for more of them. -/
theorem isRelevant_extend {versions : AppVersions} (sorted : Dict.Sorted versions)
    (nonvoid : versions.isVoid = false) (more : AppVersions)
    (relevant : (ofSupported (some versions)).isRelevant required = true) :
    (ofSupported (some (versions.extend more))).isRelevant required = true := by
  cases required with
  | none => rfl
  | some required =>
      rw [isRelevant_of_nonvoid nonvoid] at relevant
      have meets : required.intersects (versions.extend more) = true :=
        AppVersions.intersects_mono (fun _ _ has => has.extend sorted more) relevant
      rw [isRelevant_ofSupported, meets, Bool.or_true]

/-- What a new bundle keeps of findings, in one severity. -/
theorem unnumbered_records_ofSupported (supported : Option AppVersions)
    (findings : List (Severity × Finding)) (s : Severity) :
    (((ofSupported supported).addAll findings).records s).map Record.unnumbered =
      (findings.filter fun entry =>
        entry.1 = s && (ofSupported supported).isRelevant entry.2.forVersions).map
          fun entry => (stamp {} s entry.2).unnumbered := by
  have empty : (ofSupported supported).records s = [] := by cases s <;> rfl
  rw [unnumbered_records_addAll, empty]
  rfl

/-- The windows of a known application meet exactly if a known version lies in both, and meeting is
symmetric. Whatever findings are recorded, a bundle for some versions keeps exactly those that name
no versions or versions that meet the supported ones, in their order, and in each severity they are
a subsequence of what a bundle for these and any other versions keeps. -/
theorem versions_gate_findings :
    (∀ app, (Application.find? app).isSome → ∀ first last first' last',
      (AppVersions.range app first last).intersects (AppVersions.range app first' last') = true ↔
        ∃ v ∈ Application.versions,
          Version.InWindow first last v ∧ Version.InWindow first' last' v) ∧
    (∀ s t : AppVersions, Dict.Sorted s → Dict.Sorted t → s.intersects t = t.intersects s) ∧
    (∀ versions more : AppVersions, Dict.Sorted versions → versions.isVoid = false →
      ∀ (findings : List (Severity × Finding)) (s : Severity),
        let few := (ofSupported (some versions)).addAll findings
        let many := (ofSupported (some (versions.extend more))).addAll findings
        (few.records s).map Record.unnumbered =
          (findings.filter fun entry =>
            entry.1 = s && entry.2.forVersions.all (·.intersects versions)).map
              (fun entry => (stamp {} s entry.2).unnumbered) ∧
        ((few.records s).map Record.unnumbered).Sublist
          ((many.records s).map Record.unnumbered)) := by
  refine ⟨?_, ?_, ?_⟩
  · intro app known first last first' last'
    exact AppVersions.range_intersects_iff known
  · intro s t hs ht
    rw [Bool.eq_iff_iff]
    exact ⟨AppVersions.intersects_symm hs ht, AppVersions.intersects_symm ht hs⟩
  · intro versions more sorted nonvoid findings s few many
    constructor
    · rw [unnumbered_records_ofSupported]
      simp only [isRelevant_of_nonvoid nonvoid]
    · rw [unnumbered_records_ofSupported, unnumbered_records_ofSupported]
      apply List.Sublist.map
      apply List.monotone_filter_right
      intro entry kept
      rw [Bool.and_eq_true] at kept ⊢
      exact ⟨kept.1, isRelevant_extend sorted nonvoid more kept.2⟩

/-- A window that ends before `39.0` and one that starts with `38.0` meet. A finding about `38`
matters where `38.0` is supported beside `40.0`, but not where only `40.0` is. -/
theorem versions_gate_findings_firefox :
    let finding : Finding :=
      { id := ["old"], message := "", forVersions := some [(Application.firefox, ["38"])] }
    let forty : AppVersions := [(Application.firefox, ["40.0"])]
    let eight : AppVersions := [(Application.firefox, ["38.0"])]
    let few := (ofSupported (some forty)).addAll [(.warning, finding)]
    let many := (ofSupported (some (forty.extend eight))).addAll [(.warning, finding)]
    (AppVersions.range "Fx" "38.0a1" "39.0").intersects (AppVersions.range "Fx" "38.0" "60") =
      true ∧
      forty.intersects eight = eight.intersects forty ∧
      few.records .warning = [] ∧ (many.records .warning).length = 1 ∧
      ((few.records .warning).map Record.unnumbered).Sublist
        ((many.records .warning).map Record.unnumbered) := by
  intro finding forty eight few many
  obtain ⟨windows, symm, kept⟩ := versions_gate_findings
  have sorted (versions : List String) : Dict.Sorted [(Application.firefox, versions)] :=
    List.pairwise_singleton ..
  refine ⟨?_, symm forty eight (sorted _) (sorted _), ?_, ?_, ?_⟩
  · apply (windows "Fx" (by decide +kernel) _ _ _ _).2
    exact ⟨"38.0", by decide +kernel, by decide +kernel, by decide +kernel⟩
  · decide +kernel
  · decide +kernel
  · exact (kept forty eight (sorted _) (by decide) [(.warning, finding)] .warning).2

end Bundle

end AddonAudit
