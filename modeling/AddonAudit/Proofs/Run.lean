import AddonAudit.Proofs.Ledger

/-!
# Runs

A run is any sequence of operations on a bundle, with packages left that were never entered and
records taken back from inside any package. The summaries are kept by hand on two paths: one counts
a record when it is made, the other one counts it back when it is taken back. The main result says
that after every run they agree with the records that are left, so no counter is ever asked to go
below zero, and that taking back is exact.
-/

namespace AddonAudit

/-- The counter of a signing severity. -/
def SigningCounts.get (c : SigningCounts) : SigningSeverity → Nat
  | .trivial => c.trivial
  | .low => c.low
  | .medium => c.medium
  | .high => c.high

namespace Bundle

/-- A step of a run: an operation, or a decision on the type of the open package. -/
inductive Step where
  | operation (op : Operation)
  | detect (type : PackageType)

/-- The bundle after a step. -/
def Step.apply (b : Bundle) : Step → Bundle
  | .operation op => op.apply b
  | .detect type => { b with detected := type }

/-- The bundle after a run. -/
def run (steps : List Step) (b : Bundle) : Bundle :=
  steps.foldl Step.apply b

variable {b c : Bundle} {r : Record} {s : Severity} {uid : Nat}

theorem run_cons (step : Step) (rest : List Step) (b : Bundle) :
    run (step :: rest) b = run rest (step.apply b) := rfl

/-- Two bundles keep the same records and the same counts of them. -/
structure SameRecords (b c : Bundle) : Prop where
  records : ∀ s, c.records s = b.records s
  next : c.next = b.next
  compat : c.compat = b.compat
  signing : c.signing = b.signing

namespace SameRecords

theorem refl (b : Bundle) : SameRecords b b :=
  ⟨fun _ => rfl, rfl, rfl, rfl⟩

theorem of_lists (errors : c.errors = b.errors) (warnings : c.warnings = b.warnings)
    (notices : c.notices = b.notices) (next : c.next = b.next) (compat : c.compat = b.compat)
    (signing : c.signing = b.signing) : SameRecords b c := by
  refine ⟨?_, next, compat, signing⟩
  intro s
  cases s with
  | error => exact errors
  | warning => exact warnings
  | notice => exact notices

theorem messages (h : SameRecords b c) : c.messages = b.messages :=
  congrArg₂ (· ++ ·) (congrArg₂ (· ++ ·) (h.records .error) (h.records .warning))
    (h.records .notice)

theorem enter (name : String) (b : Bundle) : SameRecords b (b.enter name) :=
  .of_lists rfl rfl rfl rfl rfl rfl

theorem leave (b : Bundle) : SameRecords b b.leave.2 := by
  unfold Bundle.leave
  split
  · exact .refl b
  · exact .of_lists rfl rfl rfl rfl rfl rfl

end SameRecords

/-- A step keeps the records, or appends the one that a finding becomes, or takes one back. -/
theorem Step.apply_cases (step : Step) (b : Bundle) :
    SameRecords b (step.apply b) ∨
      (∃ s f, step = .operation (.push s f) ∧ step.apply b = b.append (b.stamp s f)) ∨
      ∃ s, ∃ r ∈ b.records s, step.apply b = b.retract r s := by
  cases step with
  | detect type => exact .inl (.of_lists rfl rfl rfl rfl rfl rfl)
  | operation op =>
      cases op with
      | push s f =>
          rcases push_cases s f b with left | made
          · left
            show SameRecords b (b.push s f).2
            rw [left]
            exact .refl b
          · refine .inr (.inl ⟨s, f, rfl, ?_⟩)
            show (b.push s f).2 = _
            rw [made]
      | drop uid =>
          rcases drop_cases uid b with ⟨-, missed⟩ | ⟨s, r, mem, -, hit⟩
          · left
            show SameRecords b (b.drop uid).2
            rw [missed]
            exact .refl b
          · refine .inr (.inr ⟨s, r, mem, ?_⟩)
            show (b.drop uid).2 = _
            rw [hit]
      | enter name => exact .inl (.enter name b)
      | leave => exact .inl (.leave b)
      | setTier tier => exact .inl (.of_lists rfl rfl rfl rfl rfl rfl)
      | setMeta name value => exact .inl (.of_lists rfl rfl rfl rfl rfl rfl)
      | saveResource name value inPackage =>
          cases inPackage <;> exact .inl (.of_lists rfl rfl rfl rfl rfl rfl)

/-- One counter of a summary, with the records that it counts. -/
structure Counter where
  value : Bundle → Nat
  counts : Record → Bool
  value_start : ∀ versions, value (ofSupported versions) = 0
  value_summarize : ∀ f r b, value (b.summarize f r) = if counts r then f (value b) else value b
  value_congr : ∀ {b c : Bundle}, c.compat = b.compat → c.signing = b.signing → value c = value b

namespace Counter

/-- The counter of a compatibility type. -/
def compat (s : Severity) : Counter where
  value b := b.compat.get s
  counts r := r.compatibility = some s
  value_start _ := by cases s <;> rfl
  value_summarize f r b := by
    unfold summarize
    cases r.compatibility with
    | none => simp
    | some t => cases s <;> cases t <;> rfl
  value_congr same _ := by rw [same]

/-- The counter of a signing severity. -/
def signing (g : SigningSeverity) : Counter where
  value b := b.signing.get g
  counts r := r.signing = some g
  value_start _ := by cases g <;> rfl
  value_summarize f r b := by
    unfold summarize
    cases r.signing with
    | none => simp
    | some t => cases g <;> cases t <;> rfl
  value_congr _ same := by rw [same]

variable (k : Counter)

theorem value_setRecords (list : List Record) : k.value (b.setRecords list s) = k.value b := by
  cases s <;> exact k.value_congr rfl rfl

theorem value_append : k.value (b.append r) = k.value b + if k.counts r then 1 else 0 := by
  have same : k.value (b.append r) = k.value (b.summarize (· + 1) r) :=
    (k.value_setRecords _).trans (k.value_congr rfl rfl)
  rw [same, k.value_summarize]
  split <;> rfl

theorem value_retract : k.value (b.retract r s) = k.value b - if k.counts r then 1 else 0 := by
  have same : k.value (b.retract r s) = k.value (b.summarize (· - 1) r) :=
    (k.value_setRecords _).trans (k.value_congr rfl rfl)
  rw [same, k.value_summarize]
  split <;> rfl

end Counter

/-- Records have numbers of their own and stand in the list of their severity, and every counter
agrees with the records. -/
structure Sound (b : Bundle) : Prop where
  numbered : Numbered b
  sorted : Sorted b
  counted : ∀ k : Counter, k.value b = b.messages.countP k.counts

namespace Sound

theorem start (versions : Option AppVersions) : Sound (ofSupported versions) where
  numbered := (Kept.start versions).numbered
  sorted := (Kept.start versions).sorted
  counted k := k.value_start versions

/-- What keeps the records keeps the counts. -/
theorem congr (h : Sound b) (same : SameRecords b c) : Sound c where
  numbered := ⟨same.messages ▸ h.numbered.distinct, same.messages ▸ same.next ▸ h.numbered.below⟩
  sorted s r mem := h.sorted s r (same.records s ▸ mem)
  counted k := by rw [k.value_congr same.compat same.signing, h.counted, same.messages]

theorem append (h : Sound b) (fresh : b.next ≤ r.uid) : Sound (b.append r) where
  numbered := h.numbered.append fresh
  sorted := h.sorted.append
  counted k := by
    rw [k.value_append, h.counted, append_messages_perm.countP_eq, List.countP_cons]

theorem retract (h : Sound b) (mem : r ∈ b.records s) : Sound (b.retract r s) where
  numbered := h.numbered.retract
  sorted := h.sorted.retract
  counted k := by
    -- The record is still counted here, so nothing is lowered below zero.
    have before := (h.numbered.messages_perm mem).countP_eq k.counts
    rw [List.countP_cons] at before
    rw [k.value_retract, h.counted, before]
    omega

/-- Every step keeps the counts. -/
theorem apply (h : Sound b) (step : Step) : Sound (step.apply b) := by
  rcases step.apply_cases b with same | ⟨s, f, -, made⟩ | ⟨s, r, mem, taken⟩
  · exact h.congr same
  · rw [made]
    exact h.append (Nat.le_refl _)
  · rw [taken]
    exact h.retract mem

/-- Every run keeps the counts. -/
theorem run (h : Sound b) (steps : List Step) : Sound (run steps b) := by
  induction steps generalizing b with
  | nil => exact h
  | cons step rest ih => exact ih (h.apply step)

theorem value_pos (h : Sound b) (k : Counter) (mem : r ∈ b.messages) (counted : k.counts r = true) :
    0 < k.value b := by
  rw [h.counted, List.countP_pos_iff]
  exact ⟨r, mem, counted⟩

end Sound

/-- A number is taken back if and only if a record has it. -/
theorem drop_eq_true_iff : (b.drop uid).1 = true ↔ ∃ r ∈ b.messages, r.uid = uid := by
  rcases drop_cases uid b with ⟨missing, missed⟩ | ⟨s, r, mem, same, hit⟩
  · rw [missed]
    constructor
    · intro impossible
      exact Bool.noConfusion impossible
    · rintro ⟨r, mem, same⟩
      exact absurd same (missing r mem)
  · rw [hit]
    exact ⟨fun _ => ⟨r, mem_messages.2 ⟨s, mem⟩, same⟩, fun _ => rfl⟩

theorem drop_of_missing (missing : (b.drop uid).1 = false) : (b.drop uid).2 = b := by
  rcases drop_cases uid b with ⟨-, missed⟩ | ⟨s, r, -, -, hit⟩
  · rw [missed]
  · rw [hit] at missing
    exact Bool.noConfusion missing

/-- Exactly one record goes; all others keep their places. -/
theorem drop_exact (live : (b.drop uid).1 = true) :
    ∃ s front r back, r.uid = uid ∧ b.records s = front ++ r :: back ∧
      (b.drop uid).2.records s = front ++ back ∧
      ∀ t, t ≠ s → (b.drop uid).2.records t = b.records t := by
  rcases drop_cases uid b with ⟨-, missed⟩ | ⟨s, r, mem, rfl, hit⟩
  · rw [missed] at live
    exact Bool.noConfusion live
  · obtain ⟨x, front, back, -, same, before, after⟩ :=
      List.exists_of_eraseP (p := fun x : Record => x.uid = r.uid) mem (by simp)
    refine ⟨s, front, x, back, by simpa using same, before, ?_, ?_⟩
    · rw [hit, retract_records, if_pos rfl, after]
    · intro t other
      rw [hit, retract_records, if_neg (Ne.symm other)]

/-- After every run each record stands in the list of its severity, every counter of the two
summaries is the number of records of that kind, no counter that a record would lower is zero, and
taking back is exact: it succeeds if and only if a record has the number, no two records have it,
just that one goes and the others keep their order, and nothing changes if there is none. -/
theorem summaries_count_records (versions : Option AppVersions) (steps : List Step) :
    let b := run steps (ofSupported versions)
    (∀ s, ∀ r ∈ b.records s, r.severity = s) ∧
    (∀ g, b.signing.get g = b.messages.countP (·.signing = some g)) ∧
    (∀ s, b.compat.get s = b.messages.countP (·.compatibility = some s)) ∧
    (∀ r ∈ b.messages, (∀ g, r.signing = some g → 0 < b.signing.get g) ∧
      ∀ s, r.compatibility = some s → 0 < b.compat.get s) ∧
    (∀ uid, ((b.drop uid).1 = true ↔ ∃ r ∈ b.messages, r.uid = uid) ∧
      (∀ r ∈ b.messages, ∀ x ∈ b.messages, r.uid = uid → x.uid = uid → r = x) ∧
      ((b.drop uid).1 = true →
        ∃ s front r back, r.uid = uid ∧ b.records s = front ++ r :: back ∧
          (b.drop uid).2.records s = front ++ back ∧
          ∀ t, t ≠ s → (b.drop uid).2.records t = b.records t) ∧
      ((b.drop uid).1 = false → (b.drop uid).2 = b)) := by
  intro b
  have sound : Sound b := (Sound.start versions).run steps
  refine ⟨sound.sorted, fun g => sound.counted (.signing g),
    fun s => sound.counted (.compat s), ?_, ?_⟩
  · intro r mem
    constructor
    · intro g signing
      exact sound.value_pos (.signing g) mem (decide_eq_true signing)
    · intro s compatibility
      exact sound.value_pos (.compat s) mem (decide_eq_true compatibility)
  · intro uid
    refine ⟨drop_eq_true_iff, ?_, drop_exact, drop_of_missing⟩
    intro r hr x hx here there
    exact sound.numbered.eq_of_uid hr hx (here.trans there.symm)

/-- A record is taken back from inside a package that was entered after it was made. The record that
was made inside is left; it is counted, and it can be taken back once the package is left. -/
theorem summaries_count_records_nested :
    let steps : List Step := [
      .operation (.push .warning { id := ["a"], message := "", signing := some .high }),
      .operation (.enter "inner.xpi"),
      .operation (.push .error
        { id := ["b"], message := "", signing := some .high, compatibility := some .notice }),
      .operation (.drop 0), .operation .leave, .operation .leave]
    let b := run steps (ofSupported none)
    (∃ r ∈ b.messages, r.uid = 1 ∧ r.signing = some .high ∧ r.severity = .error) ∧
      b.signing.get .high = 1 ∧ 0 < b.signing.get .high ∧ (b.drop 1).1 = true ∧
      (b.drop 0).2 = b ∧
      ∃ s front r back, r.uid = 1 ∧ b.records s = front ++ r :: back ∧
        (b.drop 1).2.records s = front ++ back := by
  intro steps b
  obtain ⟨sorted, signing, -, positive, exact⟩ := summaries_count_records none steps
  have high : b.messages.countP (·.signing = some .high) = 1 := by decide +kernel
  obtain ⟨r, mem, same⟩ : ∃ r ∈ b.errors, r.uid = 1 ∧ r.signing = some .high := by decide +kernel
  have inside : r ∈ b.messages := mem_messages.2 ⟨.error, mem⟩
  have live : (b.drop 1).1 = true := (exact 1).1.2 ⟨r, inside, same.1⟩
  obtain ⟨s, front, x, back, number, before, after, -⟩ := (exact 1).2.2.1 live
  refine ⟨⟨r, inside, same.1, same.2, sorted .error r mem⟩, (signing .high).trans high,
    (positive r inside).1 .high same.2, live, (exact 0).2.2.2 (by decide +kernel),
    s, front, x, back, number, before, after⟩

end Bundle

end AddonAudit
