import AddonAudit.Bundle
import AddonAudit.Proofs.MessageTree

/-!
# Laws of recording and taking back

A record is added at the end of the list of its severity and can be taken back by its number. Both
steps touch the lists, the message tree, the summaries and the numbering; what the bundle knows
about packages, tiers and versions stays as it was.
-/

namespace AddonAudit

/-- What a message tree is told about a record. -/
def Record.entry (r : Record) : MessageTree.Entry Nat :=
  ⟨r.uid, r.severity, r.id⟩

namespace Bundle

/-- Two bundles have the same packages open. -/
structure SameStacks (b c : Bundle) : Prop where
  outer : c.outer = b.outer
  packageStack : c.packageStack = b.packageStack

theorem SameStacks.refl (b : Bundle) : SameStacks b b :=
  ⟨rfl, rfl⟩

theorem SameStacks.trans {b c d : Bundle} (h : SameStacks b c) (h' : SameStacks c d) :
    SameStacks b d :=
  ⟨h'.outer.trans h.outer, h'.packageStack.trans h.packageStack⟩

/-- Two bundles agree on all that does not come from records: metadata, shared values, package type,
tiers, packages around and supported versions. -/
structure SameSetting (b c : Bundle) : Prop where
  metadata : c.metadata = b.metadata
  shared : c.shared = b.shared
  resources : c.resources = b.resources
  detected : c.detected = b.detected
  tier : c.tier = b.tier
  endingTier : c.endingTier = b.endingTier
  outer : c.outer = b.outer
  packageStack : c.packageStack = b.packageStack
  supported : c.supported = b.supported

namespace SameSetting

theorem refl (b : Bundle) : SameSetting b b := by
  constructor <;> rfl

theorem trans {b c d : Bundle} (h : SameSetting b c) (h' : SameSetting c d) : SameSetting b d where
  metadata := h'.metadata.trans h.metadata
  shared := h'.shared.trans h.shared
  resources := h'.resources.trans h.resources
  detected := h'.detected.trans h.detected
  tier := h'.tier.trans h.tier
  endingTier := h'.endingTier.trans h.endingTier
  outer := h'.outer.trans h.outer
  packageStack := h'.packageStack.trans h.packageStack
  supported := h'.supported.trans h.supported

theorem sameStacks {b c : Bundle} (h : SameSetting b c) : SameStacks b c :=
  ⟨h.outer, h.packageStack⟩

end SameSetting

variable {b : Bundle} {r x : Record} {s t : Severity} {uid : Nat}

@[simp] theorem summarize_records (f : Nat → Nat) :
    (b.summarize f r).records t = b.records t := by
  cases t <;> rfl

@[simp] theorem records_setRecords (list : List Record) :
    (b.setRecords list s).records t = if s = t then list else b.records t := by
  cases s <;> cases t <;> rfl

theorem setRecords_tree (list : List Record) : (b.setRecords list s).tree = b.tree := by
  cases s <;> rfl

theorem setRecords_next (list : List Record) : (b.setRecords list s).next = b.next := by
  cases s <;> rfl

theorem setRecords_sameSetting (list : List Record) : SameSetting b (b.setRecords list s) := by
  cases s <;> constructor <;> rfl

theorem append_records :
    (b.append r).records t = if r.severity = t then b.records t ++ [r] else b.records t := by
  rw [append, records_setRecords]
  split
  next here =>
    subst here
    cases r.severity <;> rfl
  · cases t <;> rfl

theorem append_tree : (b.append r).tree = b.tree.insert r.uid r.severity r.id :=
  setRecords_tree _

theorem append_next : (b.append r).next = r.uid + 1 :=
  setRecords_next _

theorem append_stamp_next {f : Finding} : (b.append (b.stamp s f)).next = b.next + 1 :=
  append_next

theorem append_sameSetting : SameSetting b (b.append r) := by
  refine SameSetting.trans ?_ (setRecords_sameSetting _)
  constructor <;> rfl

theorem retract_records :
    (b.retract r s).records t =
      if s = t then (b.records t).eraseP (·.uid = r.uid) else b.records t := by
  rw [retract, records_setRecords]
  split
  next here =>
    subst here
    cases s <;> rfl
  · cases t <;> rfl

theorem retract_tree : (b.retract r s).tree = b.tree.remove r.uid r.severity r.id :=
  setRecords_tree _

theorem retract_next : (b.retract r s).next = b.next :=
  setRecords_next _

theorem retract_sameSetting : SameSetting b (b.retract r s) := by
  refine SameSetting.trans ?_ (setRecords_sameSetting _)
  constructor <;> rfl

theorem mem_messages : r ∈ b.messages ↔ ∃ s, r ∈ b.records s := by
  simp only [messages, List.mem_append]
  constructor
  · rintro ((h | h) | h)
    exacts [⟨.error, h⟩, ⟨.warning, h⟩, ⟨.notice, h⟩]
  · rintro ⟨s, h⟩
    cases s
    exacts [.inl (.inl h), .inl (.inr h), .inr h]

/-- Taking back by number either finds nothing or takes back one record that has the number. -/
theorem drop_cases (uid : Nat) (b : Bundle) :
    ((∀ r ∈ b.messages, r.uid ≠ uid) ∧ b.drop uid = (false, b)) ∨
      ∃ s, ∃ r ∈ b.records s, r.uid = uid ∧ b.drop uid = (true, b.retract r s) := by
  have hit {s : Severity} {c : Bundle} (h : b.dropFrom? uid s = some c) :
      ∃ r ∈ b.records s, r.uid = uid ∧ c = b.retract r s := by
    obtain ⟨r, found, rfl⟩ := Option.map_eq_some_iff.1 h
    exact ⟨r, List.mem_of_find?_eq_some found, by simpa using List.find?_some found, rfl⟩
  have miss {s : Severity} (h : b.dropFrom? uid s = none) : ∀ r ∈ b.records s, r.uid ≠ uid := by
    have unfound := Option.map_eq_none_iff.1 h
    simpa using unfound
  -- The severities are tried in their order; the first hit decides.
  unfold drop
  cases errors : b.dropFrom? uid .error with
  | some c =>
      obtain ⟨r, mem, same, rfl⟩ := hit errors
      exact .inr ⟨.error, r, mem, same, by simp⟩
  | none =>
      cases warnings : b.dropFrom? uid .warning with
      | some c =>
          obtain ⟨r, mem, same, rfl⟩ := hit warnings
          exact .inr ⟨.warning, r, mem, same, by simp⟩
      | none =>
          cases notices : b.dropFrom? uid .notice with
          | some c =>
              obtain ⟨r, mem, same, rfl⟩ := hit notices
              exact .inr ⟨.notice, r, mem, same, by simp⟩
          | none =>
              refine .inl ⟨fun r mem => ?_, by simp⟩
              obtain ⟨s, mem⟩ := mem_messages.1 mem
              cases s
              exacts [miss errors r mem, miss warnings r mem, miss notices r mem]

/-- Recording either leaves a finding out or appends the record that it becomes. -/
theorem push_cases (s : Severity) (f : Finding) (b : Bundle) :
    b.push s f = (none, b) ∨ b.push s f = (some b.next, b.append (b.stamp s f)) := by
  unfold push
  split
  · exact .inr rfl
  · exact .inl rfl

theorem push_sameSetting (s : Severity) (f : Finding) (b : Bundle) :
    SameSetting b (b.push s f).2 := by
  rcases push_cases s f b with left | made
  · rw [left]
    exact .refl b
  · rw [made]
    exact append_sameSetting

theorem drop_sameSetting (uid : Nat) (b : Bundle) : SameSetting b (b.drop uid).2 := by
  rcases drop_cases uid b with ⟨-, missed⟩ | ⟨s, r, -, -, hit⟩
  · rw [missed]
    exact .refl b
  · rw [hit]
    exact retract_sameSetting

theorem add_of_relevant {f : Finding} (h : b.isRelevant f.forVersions = true) :
    b.add s f = b.append (b.stamp s f) := by
  simp [add, push, h]

theorem add_of_not_relevant {f : Finding} (h : b.isRelevant f.forVersions = false) :
    b.add s f = b := by
  simp [add, push, h]

/-- A finding that concerns all versions is always recorded. -/
theorem add_ne_self {s : Severity} {f : Finding} (always : f.forVersions = none) :
    b.add s f ≠ b := by
  have relevant : b.isRelevant f.forVersions = true := by
    rw [always]
    rfl
  have next : (b.add s f).next = b.next + 1 := by rw [add_of_relevant relevant, append_next]; rfl
  intro same
  rw [same] at next
  omega

/-- No two records have the same number, and numbers are given out in increasing order. -/
structure Numbered (b : Bundle) : Prop where
  distinct : (b.messages.map (·.uid)).Nodup
  below : ∀ r ∈ b.messages, r.uid < b.next

/-- Every record stands in the list of its severity. -/
def Sorted (b : Bundle) : Prop :=
  ∀ s, ∀ r ∈ b.records s, r.severity = s

theorem mem_append_messages : x ∈ (b.append r).messages ↔ x ∈ b.messages ∨ x = r := by
  simp only [mem_messages, append_records]
  constructor
  · rintro ⟨s, mem⟩
    split at mem
    · rcases List.mem_append.1 mem with mem | mem
      · exact .inl ⟨s, mem⟩
      · exact .inr (List.mem_singleton.1 mem)
    · exact .inl ⟨s, mem⟩
  · rintro (⟨s, mem⟩ | rfl)
    · refine ⟨s, ?_⟩
      split
      · exact List.mem_append_left _ mem
      · exact mem
    · exact ⟨x.severity, by simp⟩

/-- A record more in one of the lists is a record more in all. -/
theorem messages_perm_cons {c : Bundle} (here : (c.records s).Perm (r :: b.records s))
    (others : ∀ t, s ≠ t → c.records t = b.records t) : c.messages.Perm (r :: b.messages) := by
  have error := others .error
  have warning := others .warning
  have notice := others .notice
  simp only [records] at here error warning notice
  cases s with
  | error =>
      simp only [messages, warning nofun, notice nofun]
      exact (here.append_right _).append_right _
  | warning =>
      simp only [messages, error nofun, notice nofun]
      refine ((here.append_left _).append_right _).trans ?_
      exact List.perm_middle.append_right _
  | notice =>
      simp only [messages, error nofun, warning nofun]
      exact (here.append_left _).trans List.perm_middle

theorem append_messages_perm : (b.append r).messages.Perm (r :: b.messages) := by
  refine messages_perm_cons (s := r.severity) ?_ fun t ne => ?_
  · rw [append_records, if_pos rfl]
    exact List.perm_append_singleton ..
  · rw [append_records, if_neg ne]

theorem retract_records_sublist (t : Severity) :
    ((b.retract r s).records t).Sublist (b.records t) := by
  rw [retract_records]
  split
  · exact List.eraseP_sublist ..
  · exact .refl _

theorem retract_messages_sublist : (b.retract r s).messages.Sublist b.messages :=
  ((retract_records_sublist .error).append (retract_records_sublist .warning)).append
    (retract_records_sublist .notice)

theorem drop_next (uid : Nat) (b : Bundle) : (b.drop uid).2.next = b.next := by
  rcases drop_cases uid b with ⟨-, missed⟩ | ⟨s, r, -, -, hit⟩
  · rw [missed]
  · rw [hit]
    exact retract_next

theorem drop_messages_sublist (uid : Nat) (b : Bundle) :
    (b.drop uid).2.messages.Sublist b.messages := by
  rcases drop_cases uid b with ⟨-, missed⟩ | ⟨s, r, -, -, hit⟩
  · rw [missed]
  · rw [hit]
    exact retract_messages_sublist

/-- A record with another number stays when a number is taken back. -/
theorem mem_drop_of_ne (mem : r ∈ b.messages) (ne : r.uid ≠ uid) :
    r ∈ (b.drop uid).2.messages := by
  rcases drop_cases uid b with ⟨-, missed⟩ | ⟨severity, x, -, same, hit⟩
  · rw [missed]
    exact mem
  · rw [hit]
    obtain ⟨s, mem⟩ := mem_messages.1 mem
    refine mem_messages.2 ⟨s, ?_⟩
    show r ∈ (b.retract x severity).records s
    rw [retract_records]
    split
    · exact (List.mem_eraseP_of_neg (by simpa [same] using ne)).2 mem
    · exact mem

theorem Numbered.eq_of_uid (h : Numbered b) (hr : r ∈ b.messages) (hx : x ∈ b.messages)
    (same : r.uid = x.uid) : r = x :=
  List.inj_on_of_nodup_map h.distinct hr hx same

/-- The records are the one that is taken back and those that are left. -/
theorem Numbered.messages_perm (h : Numbered b) (mem : r ∈ b.records s) :
    b.messages.Perm (r :: (b.retract r s).messages) := by
  refine messages_perm_cons (s := s) ?_ fun t ne => ?_
  · obtain ⟨x, front, back, _, same, split, rest⟩ :=
      List.exists_of_eraseP (p := fun x => x.uid = r.uid) mem (by simp)
    have hx : x ∈ b.records s := by simp [split]
    have eq : x = r :=
      h.eq_of_uid (mem_messages.2 ⟨s, hx⟩) (mem_messages.2 ⟨s, mem⟩) (by simpa using same)
    rw [retract_records, if_pos rfl, rest, split, eq]
    exact List.perm_middle
  · rw [retract_records, if_neg ne]

/-- Exactly the record with the number is taken back. -/
theorem Numbered.mem_retract (h : Numbered b) (mem : r ∈ b.records s) :
    x ∈ (b.retract r s).messages ↔ x ∈ b.messages ∧ x.uid ≠ r.uid := by
  have perm := h.messages_perm mem
  have nodup := (perm.map (·.uid)).nodup_iff.1 h.distinct
  have gone : r.uid ∉ (b.retract r s).messages.map (·.uid) := (List.nodup_cons.1 nodup).1
  rw [perm.mem_iff, List.mem_cons]
  constructor
  · intro left
    exact ⟨.inr left, fun same => gone (List.mem_map.2 ⟨x, left, same⟩)⟩
  · rintro ⟨rfl | left, ne⟩
    · exact absurd rfl ne
    · exact left

theorem Numbered.append (h : Numbered b) (fresh : b.next ≤ r.uid) : Numbered (b.append r) where
  distinct := by
    have whole := (append_messages_perm (b := b) (r := r)).map (·.uid)
    refine whole.nodup_iff.2 (List.nodup_cons.2 ⟨fun mem => ?_, h.distinct⟩)
    obtain ⟨x, mem, same⟩ := List.mem_map.1 mem
    have lt : x.uid < b.next := h.below x mem
    have same : x.uid = r.uid := same
    omega
  below x mem := by
    rw [append_next]
    rcases mem_append_messages.1 mem with mem | rfl
    · have lt := h.below x mem
      omega
    · exact Nat.lt_succ_self _

theorem Sorted.append (h : Sorted b) : Sorted (b.append r) := by
  intro t x mem
  rw [append_records] at mem
  split at mem
  next here =>
    rcases List.mem_append.1 mem with mem | mem
    · exact h t x mem
    · rw [List.mem_singleton.1 mem]
      exact here
  · exact h t x mem

theorem Sorted.retract (h : Sorted b) : Sorted (b.retract r s) :=
  fun t x mem => h t x ((retract_records_sublist t).subset mem)

theorem Numbered.retract (h : Numbered b) : Numbered (b.retract r s) where
  distinct := h.distinct.sublist (retract_messages_sublist.map _)
  below x mem := by
    rw [retract_next]
    exact h.below x (retract_messages_sublist.subset mem)

end Bundle

end AddonAudit
