import AddonAudit.Proofs.Bracket
import AddonAudit.Proofs.Checks
import AddonAudit.Proofs.Relevance

/-!
# Bundles on top of bundles

Checks write to one bundle, one after the other. What a check does there is what it does in a bundle
of its own that looks the same: its records follow those that were there, with other numbers. `Atop
b` relates the bundle of its own to the shared one; every operation of a check keeps the relation.
The records that are made this way are filed under the chain of names that the check works under.
-/

namespace AddonAudit

/-- A record with its number moved up. -/
def Record.shift (k : Nat) (r : Record) : Record :=
  { r with uid := r.uid + k }

theorem Record.map_unnumbered_shift (k : Nat) (list : List Record) :
    (list.map (Record.shift k)).map Record.unnumbered = list.map Record.unnumbered := by
  rw [List.map_map]
  rfl

/-- Records that differ in their numbers only look the same where numbers are not seen. -/
theorem Record.map_eq_of_unnumbered {α : Type} {view : Record → α}
    (numberless : ∀ r, view r.unnumbered = view r) {xs ys : List Record}
    (alike : xs.map Record.unnumbered = ys.map Record.unnumbered) : xs.map view = ys.map view := by
  have through : ∀ list : List Record, list.map view = (list.map Record.unnumbered).map view := by
    intro list
    rw [List.map_map]
    exact List.map_congr_left fun r _ => (numberless r).symm
  rw [through xs, through ys, alike]

namespace Bundle

/-- Two bundles look the same to checks: they agree on metadata, shared values, supported versions,
tier and the names of the packages around. -/
structure SameView (c d : Bundle) : Prop where
  metadata : d.metadata = c.metadata
  resources : d.resources = c.resources
  shared : d.shared = c.shared
  supported : d.supported = c.supported
  tier : d.tier = c.tier
  stack : d.packageStack = c.packageStack

variable {b c d c' d' : Bundle} {chain : List String} {name : String}

theorem SameSetting.sameView (h : SameSetting c d) : SameView c d :=
  ⟨h.metadata, h.resources, h.shared, h.supported, h.tier, h.packageStack⟩

namespace SameView

theorem refl (c : Bundle) : SameView c c :=
  ⟨rfl, rfl, rfl, rfl, rfl, rfl⟩

theorem symm (h : SameView c d) : SameView d c :=
  ⟨h.metadata.symm, h.resources.symm, h.shared.symm, h.supported.symm, h.tier.symm, h.stack.symm⟩

theorem trans (h : SameView b c) (h' : SameView c d) : SameView b d where
  metadata := h'.metadata.trans h.metadata
  resources := h'.resources.trans h.resources
  shared := h'.shared.trans h.shared
  supported := h'.supported.trans h.supported
  tier := h'.tier.trans h.tier
  stack := h'.stack.trans h.stack

/-- The view stays the same where only records change. -/
theorem change (h : SameView c d) (left : SameSetting c c') (right : SameSetting d d') :
    SameView c' d' :=
  left.sameView.symm.trans (h.trans right.sameView)

theorem isRelevant (h : SameView c d) (requirement : Option AppVersions) :
    d.isRelevant requirement = c.isRelevant requirement := by
  unfold Bundle.isRelevant
  rw [h.supported]

end SameView

/-- A bundle on top of another one. Its records are the earlier ones and after these the ones of a
bundle of its own, with their numbers moved up. The own records are filed under a chain of names, or
nowhere. -/
structure Atop (b : Bundle) (chain : List String) (c d : Bundle) : Prop where
  view : SameView c d
  records : ∀ s, d.records s = b.records s ++ (c.records s).map (Record.shift b.next)
  next : d.next = c.next + b.next
  numbers : ∀ s, ∀ r ∈ c.records s, r.uid < c.next
  filed : ∀ s, ∀ r ∈ c.records s, r.file = [] ∨ chain <+: r.file

/-- A bundle without its records. -/
def blank (b : Bundle) : Bundle :=
  { b with errors := [], warnings := [], notices := [], next := 0 }

theorem records_blank (b : Bundle) (s : Severity) : b.blank.records s = [] := by
  cases s <;> rfl

theorem sameView_blank (b : Bundle) : SameView b.blank b :=
  ⟨rfl, rfl, rfl, rfl, rfl, rfl⟩

namespace Atop

/-- Every bundle is on top of itself with no records. -/
theorem start (view : SameView c b) (empty : ∀ s, c.records s = []) (first : c.next = 0) :
    Atop b chain c b where
  view := view
  records s := by rw [empty s, List.map_nil, List.append_nil]
  next := by rw [first, Nat.zero_add]
  numbers s r mem := by
    rw [empty s] at mem
    exact absurd mem List.not_mem_nil
  filed s r mem := by
    rw [empty s] at mem
    exact absurd mem List.not_mem_nil

theorem stamp (h : Atop b chain c d) (s : Severity) (f : Finding) :
    d.stamp s f = (c.stamp s f).shift b.next := by
  simp only [Bundle.stamp, Record.shift, h.next, h.view.stack, h.view.tier]

theorem append {r : Record} (h : Atop b chain c d) (number : r.uid = c.next)
    (file : r.file = [] ∨ chain <+: r.file) :
    Atop b chain (c.append r) (d.append (r.shift b.next)) where
  view := h.view.change append_sameSetting append_sameSetting
  records t := by
    rw [append_records, append_records, h.records]
    show (if r.severity = t then _ else _) = _
    split
    · rw [List.map_append, List.append_assoc]
      rfl
    · rfl
  next := by
    rw [append_next, append_next]
    exact Nat.add_right_comm ..
  numbers t x mem := by
    rw [append_next, number]
    rw [append_records] at mem
    split at mem
    · rcases List.mem_append.1 mem with mem | mem
      · exact Nat.lt_succ_of_lt (h.numbers t x mem)
      · rw [List.mem_singleton.1 mem, number]
        exact Nat.lt_succ_self c.next
    · exact Nat.lt_succ_of_lt (h.numbers t x mem)
  filed t x mem := by
    rw [append_records] at mem
    split at mem
    · rcases List.mem_append.1 mem with mem | mem
      · exact h.filed t x mem
      · rw [List.mem_singleton.1 mem]
        exact file
    · exact h.filed t x mem

/-- A finding is recorded in both bundles or in none, with numbers that differ by the same
amount. -/
theorem push (h : Atop b chain c d) (s : Severity) (f : Finding)
    (files : ∀ file, f.file = some file → chain <+: c.packageStack ++ [file]) :
    (d.push s f).1 = (c.push s f).1.map (· + b.next) ∧
      Atop b chain (c.push s f).2 (d.push s f).2 := by
  have same := h.view.isRelevant f.forVersions
  unfold Bundle.push
  rw [same]
  cases c.isRelevant f.forVersions with
  | false => exact ⟨rfl, h⟩
  | true =>
      refine ⟨congrArg some h.next, ?_⟩
      have file : (c.stamp s f).file = [] ∨ chain <+: (c.stamp s f).file := by
        unfold Bundle.stamp
        cases about : f.file with
        | none => exact .inl rfl
        | some file => exact .inr (files file about)
      have made := h.append rfl file
      rw [← h.stamp] at made
      exact made

section Drop

variable (fresh : ∀ r ∈ b.messages, r.uid < b.next) (h : Atop b chain c d)

include fresh h

/-- An own record is searched for among the own records. -/
theorem find?_uid (uid : Nat) (s : Severity) :
    (d.records s).find? (·.uid = uid + b.next) =
      ((c.records s).find? (·.uid = uid)).map (Record.shift b.next) := by
  have old : (b.records s).find? (·.uid = uid + b.next) = none := by
    rw [List.find?_eq_none]
    intro r mem same
    have below := fresh r (mem_messages.2 ⟨s, mem⟩)
    have equal := of_decide_eq_true same
    omega
  rw [h.records, List.find?_append, old, Option.none_or, List.find?_map]
  congr 2
  funext r
  simp [Record.shift]

theorem retract (r : Record) (s : Severity) :
    Atop b chain (c.retract r s) (d.retract (r.shift b.next) s) where
  view := h.view.change retract_sameSetting retract_sameSetting
  records t := by
    rw [retract_records, retract_records, h.records]
    split
    · have old : ∀ x ∈ b.records t, ¬ decide (x.uid = (r.shift b.next).uid) = true := by
        intro x mem same
        have below := fresh x (mem_messages.2 ⟨t, mem⟩)
        have equal : x.uid = r.uid + b.next := of_decide_eq_true same
        omega
      rw [List.eraseP_append_right _ old, List.eraseP_map]
      congr 3
      funext x
      simp [Record.shift]
    · rfl
  next := by
    rw [retract_next, retract_next]
    exact h.next
  numbers t x mem := by
    rw [retract_next]
    exact h.numbers t x ((retract_records_sublist t).subset mem)
  filed t x mem := h.filed t x ((retract_records_sublist t).subset mem)

theorem dropFrom? (uid : Nat) (s : Severity) :
    Option.Rel (Atop b chain) (c.dropFrom? uid s) (d.dropFrom? (uid + b.next) s) := by
  unfold Bundle.dropFrom?
  rw [h.find?_uid fresh]
  cases (c.records s).find? (·.uid = uid) with
  | none => exact .none
  | some r => exact .some (h.retract fresh r s)

/-- A record is taken back in both bundles or in none. -/
theorem drop (uid : Nat) : Atop b chain (c.drop uid).2 (d.drop (uid + b.next)).2 := by
  have errors := h.dropFrom? fresh uid .error
  have warnings := h.dropFrom? fresh uid .warning
  have notices := h.dropFrom? fresh uid .notice
  unfold Bundle.drop
  generalize c.dropFrom? uid .error = e, d.dropFrom? (uid + b.next) .error = e' at errors
  generalize c.dropFrom? uid .warning = w, d.dropFrom? (uid + b.next) .warning = w' at warnings
  generalize c.dropFrom? uid .notice = n, d.dropFrom? (uid + b.next) .notice = n' at notices
  -- The severities are tried in the same order on both sides.
  cases errors with
  | some taken => exact taken
  | none =>
      cases warnings with
      | some taken => exact taken
      | none =>
          cases notices with
          | some taken => exact taken
          | none => exact h

end Drop

/-- The numbers stay below the next one. -/
theorem fresh (h : Atop b chain c d) (below : ∀ r ∈ b.messages, r.uid < b.next) :
    ∀ r ∈ d.messages, r.uid < d.next := by
  intro r mem
  obtain ⟨s, mem⟩ := mem_messages.1 mem
  rw [h.records] at mem
  rw [h.next]
  rcases List.mem_append.1 mem with mem | mem
  · exact Nat.lt_add_left _ (below r (mem_messages.2 ⟨s, mem⟩))
  · obtain ⟨x, own, rfl⟩ := List.mem_map.1 mem
    exact Nat.add_lt_add_right (h.numbers s x own) b.next

/-- What changes the view alike and keeps the records keeps the relation. -/
theorem reframe (h : Atop b chain c d) (left : SameRecords c c') (right : SameRecords d d')
    (view : SameView c' d') : Atop b chain c' d' where
  view := view
  records s := by rw [right.records, left.records, h.records]
  next := by rw [right.next, left.next, h.next]
  numbers s r mem := left.next ▸ h.numbers s r (left.records s ▸ mem)
  filed s r mem := h.filed s r (left.records s ▸ mem)

theorem setTier (h : Atop b chain c d) (n : Nat) : Atop b chain (c.setTier n) (d.setTier n) :=
  h.reframe (.of_lists rfl rfl rfl rfl rfl rfl) (.of_lists rfl rfl rfl rfl rfl rfl)
    { h.view with tier := rfl }

theorem enter (h : Atop b chain c d) (name : String) :
    Atop b chain (c.enter name) (d.enter name) := by
  refine h.reframe (.enter name c) (.enter name d) ⟨rfl, rfl, h.view.shared, h.view.supported,
    h.view.tier, ?_⟩
  rw [enter_packageStack, enter_packageStack, h.view.stack]

/-- Leaving a package that was entered in both bundles brings back a view that was the same
before. -/
theorem leave (h : Atop b chain c' d') (before : SameView c d) (left : SameStacks (c.enter name) c')
    (right : SameStacks (d.enter name) d') :
    Atop b chain { c'.leave.2 with tier := c.tier } { d'.leave.2 with tier := d.tier } := by
  refine h.reframe ?_ ?_ ⟨?_, ?_, ?_, ?_, before.tier, ?_⟩
  · exact { SameRecords.leave c' with }
  · exact { SameRecords.leave d' with }
  · show d'.leave.2.metadata = c'.leave.2.metadata
    rw [Bundle.leave, Bundle.leave, left.outer, right.outer]
    show addInner name d'.metadata d.metadata = addInner name c'.metadata c.metadata
    rw [h.view.metadata, before.metadata]
  · show d'.leave.2.resources = c'.leave.2.resources
    rw [Bundle.leave, Bundle.leave, left.outer, right.outer]
    exact before.resources
  · show d'.leave.2.shared = c'.leave.2.shared
    rw [leave_shared, leave_shared, h.view.shared]
  · show d'.leave.2.supported = c'.leave.2.supported
    rw [Bundle.leave, Bundle.leave, left.outer, right.outer]
    exact h.view.supported
  · show d'.leave.2.packageStack = c'.leave.2.packageStack
    rw [left.leave.packageStack, right.leave.packageStack, before.stack]

/-- A local step keeps the relation, if findings about any file are filed under the chain. -/
theorem localStep (h : Atop b chain c d) {step : Step} (isLocal : step.IsLocal)
    (here : chain <+: c.packageStack) : Atop b chain (step.apply c) (step.apply d) := by
  cases isLocal with
  | push s f => exact (h.push s f fun file _ => here.trans (List.prefix_append ..)).2
  | describe name value =>
      refine h.reframe (.of_lists rfl rfl rfl rfl rfl rfl) (.of_lists rfl rfl rfl rfl rfl rfl) ?_
      exact { h.view with metadata := congrArg (Dict.insert name value) h.view.metadata }
  | share name value =>
      refine h.reframe (.of_lists rfl rfl rfl rfl rfl rfl) (.of_lists rfl rfl rfl rfl rfl rfl) ?_
      exact { h.view with resources := congrArg (Dict.insert name value) h.view.resources }
  | detect type =>
      exact h.reframe (.of_lists rfl rfl rfl rfl rfl rfl) (.of_lists rfl rfl rfl rfl rfl rfl)
        { h.view with }

/-- A run of local steps keeps the relation. -/
theorem localRun (h : Atop b chain c d) {f : Bundle → Bundle} (run : IsRun Step.IsLocal f)
    (here : chain <+: c.packageStack) : Atop b chain (f c) (f d) := by
  have kept :=
    run.induct₂ (R := fun c d => Atop b chain c d ∧ chain <+: c.packageStack) ?_ ⟨h, here⟩
  · exact kept.1
  · rintro step c d isLocal ⟨h, here⟩
    exact ⟨h.localStep isLocal here, (isLocal.samePlace c).packageStack ▸ here⟩

/-- Reports about a file keep the relation, if they are filed under the chain. -/
theorem reports (h : Atop b chain c d) {f : Bundle → Bundle} {file : String}
    (run : IsRun (Step.IsAbout file) f) (here : chain <+: c.packageStack ++ [file]) :
    Atop b chain (f c) (f d) := by
  have kept := run.induct₂
    (R := fun c d => Atop b chain c d ∧ chain <+: c.packageStack ++ [file]) ?_ ⟨h, here⟩
  · exact kept.1
  · rintro _ c d ⟨s, f, about⟩ ⟨h, here⟩
    refine ⟨(h.push s f fun other same => ?_).2, ?_⟩
    · cases about.symm.trans same
      exact here
    · rw [show Step.apply c (.operation (.push s f)) = (c.push s f).2 from rfl,
        (push_sameSetting s f c).packageStack]
      exact here

end Atop

end Bundle

end AddonAudit
