import AddonAudit.Proofs.Checks
import AddonAudit.Proofs.Relevance

/-!
# What a check records

The checks of manifests record findings that matter for all versions, and they never take one back.
So what a check does to the records of a bundle is said by a list: the findings that it makes, in
their order. Such lists are put together as the checks are, and the new records of one kind are read
off them.
-/

namespace AddonAudit.Bundle

variable {b c d : Bundle} {findings others : List (Severity × Finding)}

/-- The records of a severity that a later bundle has more than an earlier one. -/
def newRecords (b c : Bundle) (s : Severity) : List Record :=
  (c.records s).drop (b.records s).length

/-- The new records of a severity with an identifier. -/
def reported (b c : Bundle) (s : Severity) (id : List String) : List Record :=
  (newRecords b c s).filter (·.id = id)

/-- The findings of a severity with an identifier. -/
def pick (s : Severity) (id : List String) (findings : List (Severity × Finding)) : List Finding :=
  (findings.filter fun entry => entry.1 = s && entry.2.id = id).map Prod.snd

@[simp] theorem pick_nil (s : Severity) (id : List String) : pick s id [] = [] := rfl

@[simp] theorem pick_cons (s t : Severity) (id : List String) (f : Finding) :
    pick s id ((t, f) :: findings) = (if t = s ∧ f.id = id then [f] else []) ++
      pick s id findings := by
  by_cases here : t = s ∧ f.id = id <;> simp [pick, here]

@[simp] theorem pick_append (s : Severity) (id : List String) :
    pick s id (findings ++ others) = pick s id findings ++ pick s id others := by
  simp [pick]

/-- Among findings with other identifiers there is none to pick. -/
theorem pick_eq_nil {id : List String} (other : ∀ entry ∈ findings, entry.2.id ≠ id)
    (s : Severity) : pick s id findings = [] := by
  rw [pick, List.map_eq_nil_iff, List.filter_eq_nil_iff]
  intro entry mem
  simp [other entry mem]

/-- Findings of one severity and identifier are all picked. -/
theorem pick_map {α : Type} {id : List String} {f : α → Finding} (ids : ∀ a, (f a).id = id)
    (s : Severity) (list : List α) : pick s id (list.map fun a => (s, f a)) = list.map f := by
  simp [pick, List.filter_map, Function.comp_def, ids]

/-- A later bundle has, besides the records of an earlier one, those of some findings, in their
order and as they are stamped in the place of the earlier one. -/
structure Recorded (findings : List (Severity × Finding)) (b c : Bundle) : Prop where
  place : SamePlace b c
  records : ∀ s, ∃ new, c.records s = b.records s ++ new ∧
    new.map Record.unnumbered =
      (findings.filter (·.1 = s)).map fun entry => (b.stamp s entry.2).unnumbered

theorem SamePlace.unnumbered_stamp (h : SamePlace b c) (s : Severity) (f : Finding) :
    (c.stamp s f).unnumbered = (b.stamp s f).unnumbered := by
  simp only [stamp, Record.unnumbered, h.packageStack, h.tier]

namespace Recorded

/-- What changes no records and stays in its place records nothing. -/
theorem of_same (place : SamePlace b c) (same : ∀ s, c.records s = b.records s) : Recorded [] b c :=
  ⟨place, fun s => ⟨[], by simp [same], rfl⟩⟩

theorem refl (b : Bundle) : Recorded [] b b :=
  of_same (.refl b) fun _ => rfl

theorem trans (first : Recorded findings b c) (second : Recorded others c d) :
    Recorded (findings ++ others) b d where
  place := first.place.trans second.place
  records s := by
    obtain ⟨new, grown, made⟩ := first.records s
    obtain ⟨more, grown', made'⟩ := second.records s
    refine ⟨new ++ more, by rw [grown', grown, List.append_assoc], ?_⟩
    simp only [first.place.unnumbered_stamp] at made'
    rw [List.map_append, made, made', List.filter_append, List.map_append]

/-- A finding that matters for all versions is recorded. -/
theorem add {f : Finding} (always : f.forVersions = none) (s : Severity) (b : Bundle) :
    Recorded [(s, f)] b (b.add s f) where
  place := (isRun_add s f).samePlace b
  records t := by
    have relevant : b.isRelevant f.forVersions = true := by
      rw [always]
      rfl
    rw [add_of_relevant relevant, append_records]
    change ∃ new, (if s = t then _ else _) = _ ∧ _
    by_cases here : s = t
    · subst here
      exact ⟨[b.stamp s f], by simp⟩
    · exact ⟨[], by simp [here]⟩

theorem setMeta (name : String) (value : Json) (b : Bundle) :
    Recorded [] b (b.setMeta name value) :=
  of_same ((isRun_setMeta name value).samePlace b) fun s => by cases s <;> rfl

theorem share (name : String) (value : Json) (b : Bundle) :
    Recorded [] b (b.saveResource name value true) :=
  of_same ((isRun_share name value).samePlace b) fun s => by cases s <;> rfl

theorem newRecords_eq (h : Recorded findings b c) (s : Severity) :
    (newRecords b c s).map Record.unnumbered =
      (findings.filter (·.1 = s)).map fun entry => (b.stamp s entry.2).unnumbered := by
  obtain ⟨new, grown, made⟩ := h.records s
  rw [newRecords, grown, List.drop_left, made]

/-- Every new record is one of the findings. -/
theorem exists_of_mem_newRecords (h : Recorded findings b c) {s : Severity} {r : Record}
    (mem : r ∈ newRecords b c s) :
    ∃ f, (s, f) ∈ findings ∧ r.unnumbered = (b.stamp s f).unnumbered := by
  have made : r.unnumbered ∈ (newRecords b c s).map Record.unnumbered := List.mem_map_of_mem mem
  rw [h.newRecords_eq] at made
  obtain ⟨⟨t, f⟩, found, same⟩ := List.mem_map.1 made
  obtain ⟨isFinding, severity⟩ := List.mem_filter.1 found
  cases of_decide_eq_true severity
  exact ⟨f, isFinding, same.symm⟩

theorem isPrefix (h : Recorded findings b c) (s : Severity) : b.records s <+: c.records s := by
  obtain ⟨new, grown, -⟩ := h.records s
  exact ⟨new, grown.symm⟩

/-- What does not depend on the number of a record can be read off the findings. -/
theorem map_reported {β : Type} (h : Recorded findings b c) (s : Severity) (id : List String)
    (view : Record → β) (free : ∀ r, view r.unnumbered = view r) :
    (reported b c s id).map view = (pick s id findings).map fun f => view (b.stamp s f) := by
  have kept : (reported b c s id).map Record.unnumbered =
      ((newRecords b c s).map Record.unnumbered).filter (·.id = id) := by
    rw [reported, List.filter_map]
    rfl
  calc (reported b c s id).map view
      = ((reported b c s id).map Record.unnumbered).map view := by simp [free]
    _ = (pick s id findings).map fun f => view (b.stamp s f) := by
        rw [kept, h.newRecords_eq, List.filter_map, List.filter_filter, pick,
          List.map_map, List.map_map]
        simp only [Function.comp_def, free]
        congr 2
        funext entry
        exact Bool.and_comm ..

end Recorded

end AddonAudit.Bundle
