import AddonAudit.Check.Battery
import AddonAudit.Proofs.Bundle

/-!
# Bundles that have grown

A bundle has grown out of another one if every list of records is the earlier list followed by
records with new numbers, and nothing else has changed but the counts. Recording lets a bundle grow;
taking back a record by a new number undoes growth only.
-/

namespace AddonAudit

namespace Bundle

/-- A bundle that has only gained records since an earlier one. -/
structure Grown (b c : Bundle) : Prop where
  setting : b.SameSetting c
  next : b.next ≤ c.next
  records : ∀ s, ∃ new, c.records s = b.records s ++ new ∧ ∀ r ∈ new, b.next ≤ r.uid

namespace Grown

variable {b c d : Bundle}

theorem refl (b : Bundle) : b.Grown b := by
  refine ⟨.refl b, Nat.le_refl _, fun s => ⟨[], (List.append_nil _).symm, ?_⟩⟩
  intro r mem
  exact absurd mem List.not_mem_nil

theorem trans (h : b.Grown c) (k : c.Grown d) : b.Grown d := by
  refine ⟨h.setting.trans k.setting, Nat.le_trans h.next k.next, fun s => ?_⟩
  obtain ⟨new, grown, above⟩ := h.records s
  obtain ⟨newer, grown', above'⟩ := k.records s
  refine ⟨new ++ newer, by rw [grown', grown, List.append_assoc], fun r mem => ?_⟩
  rcases List.mem_append.1 mem with mem | mem
  · exact above r mem
  · exact Nat.le_trans h.next (above' r mem)

/-- Recording a finding lets a bundle grow. -/
theorem push (s : Severity) (f : Finding) (b : Bundle) : b.Grown (b.push s f).2 := by
  rcases push_cases s f b with left | recorded
  · rw [left]
    exact .refl b
  · rw [recorded]
    refine ⟨append_sameSetting, ?_, fun t => ?_⟩
    · rw [append_next]
      exact Nat.le_succ b.next
    · rw [append_records]
      split
      · exact ⟨[b.stamp s f], rfl, fun r mem => List.mem_singleton.1 mem ▸ Nat.le_refl _⟩
      · exact (Grown.refl b).records t

/-- Taking back a record with a new number leaves the earlier records in place. -/
theorem drop {uid : Nat} (fresh : ∀ r ∈ b.messages, r.uid < b.next) (h : b.Grown c)
    (new : b.next ≤ uid) : b.Grown (c.drop uid).2 := by
  rcases drop_cases uid c with ⟨-, missing⟩ | ⟨s, r, -, rfl, taken⟩
  · rw [missing]
    exact h
  · rw [taken]
    refine ⟨h.setting.trans retract_sameSetting, retract_next.symm ▸ h.next, fun t => ?_⟩
    obtain ⟨added, grown, above⟩ := h.records t
    rw [retract_records]
    split
    · have old : ∀ x ∈ b.records t, ¬ decide (x.uid = r.uid) = true := by
        intro x mem same
        have below := fresh x (mem_messages.2 ⟨t, mem⟩)
        have equal := of_decide_eq_true same
        omega
      refine ⟨added.eraseP (·.uid = r.uid), ?_, fun x mem => above x (List.mem_of_mem_eraseP mem)⟩
      rw [grown, List.eraseP_append_right _ old]
    · exact ⟨added, grown, above⟩

end Grown

end Bundle

namespace Battery

open AddonAudit.Bundle

/-- Folding steps that let a bundle grow lets it grow. -/
theorem foldl_grown {α : Type} {step : Bundle → α → Bundle}
    (grows : ∀ (b : Bundle) a, b.Grown (step b a))
    (list : List α) (b : Bundle) : b.Grown (list.foldl step b) := by
  induction list generalizing b with
  | nil => exact .refl b
  | cons a rest ih => exact (grows b a).trans (ih (step b a))

theorem checkLines_grown (file : String) (lines : Text.Lines) (number : Nat)
    (rest : List (List Char)) (b : Bundle) : b.Grown (checkLines file lines number rest b) := by
  induction rest generalizing number b with
  | nil => exact .refl b
  | cons line rest ih =>
      have checked : b.Grown (checkLine file lines number line b) :=
        foldl_grown (fun b t => foldl_grown (fun b _ => .push _ _ b) _ b) _ b
      exact checked.trans (ih (number + 1) _)

/-- The tests of lines only add records. -/
theorem checkScript_grown (file : String) (source : List Char) (b : Bundle) :
    b.Grown (checkScript file source b) :=
  checkLines_grown ..

end Battery

end AddonAudit
