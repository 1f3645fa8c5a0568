import AddonAudit.Proofs.Growth
import AddonAudit.Proofs.Run

/-!
# Bundles that go on from an earlier one

While no package is entered or left, every new number belongs to the open package, so the ledger
since an earlier bundle is known without the run. A bundle goes on from an earlier one if it has
only gained records since, and if its tree and its counts agree with that ledger. Recording goes on,
and so does taking back by a new number.
-/

namespace AddonAudit.Bundle

/-- A ledger, the tree and the counts of a bundle agree with its records. -/
structure Fits (b : Bundle) (l : Ledger) : Prop where
  kept : Kept b l
  sound : Sound b

/-- The tree is built from the live records of the open package, and the summaries count the
records. -/
theorem Fits.agrees {b : Bundle} {l : Ledger} (h : b.Fits l) :
    b.tree = treeOf (b.live l.own) ∧
      (∀ g, b.signing.get g = b.messages.countP (·.signing = some g)) ∧
      ∀ s, b.compat.get s = b.messages.countP (·.compatibility = some s) :=
  ⟨h.kept.tree, fun g => h.sound.counted (.signing g), fun s => h.sound.counted (.compat s)⟩

/-- The ledger of a bundle that goes on from an earlier one: all numbers since belong to the open
package. -/
def Ledger.since (l : Ledger) (b c : Bundle) : Ledger :=
  { l with own := l.own ++ List.range' b.next (c.next - b.next) }

/-- A bundle goes on from an earlier one. -/
structure Continues (l : Ledger) (b c : Bundle) : Prop where
  grown : b.Grown c
  fits : c.Fits (l.since b c)

variable {b c d : Bundle} {l : Ledger} {uid : Nat}

/-- A bundle that is reached by operations fits the ledger of the run. -/
theorem Reached.fits (h : Reached b l) : b.Fits l := by
  refine ⟨h.kept, ?_⟩
  induction h with
  | start versions => exact .start versions
  | step _ op _ ih => exact ih.apply (.operation op)

theorem Ledger.since_self (l : Ledger) (b : Bundle) : l.since b b = l := by
  simp [Ledger.since]

theorem Ledger.since_since (l : Ledger) (h : b.next ≤ c.next) (k : c.next ≤ d.next) :
    (l.since b c).since c d = l.since b d := by
  have start : b.next + (c.next - b.next) = c.next := by omega
  have length : c.next - b.next + (d.next - c.next) = d.next - b.next := by omega
  have joined : List.range' b.next (c.next - b.next) ++ List.range' c.next (d.next - c.next) =
      List.range' b.next (d.next - b.next) := by
    have all := List.range'_append_1 (s := b.next) (m := c.next - b.next) (n := d.next - c.next)
    rwa [start, length] at all
  simp only [Ledger.since, List.append_assoc, joined]

/-- The number of a new record is the last one. -/
theorem Ledger.since_push (l : Ledger) (h : b.next ≤ c.next) (s : Severity) (f : Finding) :
    l.since b (c.push s f).2 =
      { l.since b c with own := (l.since b c).own ++ (c.push s f).1.toList } := by
  rcases push_cases s f c with left | made
  · simp [left]
  · have one : c.next + 1 - b.next = c.next - b.next + 1 := by omega
    have last : b.next + (c.next - b.next) = c.next := by omega
    rw [made]
    simp only [Ledger.since, append_stamp_next, one, List.range'_1_concat, last, List.append_assoc,
      Option.toList_some]

/-- A number since an earlier bundle is in use, and so it is in the ledger. -/
theorem Ledger.mem_since (l : Ledger) (new : b.next ≤ uid) (used : uid < c.next) :
    uid ∈ (l.since b c).own := by
  refine List.mem_append_right _ (List.mem_range'_1.2 ⟨new, ?_⟩)
  omega

namespace Continues

theorem refl (h : b.Fits l) : Continues l b b :=
  ⟨.refl b, (l.since_self b).symm ▸ h⟩

theorem trans (h : Continues l b c) (k : Continues (l.since b c) c d) : Continues l b d :=
  ⟨h.grown.trans k.grown, l.since_since h.grown.next k.grown.next ▸ k.fits⟩

theorem push (h : Continues l b c) (s : Severity) (f : Finding) :
    Continues l b (c.push s f).2 := by
  refine ⟨h.grown.trans (.push s f c), ?_, h.fits.sound.apply (.operation (.push s f))⟩
  rw [l.since_push h.grown.next s f]
  exact h.fits.kept.push s f

/-- A new number is the open package's own, or no record has it. -/
theorem drop (h : Continues l b c) (start : Numbered b) (new : b.next ≤ uid) :
    Continues l b (c.drop uid).2 := by
  have allowed : Operation.Allowed c (l.since b c) (.drop uid) := by
    by_cases used : uid < c.next
    · exact .inr (l.mem_since new used)
    · refine .inl fun r mem same => used ?_
      exact same ▸ h.fits.sound.numbered.below r mem
  have next : l.since b (c.drop uid).2 = l.since b c := by
    rw [Ledger.since, drop_next, Ledger.since]
  refine ⟨h.grown.drop start.below new, ?_, h.fits.sound.apply (.operation (.drop uid))⟩
  rw [next]
  exact h.fits.kept.drop allowed

end Continues

theorem records_sublist (b : Bundle) (s : Severity) : (b.records s).Sublist b.messages := by
  have warnings := List.sublist_append_right b.errors b.warnings
  cases s with
  | error => exact (List.sublist_append_left _ _).trans (List.sublist_append_left _ _)
  | warning => exact warnings.trans (List.sublist_append_left _ _)
  | notice => exact List.sublist_append_right _ _

/-- Where no two records have the same number, taking out the first one with a number takes out
all. -/
theorem eraseP_eq_filter {records : List Record} {r : Record} (mem : r ∈ records)
    (distinct : (records.map (·.uid)).Nodup) :
    records.eraseP (·.uid = r.uid) = records.filter (·.uid ≠ r.uid) := by
  obtain ⟨x, front, back, before, this, split, erased⟩ :=
    List.exists_of_eraseP (p := fun x : Record => x.uid = r.uid) mem (by simp)
  have here : x.uid = r.uid := by simpa using this
  have after : ∀ y ∈ back, y.uid ≠ r.uid := by
    intro y mem same
    rw [split, List.map_append, List.map_cons] at distinct
    have new := (List.nodup_cons.1 (List.nodup_append.1 distinct).2.1).1
    exact new (List.mem_map.2 ⟨y, mem, same.trans here.symm⟩)
  have frontLeft : front.filter (·.uid ≠ r.uid) = front :=
    List.filter_eq_self.2 fun y mem => by simpa using before y mem
  have backLeft : back.filter (·.uid ≠ r.uid) = back :=
    List.filter_eq_self.2 fun y mem => by simpa using after y mem
  rw [erased, split, List.filter_append, List.filter_cons_of_neg (by simpa using here), frontLeft,
    backLeft]

/-- Taking back a number takes its record out of every list. -/
theorem Sound.drop_records (h : Sound b) (uid : Nat) (s : Severity) :
    (b.drop uid).2.records s = (b.records s).filter (·.uid ≠ uid) := by
  rcases drop_cases uid b with ⟨missing, missed⟩ | ⟨t, r, mem, rfl, hit⟩
  · rw [missed]
    refine (List.filter_eq_self.2 fun r mem => ?_).symm
    simpa using missing r (mem_messages.2 ⟨s, mem⟩)
  · rw [hit, retract_records]
    split
    next same =>
      subst same
      exact eraseP_eq_filter mem (h.numbered.distinct.sublist ((b.records_sublist t).map _))
    next other =>
      refine (List.filter_eq_self.2 fun x there => ?_).symm
      have apart : x.uid ≠ r.uid := by
        intro same
        obtain rfl :=
          h.numbered.eq_of_uid (mem_messages.2 ⟨s, there⟩) (mem_messages.2 ⟨t, mem⟩) same
        exact other ((h.sorted t x mem).symm.trans (h.sorted s x there))
      simpa using apart

/-- A finding for all versions is recorded in the list of its severity. -/
theorem push_records_of_always {f : Finding} (always : f.forVersions = none) (s t : Severity)
    (b : Bundle) :
    (b.push s f).2.records t = if s = t then b.records t ++ [b.stamp s f] else b.records t := by
  have relevant : b.isRelevant f.forVersions = true := by
    rw [always]
    rfl
  rw [push, if_pos relevant]
  exact append_records

/-- Take back the records with some numbers. -/
def dropAll (uids : List Nat) (b : Bundle) : Bundle :=
  uids.foldl (fun b uid => (b.drop uid).2) b

theorem dropAll_append (first second : List Nat) (b : Bundle) :
    b.dropAll (first ++ second) = (b.dropAll first).dropAll second :=
  List.foldl_append

theorem Continues.dropAll {uids : List Nat} (h : Continues l b c) (start : Numbered b)
    (new : ∀ uid ∈ uids, b.next ≤ uid) : Continues l b (c.dropAll uids) := by
  induction uids generalizing c with
  | nil => exact h
  | cons uid rest ih =>
      obtain ⟨first, others⟩ := List.forall_mem_cons.1 new
      exact ih (h.drop start first) others

/-- Taking back some numbers takes their records out of every list. -/
theorem Sound.dropAll_records (h : Sound b) (uids : List Nat) (s : Severity) :
    (b.dropAll uids).records s = (b.records s).filter (·.uid ∉ uids) := by
  induction uids generalizing b with
  | nil => exact (List.filter_eq_self.2 fun _ _ => by simp).symm
  | cons uid rest ih =>
      have dropped : ((b.drop uid).2.dropAll rest).records s =
          ((b.drop uid).2.records s).filter (·.uid ∉ rest) := ih (h.apply (.operation (.drop uid)))
      refine dropped.trans ?_
      rw [h.drop_records, List.filter_filter]
      refine List.filter_congr fun r _ => ?_
      simp [Bool.and_comm]

end AddonAudit.Bundle
