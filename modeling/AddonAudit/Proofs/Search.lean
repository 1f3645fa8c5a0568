import AddonAudit.Text.Search
import Mathlib.Data.List.TakeWhile

/-!
# What binary search finds

In an array of increasing numbers, those up to a number are the first ones. The search finds how
many they are: with the number itself it stops at the last of them, and without it right behind
them.
-/

namespace AddonAudit.Text

/-- In an increasing list the numbers up to `x` are those at the front. -/
theorem getElem_le_iff_lt_length_takeWhile {xs : List Nat}
    (increasing : xs.Pairwise (· < ·)) (x : Nat) {i : Nat} (inside : i < xs.length) :
    xs[i] ≤ x ↔ i < (xs.takeWhile (· ≤ x)).length := by
  induction xs generalizing i with
  | nil => cases inside
  | cons a xs ih =>
      obtain ⟨above, increasing⟩ := List.pairwise_cons.1 increasing
      by_cases small : a ≤ x
      · rw [List.takeWhile_cons_of_pos (by simpa using small), List.length_cons]
        cases i with
        | zero => simpa using small
        | succ i => simpa using ih increasing (Nat.lt_of_succ_lt_succ inside)
      · rw [List.takeWhile_cons_of_neg (by simpa using small)]
        cases i with
        | zero => simpa using small
        | succ i =>
            have larger := above _ (List.getElem_mem (Nat.lt_of_succ_lt_succ inside))
            simp only [List.getElem_cons_succ, List.length_nil]
            omega

theorem mem_takeWhile_le_iff {xs : List Nat} (increasing : xs.Pairwise (· < ·)) {x y : Nat} :
    y ∈ xs.takeWhile (· ≤ x) ↔ y ∈ xs ∧ y ≤ x := by
  induction xs with
  | nil => simp
  | cons a xs ih =>
      obtain ⟨above, increasing⟩ := List.pairwise_cons.1 increasing
      by_cases small : a ≤ x
      · rw [List.takeWhile_cons_of_pos (by simpa using small), List.mem_cons, List.mem_cons,
          ih increasing]
        constructor
        · rintro (rfl | ⟨mem, le⟩)
          · exact ⟨.inl rfl, small⟩
          · exact ⟨.inr mem, le⟩
        · rintro ⟨rfl | mem, le⟩
          · exact .inl rfl
          · exact .inr ⟨mem, le⟩
      · rw [List.takeWhile_cons_of_neg (by simpa using small)]
        refine iff_of_false List.not_mem_nil ?_
        rintro ⟨mem, le⟩
        rcases List.mem_cons.1 mem with rfl | mem
        · exact small le
        · have larger := above y mem
          omega

/-- How many numbers of an array are at most `x`, if these are the first ones. -/
def Edge (xs : Array Nat) (x k : Nat) : Prop :=
  k ≤ xs.size ∧ ∀ i < xs.size, xs.getD i 0 ≤ x ↔ i < k

theorem edge_of_increasing {xs : List Nat} (increasing : xs.Pairwise (· < ·)) (x : Nat) :
    Edge xs.toArray x (xs.takeWhile (· ≤ x)).length := by
  refine ⟨(List.takeWhile_prefix _).length_le, fun i inside => ?_⟩
  have inside' : i < xs.length := inside
  rw [← getElem_le_iff_lt_length_takeWhile increasing x inside']
  simp [Array.getD, inside']

variable {xs : Array Nat} {x k : Nat}

/-- Halving keeps the last of the first numbers inside of the part. -/
theorem lastUpTo_eq (edge : Edge xs x k) {base size : Nat} (inside : base + size ≤ xs.size)
    (nonempty : 0 < size) (low : base ≤ k - 1) (high : k ≤ base + size) :
    lastUpTo xs x base size = k - 1 := by
  fun_induction lastUpTo xs x base size with
  | case1 base size more middle next ih =>
      have here := edge.2 middle (by omega)
      by_cases left : x < xs.getD middle 0
      · have next_eq : next = base := if_pos left
        rw [next_eq] at ih ⊢
        exact ih (by omega) (by omega) low (by omega)
      · have next_eq : next = middle := if_neg left
        rw [next_eq] at ih ⊢
        exact ih (by omega) (by omega) (by omega) (by omega)
  | case2 base size one => omega

/-- The search finds a number at the last place of those up to it, and else the place behind
them. -/
theorem binarySearch_eq (edge : Edge xs x k) :
    binarySearch xs x = if 0 < k ∧ xs.getD (k - 1) 0 = x then .ok (k - 1) else .error k := by
  have size := edge.1
  rw [binarySearch]
  split
  next isEmpty =>
    have empty : xs.size = 0 := by simpa using isEmpty
    rw [if_neg (by omega), show k = 0 by omega]
  next more =>
    have full : 0 < xs.size := by
      simpa [Array.size_pos_iff] using more
    have place : lastUpTo xs x 0 xs.size = k - 1 :=
      lastUpTo_eq edge (by omega) full (Nat.zero_le _) (by omega)
    have last := edge.2 (k - 1) (by omega)
    simp only [place]
    split
    next same =>
      have equal := Nat.compare_eq_eq.1 same
      rw [if_pos ⟨by omega, equal⟩]
    next less =>
      have lower := Nat.compare_eq_lt.1 less
      rw [if_neg (by omega), show k - 1 + 1 = k by omega]
    next greater =>
      have upper := Nat.compare_eq_gt.1 greater
      rw [if_neg (by omega), show k - 1 = k by omega]

end AddonAudit.Text
