import AddonAudit.Version
import Mathlib.Order.Compare

/-!
# The order of versions

A version reads as a sequence of parts that goes on with zeros for ever. Two versions are compared
at the first place where their parts differ, and two parts at the first field where these differ. So
the order of versions takes its laws from the orders of numbers and texts: it is a total preorder,
in which versions such as `1.0+` and `1.1pre` are level without being equal.
-/

namespace AddonAudit.Version

/-- A comparison of what two values are mapped to has the laws of the comparison. -/
theorem transCmp_on {α β : Type} (cmp : β → β → Ordering) [Std.TransCmp cmp] (f : α → β) :
    Std.TransCmp fun a b => cmp (f a) (f b) where
  eq_swap := Std.OrientedCmp.eq_swap
  isLE_trans := Std.TransCmp.isLE_trans

/-- Labels are compared by whether they are empty, and as texts if none is. -/
theorem compareLabels_eq :
    compareLabels = compareLex (compareOn String.isEmpty) Ord.compare := by
  funext x y
  simp only [compareLabels, compareLex, compareOn]
  cases hx : x.isEmpty <;> cases hy : y.isEmpty
  · rfl
  · rfl
  · rfl
  · have empty : x = y := by
      rw [String.isEmpty_iff.1 hx, String.isEmpty_iff.1 hy]
    simp [empty]

instance : Std.TransCmp compareLabels :=
  compareLabels_eq ▸ inferInstance

instance : Std.TransCmp Part.compare :=
  have := transCmp_on compareLabels Part.label
  have := transCmp_on compareLabels Part.rest
  inferInstanceAs <| Std.TransCmp <|
    compareLex (compareOn Part.major) <| compareLex (fun p q => compareLabels p.label q.label) <|
      compareLex (compareOn Part.minor) fun p q => compareLabels p.rest q.rest

variable {ps qs rs : List Part}

/-- The part at a place. Past the end there are zeros. -/
def partAt (ps : List Part) (i : Nat) : Part :=
  ps.getD i .zero

theorem partAt_succ (ps : List Part) (i : Nat) : partAt ps (i + 1) = partAt ps.tail i := by
  cases ps <;> rfl

/-- One step of the comparison, whether or not the lists have come to their ends. -/
theorem compareParts_eq (ps qs : List Part) :
    compareParts ps qs =
      ((partAt ps 0).compare (partAt qs 0)).then (compareParts ps.tail qs.tail) := by
  cases ps with
  | nil =>
      cases qs with
      | nil =>
          -- Past both ends a zero is compared with a zero.
          have level : Part.zero.compare .zero = .eq := Std.ReflCmp.compare_self
          show Ordering.eq = (Part.zero.compare .zero).then .eq
          rw [level]
          rfl
      | cons q qs => rfl
  | cons p ps => cases qs <;> rfl

/-- Lists that are read together, place by place, until all of them have come to their ends. -/
theorem tails_induction {motive : List Part → List Part → List Part → Prop}
    (nil : motive [] [] [])
    (tails : ∀ ps qs rs, motive ps.tail qs.tail rs.tail → motive ps qs rs)
    (ps qs rs : List Part) : motive ps qs rs := by
  -- No single list need get shorter, so the induction is on a bound for all three lengths.
  obtain ⟨n, hp, hq, hr⟩ : ∃ n, ps.length ≤ n ∧ qs.length ≤ n ∧ rs.length ≤ n :=
    ⟨ps.length + qs.length + rs.length, by omega, by omega, by omega⟩
  induction n generalizing ps qs rs with
  | zero =>
      rw [List.length_eq_zero_iff.1 (Nat.le_zero.1 hp),
        List.length_eq_zero_iff.1 (Nat.le_zero.1 hq), List.length_eq_zero_iff.1 (Nat.le_zero.1 hr)]
      exact nil
  | succ n ih =>
      apply tails
      apply ih <;> rw [List.length_tail] <;> omega

theorem compareParts_swap (ps qs : List Part) :
    compareParts ps qs = (compareParts qs ps).swap := by
  induction ps, qs, [] using tails_induction with
  | nil => rfl
  | tails ps qs _ ih =>
      have first : (partAt ps 0).compare (partAt qs 0) =
          ((partAt qs 0).compare (partAt ps 0)).swap := Std.OrientedCmp.eq_swap
      rw [compareParts_eq ps qs, compareParts_eq qs ps, Ordering.swap_then, first, ih]

theorem compareParts_isLE_trans (hpq : (compareParts ps qs).isLE)
    (hqr : (compareParts qs rs).isLE) : (compareParts ps rs).isLE := by
  induction ps, qs, rs using tails_induction with
  | nil => rfl
  | tails ps qs rs ih =>
      rw [compareParts_eq, Ordering.isLE_then_iff_or] at hpq hqr ⊢
      -- The first parts decide unless they are level in both comparisons.
      rcases hpq with lt | ⟨eq, le⟩
      · rcases hqr with lt' | ⟨eq', -⟩
        · exact .inl (Std.TransCmp.lt_trans lt lt')
        · exact .inl (Std.TransCmp.lt_of_lt_of_eq lt eq')
      · rcases hqr with lt' | ⟨eq', le'⟩
        · exact .inl (Std.TransCmp.lt_of_eq_of_lt eq lt')
        · exact .inr ⟨Std.TransCmp.eq_trans eq eq', ih le le'⟩

/-- A list of parts is lower than another one if it is lower at the first place where they
differ. -/
theorem compareParts_eq_lt_iff (ps qs : List Part) :
    compareParts ps qs = .lt ↔
      ∃ i, (∀ j < i, (partAt ps j).compare (partAt qs j) = .eq) ∧
        (partAt ps i).compare (partAt qs i) = .lt := by
  induction ps, qs, [] using tails_induction with
  | nil =>
      have level (i : Nat) : (partAt [] i).compare (partAt [] i) = .eq := Std.ReflCmp.compare_self
      simp [compareParts, compareMissing, level]
  | tails ps qs _ ih =>
      rw [compareParts_eq, Ordering.then_eq_lt, ih]
      constructor
      · rintro (lt | ⟨eq, i, before, lt⟩)
        · exact ⟨0, by simp, lt⟩
        · refine ⟨i + 1, ?_, ?_⟩
          · intro j hj
            cases j with
            | zero => exact eq
            | succ j =>
                rw [partAt_succ, partAt_succ]
                exact before j (Nat.lt_of_succ_lt_succ hj)
          · rw [partAt_succ, partAt_succ]
            exact lt
      · rintro ⟨i, before, lt⟩
        cases i with
        | zero => exact .inl lt
        | succ i =>
            rw [partAt_succ, partAt_succ] at lt
            refine .inr ⟨before 0 (Nat.succ_pos i), i, ?_, lt⟩
            intro j hj
            rw [← partAt_succ, ← partAt_succ]
            exact before (j + 1) (Nat.succ_lt_succ hj)

instance : Std.TransCmp compareParts where
  eq_swap := compareParts_swap _ _
  isLE_trans := compareParts_isLE_trans

instance : Std.TransCmp compare :=
  transCmp_on compareParts parts

/-- The order of versions is a total preorder: every version is level with itself, a comparison the
other way round gives the reverse, and what is not above something that is not above a third is not
above the third. Versions that are level stand in the same way to every other one. The order is the
one of the first different part. -/
theorem compare_totalPreorder (x y z : String) :
    compare x x = .eq ∧
      compare y x = (compare x y).swap ∧
      (compare x y ≠ .gt → compare y z ≠ .gt → compare x z ≠ .gt) ∧
      (compare x y = .eq → compare x z = compare y z ∧ compare z x = compare z y) ∧
      (compare x y = .lt ↔
        ∃ i, (∀ j < i, (partAt (parts x) j).compare (partAt (parts y) j) = .eq) ∧
          (partAt (parts x) i).compare (partAt (parts y) i) = .lt) := by
  refine ⟨Std.ReflCmp.compare_self, Std.OrientedCmp.eq_swap, ?_, ?_, compareParts_eq_lt_iff _ _⟩
  · intro hxy hyz
    have le : (compare x y).isLE := Ordering.isLE_iff_ne_gt.2 hxy
    have le' : (compare y z).isLE := Ordering.isLE_iff_ne_gt.2 hyz
    exact Ordering.isLE_iff_ne_gt.1 (Std.TransCmp.isLE_trans le le')
  · intro level
    exact ⟨Std.TransCmp.congr_left level, Std.TransCmp.congr_right level⟩

/-- A plus sign after the highest number starts over at the lowest one; the order stays an order. -/
theorem compare_totalPreorder_wrapped :
    compare "9223372036854775807+" "9223372036854775807+.0" = .eq ∧
      compare "9223372036854775807+.0" "1.0+" ≠ .gt ∧
      compare "9223372036854775807+" "1.0+" ≠ .gt ∧
      compare "9223372036854775807+" "1.0+" = compare "9223372036854775807+.0" "1.0+" := by
  have level : compare "9223372036854775807+" "9223372036854775807+.0" = .eq := by decide +kernel
  have below : compare "9223372036854775807+.0" "1.0+" ≠ .gt := by decide +kernel
  obtain ⟨-, -, trans, congr, -⟩ :=
    compare_totalPreorder "9223372036854775807+" "9223372036854775807+.0" "1.0+"
  refine ⟨level, below, trans ?_ below, (congr level).1⟩
  rw [level]
  decide

end AddonAudit.Version
