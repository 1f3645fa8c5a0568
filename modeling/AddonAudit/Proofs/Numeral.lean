import AddonAudit.Number.Text

/-!
# Numerals

A number is written in a base by its digits, in either case and with any zeros in front. Every run
of digits is such a numeral, of the number that it is read as; so what is proved for numerals holds
for all runs of digits.
-/

namespace AddonAudit.Number

/-- Digits of a number in a base, in either case and with any zeros in front. -/
def IsNumeral (base : Nat) (digits : List Char) (n : Nat) : Prop :=
  ∃ zeros, digits.map Char.toLower = List.replicate zeros '0' ++ Nat.toDigits base n

section Digits

variable {base : Nat}

/-- A decimal digit stands for its distance from zero. -/
theorem digitValue_of_isDigit {c : Char} (digit : c.isDigit = true) :
    digitValue c = c.toNat - '0'.toNat :=
  if_pos digit

theorem digitValue_below : ∀ k < 128,
    digitValue (Char.ofNat k).toLower = digitValue (Char.ofNat k) ∧
      ((Char.ofNat k).isDigit = true ↔ digitValue (Char.ofNat k) < 10) := by
  decide +kernel

/-- Only ASCII characters are digits. -/
theorem digitValue_eq_of_le {c : Char} (high : 128 ≤ c.toNat) : digitValue c = 36 := by
  have noDigit : ¬c.isDigit = true := by
    intro digit
    have bounds : 48 ≤ c.toNat ∧ c.toNat ≤ 57 := by
      simpa [Char.isDigit, UInt32.le_iff_toNat_le] using digit
    omega
  have above : ∀ d : Char, d.toNat < 128 → ¬c ≤ d := by
    intro d small le
    have order : c.toNat ≤ d.toNat := UInt32.le_iff_toNat_le.1 (Char.le_def.1 le)
    omega
  rw [digitValue, if_neg noDigit, if_neg fun range => above 'z' (by decide) range.2,
    if_neg fun range => above 'Z' (by decide) range.2]

/-- What holds of the digits among the ASCII characters, of which there are few, holds of all
digits. -/
theorem forall_digit {P : Char → Prop}
    (below : ∀ k < 128, digitValue (Char.ofNat k) < 16 → P (Char.ofNat k)) {c : Char}
    (digit : digitValue c < 16) : P c := by
  by_cases low : c.toNat < 128
  · have known := below c.toNat low
    rw [Char.ofNat_toNat] at known
    exact known digit
  · have noDigit := digitValue_eq_of_le (Nat.le_of_not_lt low)
    omega

/-- A digit counts the same in either case. -/
theorem digitValue_toLower (c : Char) : digitValue c.toLower = digitValue c := by
  by_cases low : c.toNat < 128
  · have known := (digitValue_below c.toNat low).1
    rwa [Char.ofNat_toNat] at known
  · have same : c.toLower = c := by
      refine dif_neg fun upper => low ?_
      have last := UInt32.le_iff_toNat_le.1 upper.2
      exact Nat.lt_of_le_of_lt last (by decide)
    rw [same]

theorem isDigit_iff {c : Char} : c.isDigit = true ↔ digitValue c < 10 := by
  by_cases low : c.toNat < 128
  · have known := (digitValue_below c.toNat low).2
    rwa [Char.ofNat_toNat] at known
  · have noDigit := digitValue_eq_of_le (Nat.le_of_not_lt low)
    refine iff_of_false (fun digit => low ?_) (by omega)
    have bounds : 48 ≤ c.toNat ∧ c.toNat ≤ 57 := by
      simpa [Char.isDigit, UInt32.le_iff_toNat_le] using digit
    omega

theorem toLower_eq_digitChar {c : Char} (digit : digitValue c < 16) :
    c.toLower = (digitValue c).digitChar :=
  forall_digit (P := fun c => c.toLower = (digitValue c).digitChar) (by decide +kernel) digit

theorem digitValue_digitChar : ∀ {d : Nat}, d < 16 → digitValue d.digitChar = d := by
  decide

theorem ofDigits_append (base : Nat) (digits : List Char) (c : Char) :
    ofDigits base (digits ++ [c]) = base * ofDigits base digits + digitValue c := by
  rw [ofDigits, List.foldl_append]
  rfl

theorem ofDigits_map_toLower (base : Nat) (digits : List Char) :
    ofDigits base (digits.map Char.toLower) = ofDigits base digits := by
  rw [ofDigits, List.foldl_map]
  simp only [digitValue_toLower]
  rfl

theorem ofDigits_zeros (base zeros : Nat) (digits : List Char) :
    ofDigits base (List.replicate zeros '0' ++ digits) = ofDigits base digits := by
  induction zeros with
  | zero => rfl
  | succ zeros ih =>
      rw [List.replicate_succ, List.cons_append, ← ih]
      exact congrArg (List.foldl _ · _) (Nat.mul_zero base)

/-- The digits of a number have its value. -/
theorem ofDigits_toDigits (one : 1 < base) (small : base ≤ 16) (n : Nat) :
    ofDigits base (Nat.toDigits base n) = n ∧ ∀ c ∈ Nat.toDigits base n, digitValue c < base := by
  induction n using Nat.strongRecOn with
  | ind n ih =>
      by_cases single : n < base
      · have value := digitValue_digitChar (Nat.lt_of_lt_of_le single small)
        rw [Nat.toDigits_of_lt_base single]
        exact ⟨by simpa [ofDigits] using value, by simpa [value] using single⟩
      · have digit : n % base < base := Nat.mod_lt n (by omega)
        have value := digitValue_digitChar (Nat.lt_of_lt_of_le digit small)
        obtain ⟨front, digits⟩ := ih (n / base) (Nat.div_lt_self (by omega) one)
        rw [Nat.toDigits_of_base_le one (Nat.le_of_not_lt single), ofDigits_append, front, value]
        refine ⟨Nat.div_add_mod n base, fun c mem => ?_⟩
        rcases List.mem_append.1 mem with earlier | last
        · exact digits c earlier
        · rw [List.mem_singleton.1 last, value]
          exact digit

/-- Digits that are read after a number come behind its digits. -/
theorem toDigits_foldl (one : 1 < base) (small : base ≤ 16) {digits : List Char}
    (all : ∀ c ∈ digits, digitValue c < base) {n : Nat} (positive : 0 < n) :
    Nat.toDigits base (digits.foldl (fun n c => base * n + digitValue c) n) =
      Nat.toDigits base n ++ digits.map Char.toLower := by
  induction digits generalizing n with
  | nil => simp
  | cons c digits ih =>
      obtain ⟨digit, later⟩ := List.forall_mem_cons.1 all
      have step := Nat.toDigits_append_toDigits one positive digit
      rw [Nat.toDigits_of_lt_base digit,
        ← toLower_eq_digitChar (Nat.lt_of_lt_of_le digit small)] at step
      have next : 0 < base * n + digitValue c :=
        Nat.add_pos_left (Nat.mul_pos (by omega) positive) _
      rw [List.foldl_cons, ih later next, ← step, List.append_assoc]
      rfl

/-- A run of digits is a numeral of what it is read as. -/
theorem isNumeral_ofDigits (one : 1 < base) (small : base ≤ 16) {digits : List Char}
    (nonempty : digits ≠ []) (all : ∀ c ∈ digits, digitValue c < base) :
    IsNumeral base digits (ofDigits base digits) := by
  induction digits with
  | nil => exact absurd rfl nonempty
  | cons c digits ih =>
      obtain ⟨digit, later⟩ := List.forall_mem_cons.1 all
      have lower := toLower_eq_digitChar (Nat.lt_of_lt_of_le digit small)
      have first : ofDigits base (c :: digits) =
          digits.foldl (fun n c => base * n + digitValue c) (digitValue c) := by
        rw [ofDigits, List.foldl_cons, Nat.mul_zero, Nat.zero_add]
      by_cases zero : digitValue c = 0
      · -- a zero in front makes no difference unless it is the only digit
        rw [zero] at lower
        cases digits with
        | nil =>
            refine ⟨0, ?_⟩
            rw [first, List.foldl_nil, zero, Nat.toDigits_zero, List.map_singleton, lower]
            rfl
        | cons d digits =>
            obtain ⟨zeros, rest⟩ := ih (List.cons_ne_nil d digits) later
            refine ⟨zeros + 1, ?_⟩
            rw [List.map_cons, rest, first, zero, lower]
            rfl
      · refine ⟨0, ?_⟩
        rw [first, toDigits_foldl one small later (Nat.pos_of_ne_zero zero),
          Nat.toDigits_of_lt_base digit, ← lower]
        rfl

/-- The digits of a number are a numeral of it. -/
theorem isNumeral_toDigits (one : 1 < base) (small : base ≤ 16) (n : Nat) :
    IsNumeral base (Nat.toDigits base n) n := by
  obtain ⟨value, digits⟩ := ofDigits_toDigits one small n
  have numeral := isNumeral_ofDigits one small Nat.toDigits_ne_nil digits
  rwa [value] at numeral

end Digits

namespace IsNumeral

variable {base : Nat} {digits : List Char} {n : Nat}

theorem ofDigits (numeral : IsNumeral base digits n) (one : 1 < base) (small : base ≤ 16) :
    Number.ofDigits base digits = n := by
  obtain ⟨zeros, lower⟩ := numeral
  calc
    Number.ofDigits base digits = Number.ofDigits base (digits.map Char.toLower) :=
      (ofDigits_map_toLower base digits).symm
    _ = n := by rw [lower, ofDigits_zeros, (ofDigits_toDigits one small n).1]

theorem digitValue_lt (numeral : IsNumeral base digits n) (one : 1 < base) (small : base ≤ 16) :
    ∀ c ∈ digits, digitValue c < base := by
  obtain ⟨zeros, lower⟩ := numeral
  intro c mem
  have mem : c.toLower ∈ List.replicate zeros '0' ++ Nat.toDigits base n :=
    lower ▸ List.mem_map_of_mem mem
  rw [← digitValue_toLower]
  rcases List.mem_append.1 mem with zero | digit
  · rw [List.eq_of_mem_replicate zero]
    exact Nat.zero_lt_of_lt one
  · exact (ofDigits_toDigits one small n).2 _ digit

theorem ne_nil (numeral : IsNumeral base digits n) : digits ≠ [] := by
  obtain ⟨zeros, lower⟩ := numeral
  rintro rfl
  have empty := (List.append_eq_nil_iff.1 lower.symm).2
  exact Nat.toDigits_ne_nil empty

/-- Digits are read as their number if it is below the bound. -/
theorem natural? (numeral : IsNumeral base digits n) (one : 1 < base) (small : base ≤ 16)
    (bound : Nat) : Number.natural? base bound digits = if n < bound then some n else none := by
  have all : digits.all (digitValue · < base) = true :=
    List.all_eq_true.2 fun c mem => decide_eq_true (numeral.digitValue_lt one small c mem)
  have nonempty : digits.isEmpty = false := by simpa using numeral.ne_nil
  rw [Number.natural?, all, nonempty, numeral.ofDigits one small]
  rfl

end IsNumeral

end AddonAudit.Number
