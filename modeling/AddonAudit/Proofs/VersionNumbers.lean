import AddonAudit.Proofs.Numeral
import AddonAudit.Proofs.VersionRules
import Mathlib.Algebra.Group.Int.Defs
import Mathlib.Algebra.Group.Nat.Defs
import Mathlib.Data.List.Basic

/-!
# Numbers in versions

A number in a version is kept in 64 bits. Below the limit numbers compare as numbers do, however
they are written; above it all of them count as zero. A plus sign stands for the start of the next
number, which the highest number does not have: there, and nowhere else, reading a part leaves the
range.
-/

namespace AddonAudit.Version

open Number (IsNumeral)

variable {digits : List Char} {n : Nat}

/-- What a number counts as in a version. -/
def counted (n : Nat) : Nat :=
  if n < 2 ^ 63 then n else 0

theorem counted_lt (n : Nat) : counted n < 2 ^ 63 := by
  rw [counted]
  split <;> omega

theorem isDigit_of_isNumeral (numeral : IsNumeral 10 digits n) : ∀ c ∈ digits, c.isDigit = true :=
  fun c mem => Number.isDigit_iff.2 (numeral.digitValue_lt (by decide) (by decide) c mem)

/-- A run of decimal digits is read as what its number counts as. -/
theorem number_of_isNumeral (numeral : IsNumeral 10 digits n) :
    number digits = Int64.ofNat (counted n) := by
  have value : digits.foldl (fun n c => 10 * n + (c.toNat - '0'.toNat)) 0 = n := by
    rw [← numeral.ofDigits (by decide) (by decide)]
    refine List.foldl_ext _ _ 0 fun a c mem => ?_
    rw [Number.digitValue_of_isDigit (isDigit_of_isNumeral numeral c mem)]
  have limit : Number.twoTo 63 = 2 ^ 63 := rfl
  simp only [number, value, limit, counted]
  split <;> rfl

theorem toInt_ofNat_counted (n : Nat) : (Int64.ofNat (counted n)).toInt = counted n :=
  Int64.toInt_ofNat_of_lt (counted_lt n)

theorem compare_ofNat_counted (m n : Nat) :
    Ord.compare (Int64.ofNat (counted m)) (Int64.ofNat (counted n)) =
      Ord.compare (counted m) (counted n) := by
  have order (a b : Nat) : Int64.ofNat (counted a) < Int64.ofNat (counted b) ↔
      counted a < counted b := by
    rw [Int64.lt_iff_toInt_lt, toInt_ofNat_counted, toInt_ofNat_counted, Int.ofNat_lt]
  rcases Nat.lt_trichotomy (counted m) (counted n) with below | level | above
  · rw [Nat.compare_eq_lt.2 below]
    exact Std.compare_eq_lt.2 ((order m n).2 below)
  · rw [level, Nat.compare_eq_eq.2 rfl]
    exact Std.ReflCmp.compare_self
  · rw [Nat.compare_eq_gt.2 above]
    exact Std.compare_eq_gt.2 ((order n m).2 above)

section Parts

/-- What follows the digits of a part, read as a label, a number and a rest. -/
theorem ofChars_digits_append (nonempty : digits ≠ []) (allDigits : ∀ c ∈ digits, c.isDigit = true)
    {label : List Char} (plain : ∀ c ∈ label.head?, !c.isDigit) :
    Part.ofChars (digits ++ label) =
      if (takeLabel label).1 = "+" then ⟨number digits + 1, "pre", 0, ""⟩
      else ⟨number digits, (takeLabel label).1, (takeNumber (takeLabel label).2).1,
        String.ofList (takeNumber (takeLabel label).2).2⟩ := by
  have noStar : digits ++ label ≠ ['*'] := by
    intro star
    obtain ⟨d, digits, rfl⟩ := List.exists_cons_of_ne_nil nonempty
    obtain ⟨rfl, -⟩ := List.cons.inj star
    exact absurd (allDigits '*' List.mem_cons_self) (by decide)
  simp only [Part.ofChars, if_neg noStar, takeNumber_append allDigits plain]

theorem ofChars_of_isNumeral (numeral : IsNumeral 10 digits n) :
    Part.ofChars digits = ⟨Int64.ofNat (counted n), "", 0, ""⟩ := by
  have plain : ∀ c ∈ ([] : List Char).head?, !c.isDigit := by simp
  have read := ofChars_digits_append numeral.ne_nil (isDigit_of_isNumeral numeral) plain
  rw [List.append_nil, number_of_isNumeral numeral] at read
  exact read

theorem ofChars_plus_of_isNumeral (numeral : IsNumeral 10 digits n) :
    Part.ofChars (digits ++ ['+']) = ⟨Int64.ofNat (counted n) + 1, "pre", 0, ""⟩ := by
  have plain : ∀ c ∈ ['+'].head?, !c.isDigit := by simp
  have read := ofChars_digits_append numeral.ne_nil (isDigit_of_isNumeral numeral) plain
  rw [number_of_isNumeral numeral] at read
  exact read

end Parts

section Limit

/-- Reading a part adds one to a number for a plus sign, and the sum is not in the range. -/
def Overflows (cs : List Char) : Prop :=
  (takeLabel (takeNumber cs).2).1 = "+" ∧
  ((takeNumber cs).1 + 1).toInt ≠ (takeNumber cs).1.toInt + 1

theorem toInt_add_one {a : Int64} (below : a.toInt ≠ 2 ^ 63 - 1) : (a + 1).toInt = a.toInt + 1 := by
  have low := a.le_toInt
  have high := a.toInt_lt
  have one : (1 : Int64).toInt = 1 := rfl
  rw [Int64.toInt_add, one, Int.bmod_eq_of_le (by omega) (by omega)]

theorem toInt_add_one_eq_iff (a : Int64) : (a + 1).toInt = a.toInt + 1 ↔ a.toInt ≠ 2 ^ 63 - 1 := by
  refine ⟨fun same last => ?_, toInt_add_one⟩
  have high := (a + 1).toInt_lt
  omega

/-- A label is a plus sign if the text starts with one, and a digit or nothing follows. -/
theorem takeLabel_eq_plus_iff {cs : List Char} :
    (takeLabel cs).1 = "+" ↔ ∃ rest, cs = '+' :: rest ∧ ∀ c ∈ rest.head?, c.isDigit = true := by
  have text : (takeLabel cs).1 = "+" ↔ cs.takeWhile (!·.isDigit) = ['+'] := by
    rw [takeLabel, ← String.toList_inj, String.toList_ofList]
    rfl
  rw [text]
  constructor
  · intro run
    have whole := List.takeWhile_append_dropWhile (p := (!·.isDigit)) (l := cs)
    have stop := List.head?_dropWhile_not (!·.isDigit) cs
    rw [run] at whole
    refine ⟨cs.dropWhile (!·.isDigit), whole.symm, fun c mem => ?_⟩
    rw [Option.mem_def.1 mem] at stop
    simpa using stop
  · rintro ⟨rest, rfl, digit⟩
    have stop : rest.takeWhile (!·.isDigit) = [] := by
      cases rest with
      | nil => rfl
      | cons c rest => simpa using digit
    rw [List.takeWhile_cons_of_pos (by decide), stop]

/-- Only the highest number has no next one. -/
theorem overflows_iff (cs : List Char) :
    Overflows cs ↔ ∃ digits rest, cs = digits ++ '+' :: rest ∧ IsNumeral 10 digits (2 ^ 63 - 1) ∧
      ∀ c ∈ rest.head?, c.isDigit = true := by
  rw [Overflows, takeLabel_eq_plus_iff, ne_eq, toInt_add_one_eq_iff, not_not]
  constructor
  · rintro ⟨⟨rest, behind, digit⟩, last⟩
    have whole := List.takeWhile_append_dropWhile (p := Char.isDigit) (l := cs)
    have nonempty : cs.takeWhile Char.isDigit ≠ [] := by
      intro empty
      have zero : (number []).toInt = 0 := rfl
      rw [takeNumber, empty, zero] at last
      exact absurd last (by decide)
    have numeral := Number.isNumeral_ofDigits (by decide : 1 < 10) (by decide) nonempty fun c mem =>
      Number.isDigit_iff.1 (List.mem_takeWhile_imp mem)
    rw [takeNumber, number_of_isNumeral numeral, toInt_ofNat_counted] at last
    have highest : Number.ofDigits 10 (cs.takeWhile Char.isDigit) = 2 ^ 63 - 1 := by
      rw [counted] at last
      split at last <;> omega
    rw [highest] at numeral
    exact ⟨_, rest, by rw [← behind]; exact whole.symm, numeral, digit⟩
  · rintro ⟨digits, rest, rfl, numeral, digit⟩
    have plain : ∀ c ∈ ('+' :: rest).head?, !c.isDigit := by simp
    rw [takeNumber_append (isDigit_of_isNumeral numeral) plain, number_of_isNumeral numeral]
    exact ⟨⟨rest, rfl, digit⟩, toInt_ofNat_counted _⟩

end Limit

theorem parts_of_isNumeral {x : String} (numeral : IsNumeral 10 x.toList n) :
    parts x = [⟨Int64.ofNat (counted n), "", 0, ""⟩] := by
  have noDot : '.' ∉ x.toList := fun mem =>
    absurd (isDigit_of_isNumeral numeral '.' mem) (by decide)
  rw [parts, Text.splitChars_of_not_mem noDot, List.map_singleton, ofChars_of_isNumeral numeral]

theorem parts_plus_of_isNumeral {x : String} (numeral : IsNumeral 10 x.toList n) :
    parts (x ++ "+") = [⟨Int64.ofNat (counted n) + 1, "pre", 0, ""⟩] := by
  have text : (x ++ "+").toList = x.toList ++ ['+'] := String.toList_append
  have noDot : '.' ∉ x.toList ++ ['+'] := by
    intro mem
    rcases List.mem_append.1 mem with digit | plus
    · exact absurd (isDigit_of_isNumeral numeral '.' digit) (by decide)
    · exact absurd plus (by decide)
  rw [parts, text, Text.splitChars_of_not_mem noDot, List.map_singleton,
    ofChars_plus_of_isNumeral numeral]

/-- Parts of which only the number counts compare as the numbers do. -/
theorem compareParts_numbers (m n : Nat) :
    compareParts [⟨Int64.ofNat (counted m), "", 0, ""⟩] [⟨Int64.ofNat (counted n), "", 0, ""⟩] =
      Ord.compare (counted m) (counted n) := by
  have labels : compareLabels "" "" = .eq := rfl
  have zeros : Ord.compare (0 : Int64) 0 = .eq := rfl
  have done : compareParts [] [] = .eq := rfl
  rw [compareParts, Part.compare, compare_ofNat_counted, labels, zeros, done]
  cases Ord.compare (counted m) (counted n) <;> rfl

theorem compare_of_major_lt {p q : Part} (lower : p.major < q.major) : p.compare q = .lt := by
  have first : Ord.compare p.major q.major = .lt := Std.compare_eq_lt.2 lower
  rw [Part.compare, first]
  rfl

/-- Numbers in versions compare as numbers up to the limit of 64 bits. Above it every number counts
as zero, alone and behind the parts of any version. So of two different numbers the lower one is the
lower version exactly if the higher one is below the limit. A plus sign makes a version higher, but
for the highest number: there the next number is not in the range, and reading no other text leaves
it. -/
theorem numbers_compare_below_limit {x y : String} {m n : Nat} (hx : IsNumeral 10 x.toList m)
    (hy : IsNumeral 10 y.toList n) :
    compare x y = Ord.compare (counted m) (counted n) ∧
      (∀ v, compare (v ++ ("." ++ x)) (v ++ ("." ++ y)) = Ord.compare (counted m) (counted n)) ∧
      (m < n → (compare x y = .lt ↔ n < 2 ^ 63)) ∧
      compare x (x ++ "+") = (if m = 2 ^ 63 - 1 then .gt else .lt) ∧
      ∀ cs, Overflows cs ↔ ∃ digits rest, cs = digits ++ '+' :: rest ∧
        IsNumeral 10 digits (2 ^ 63 - 1) ∧ ∀ c ∈ rest.head?, c.isDigit = true := by
  have order : compare x y = Ord.compare (counted m) (counted n) := by
    rw [compare, parts_of_isNumeral hx, parts_of_isNumeral hy, compareParts_numbers]
  refine ⟨order, fun v => ?_, fun lower => ?_, ?_, overflows_iff⟩
  · rw [compare, parts_append_dot, parts_append_dot, compareParts_append, ← order, compare]
  · rw [order, Nat.compare_eq_lt, counted, counted]
    split <;> split <;> omega
  · rw [compare, parts_of_isNumeral hx, parts_plus_of_isNumeral hx]
    by_cases highest : m = 2 ^ 63 - 1
    · subst highest
      decide
    · have below : (Int64.ofNat (counted m)).toInt ≠ 2 ^ 63 - 1 := by
        rw [toInt_ofNat_counted, counted]
        split <;> omega
      rw [if_neg highest]
      refine compareParts_append_lt [] (compare_of_major_lt ?_) [] []
      change Int64.ofNat (counted m) < Int64.ofNat (counted m) + 1
      rw [Int64.lt_iff_toInt_lt, toInt_add_one below]
      omega

/-- The first number above the limit, with a zero in front, against a small one. -/
theorem numbers_compare_below_limit_first :
    IsNumeral 10 "5".toList 5 ∧ IsNumeral 10 "09223372036854775808".toList (2 ^ 63) ∧
      compare "5" "09223372036854775808" = .gt ∧ ¬(compare "5" "09223372036854775808" = .lt) := by
  have small : IsNumeral 10 "5".toList 5 := ⟨0, by decide +kernel⟩
  have large : IsNumeral 10 "09223372036854775808".toList (2 ^ 63) := ⟨1, by decide +kernel⟩
  obtain ⟨order, -, lower, -⟩ := numbers_compare_below_limit small large
  exact ⟨small, large, order.trans (by decide),
    fun lt => absurd ((lower (by decide)).1 lt) (by decide)⟩

end AddonAudit.Version
