import AddonAudit.Proofs.VersionOrder
import Mathlib.Data.List.TakeWhile

/-!
# Rules of version numbers

Users of version numbers know a few rules: a zero part at the end makes no difference, a number with
a label behind it comes before the plain number, and a star comes after every number in its place.
All of them come down to one part. A version in front of it is read into the same parts on both
sides of a comparison, however it goes on, and these are level.
-/

namespace AddonAudit

namespace Text

variable {sep : Char}

/-- The first piece goes up to the first separator. -/
theorem splitChars_eq_cons (sep : Char) (cs : List Char) :
    ∃ rest, splitChars sep cs = cs.takeWhile (· ≠ sep) :: rest := by
  induction cs with
  | nil => exact ⟨[], rfl⟩
  | cons c cs ih =>
      obtain ⟨rest, pieces⟩ := ih
      by_cases same : c = sep
      · exact ⟨splitChars sep cs, by simp [splitChars, same]⟩
      · exact ⟨rest, by simp [splitChars, same, pieces]⟩

theorem splitChars_append_sep (xs ys : List Char) :
    splitChars sep (xs ++ sep :: ys) = splitChars sep xs ++ splitChars sep ys := by
  induction xs with
  | nil => simp [splitChars]
  | cons c xs ih =>
      by_cases same : c = sep
      · simp [splitChars, same, ih]
      · obtain ⟨rest, pieces⟩ := splitChars_eq_cons sep xs
        simp [splitChars, same, ih, pieces]

theorem splitChars_of_not_mem {cs : List Char} (whole : sep ∉ cs) : splitChars sep cs = [cs] := by
  induction cs with
  | nil => rfl
  | cons c cs ih =>
      have ne : c ≠ sep := fun same => whole (by simp [same])
      simp [splitChars, ne, ih fun mem => whole (List.mem_cons_of_mem c mem)]

end Text

namespace Version

variable {digits label : List Char}

/-- Level parts in front make no difference. -/
theorem compareParts_append (ps qs rs : List Part) :
    compareParts (ps ++ qs) (ps ++ rs) = compareParts qs rs := by
  induction ps with
  | nil => rfl
  | cons p ps ih =>
      have level : p.compare p = .eq := Std.ReflCmp.compare_self
      rw [List.cons_append, List.cons_append, compareParts, level, ih]
      rfl

/-- The first part behind level ones decides if it is lower. -/
theorem compareParts_append_lt (ps : List Part) {p q : Part} (lower : p.compare q = .lt)
    (qs rs : List Part) : compareParts (ps ++ p :: qs) (ps ++ q :: rs) = .lt := by
  rw [compareParts_append, compareParts, lower]
  rfl

theorem parts_append_dot (v w : String) : parts (v ++ ("." ++ w)) = parts v ++ parts w := by
  rw [parts, parts, parts, ← List.map_append, ← Text.splitChars_append_sep]
  simp

/-- What stands before the first dot of a version. -/
def firstPart (v : String) : List Char :=
  v.toList.takeWhile (· ≠ '.')

/-- What stands after the last dot of a version. -/
def lastPart (v : String) : List Char :=
  (v.toList.reverse.takeWhile (· ≠ '.')).reverse

theorem parts_eq_cons (v : String) : ∃ rest, parts v = Part.ofChars (firstPart v) :: rest := by
  obtain ⟨rest, pieces⟩ := Text.splitChars_eq_cons '.' v.toList
  exact ⟨rest.map Part.ofChars, by rw [parts, pieces]; rfl⟩

theorem dot_not_mem_lastPart (v : String) : '.' ∉ lastPart v := by
  intro mem
  simpa using List.mem_takeWhile_imp (List.mem_reverse.1 mem)

/-- A version is its last part, or there is a dot before that. -/
theorem toList_eq_lastPart (v : String) :
    v.toList = lastPart v ∨ ∃ front, v.toList = front ++ '.' :: lastPart v := by
  have whole := List.takeWhile_append_dropWhile (p := (· ≠ '.')) (l := v.toList.reverse)
  cases dropped : v.toList.reverse.dropWhile (· ≠ '.') with
  | nil =>
      rw [dropped, List.append_nil] at whole
      exact .inl (by rw [lastPart, whole, List.reverse_reverse])
  | cons c rest =>
      have dot : c = '.' := by
        have stop := List.head?_dropWhile_not (· ≠ '.') v.toList.reverse
        rw [dropped] at stop
        simpa using stop
      rw [dropped, dot] at whole
      refine .inr ⟨rest.reverse, ?_⟩
      rw [← List.reverse_reverse v.toList, ← whole, lastPart]
      simp

/-- What is written behind a version goes on with its last part. -/
theorem parts_append (v s : String) :
    ∃ before rest, parts v = before ++ [Part.ofChars (lastPart v)] ∧
      parts (v ++ s) = before ++ Part.ofChars (lastPart v ++ firstPart s) :: rest := by
  have whole := dot_not_mem_lastPart v
  obtain ⟨rest, pieces⟩ := Text.splitChars_eq_cons '.' (lastPart v ++ s.toList)
  have first : (lastPart v ++ s.toList).takeWhile (· ≠ '.') = lastPart v ++ firstPart s := by
    apply List.takeWhile_append_of_pos
    intro c mem
    simpa using fun (same : c = '.') => whole (same ▸ mem)
  rw [first] at pieces
  rcases toList_eq_lastPart v with only | ⟨front, split⟩
  · refine ⟨[], rest.map Part.ofChars, ?_, ?_⟩
    · rw [parts, only, Text.splitChars_of_not_mem whole]
      rfl
    · rw [parts, String.toList_append, only, pieces]
      rfl
  · refine ⟨(Text.splitChars '.' front).map Part.ofChars, rest.map Part.ofChars, ?_, ?_⟩
    · rw [parts, split, Text.splitChars_append_sep, Text.splitChars_of_not_mem whole]
      simp
    · rw [parts, String.toList_append, split, List.append_assoc, List.cons_append,
        Text.splitChars_append_sep, pieces]
      simp

theorem compareLabels_empty {x : String} (present : x ≠ "") : compareLabels x "" = .lt := by
  have nonempty : x.isEmpty = false := by
    rw [Bool.eq_false_iff, ne_eq, String.isEmpty_iff]
    exact present
  rw [compareLabels, nonempty]
  rfl

theorem takeNumber_append (allDigits : ∀ c ∈ digits, c.isDigit)
    (plain : ∀ c ∈ label.head?, !c.isDigit) :
    takeNumber (digits ++ label) = (number digits, label) := by
  have noDigit : label.takeWhile Char.isDigit = [] := by
    cases label with
    | nil => rfl
    | cons c label => simpa using plain
  have left : label.dropWhile Char.isDigit = label := by
    have whole := List.takeWhile_append_dropWhile (p := Char.isDigit) (l := label)
    rwa [noDigit, List.nil_append] at whole
  rw [takeNumber, List.takeWhile_append_of_pos allDigits, List.dropWhile_append_of_pos allDigits,
    noDigit, left, List.append_nil]

/-- A number with a text behind it: the number, a label, and what follows the label. -/
theorem ofChars_append (nonempty : digits ≠ []) (allDigits : ∀ c ∈ digits, c.isDigit)
    (plain : ∀ c ∈ label.head?, !c.isDigit) (noPlus : label.takeWhile (!·.isDigit) ≠ ['+']) :
    ∃ minor rest, Part.ofChars (digits ++ label) =
      ⟨number digits, String.ofList (label.takeWhile (!·.isDigit)), minor, rest⟩ := by
  have noStar : digits ++ label ≠ ['*'] := by
    intro star
    obtain ⟨d, digits, rfl⟩ := List.exists_cons_of_ne_nil nonempty
    obtain ⟨rfl, -⟩ := List.cons.inj star
    exact absurd (allDigits '*' (by simp)) (by decide)
  have other : String.ofList (label.takeWhile (!·.isDigit)) ≠ "+" := by
    intro plus
    exact noPlus (by simpa using congrArg String.toList plus)
  simp only [Part.ofChars, if_neg noStar, takeNumber_append allDigits plain,
    takeLabel, if_neg other]
  exact ⟨_, _, rfl⟩

/-- A run of digits is a number without anything behind it. -/
theorem ofChars_digits (nonempty : digits ≠ []) (allDigits : ∀ c ∈ digits, c.isDigit) :
    (Part.ofChars digits).major = number digits ∧ (Part.ofChars digits).label = "" := by
  have plain : ∀ c ∈ ([] : List Char).head?, !c.isDigit := by simp
  obtain ⟨minor, rest, read⟩ := ofChars_append nonempty allDigits plain (by simp)
  rw [List.append_nil] at read
  rw [read]
  exact ⟨rfl, rfl⟩

/-- A number with a label behind it is below the plain number. -/
theorem ofChars_append_lt (nonempty : digits ≠ []) (allDigits : ∀ c ∈ digits, c.isDigit)
    (labelled : label.takeWhile (!·.isDigit) ≠ []) (noPlus : label.takeWhile (!·.isDigit) ≠ ['+']) :
    (Part.ofChars (digits ++ label)).compare (Part.ofChars digits) = .lt := by
  have plain : ∀ c ∈ label.head?, !c.isDigit := by
    cases label with
    | nil => simp
    | cons c label => simpa using labelled
  obtain ⟨minor, rest, read⟩ := ofChars_append nonempty allDigits plain noPlus
  obtain ⟨major, noLabel⟩ := ofChars_digits nonempty allDigits
  -- The numbers are level, and a label is below none.
  have below : compareLabels (String.ofList (label.takeWhile (!·.isDigit))) "" = .lt := by
    apply compareLabels_empty
    intro empty
    exact labelled (by simpa using congrArg String.toList empty)
  have level : Ord.compare (number digits) (number digits) = .eq := Std.ReflCmp.compare_self
  rw [Part.compare, read, major, noLabel, level, below]
  rfl

/-- A star is above every part with a lower number, and above one with a label. -/
theorem compare_star_eq_lt {p : Part}
    (lower : p.major < Int64.maxValue ∨ p.major = Int64.maxValue ∧ p.label ≠ "") :
    p.compare (Part.ofChars ['*']) = .lt := by
  have star : Part.ofChars ['*'] = ⟨Int64.maxValue, "", 0, ""⟩ := rfl
  rw [Part.compare, star]
  rcases lower with lt | ⟨same, labelled⟩
  · have below : Ord.compare p.major Int64.maxValue = .lt := Std.compare_eq_lt.2 lt
    rw [below]
    rfl
  · have level : Ord.compare Int64.maxValue Int64.maxValue = .eq := Std.ReflCmp.compare_self
    rw [same, level, compareLabels_empty labelled]
    rfl

/-- Whatever follows a number below the highest one, a part that starts with it is below a star. -/
theorem ofChars_lt_star {cs : List Char} (noStar : cs ≠ ['*'])
    (below : (takeNumber cs).1 < Int64.maxValue) :
    (Part.ofChars cs).compare (Part.ofChars ['*']) = .lt := by
  apply compare_star_eq_lt
  simp only [Part.ofChars, if_neg noStar]
  split
  · -- The number after a plus sign may be the highest one, but then there is a label.
    by_cases highest : (takeNumber cs).1 + 1 = Int64.maxValue
    · exact .inr ⟨highest, by simp⟩
    · exact .inl (Std.lt_of_le_of_ne (Int64.le_maxValue _) highest)
  · exact .inl below

/-- The rules of version numbers. A zero part at the end makes no difference. Behind a number, a
text that starts with a label other than a plus sign makes a version lower. Below a version, every
version whose first part has a number below the highest one is lower than a star; the number of a
part counts as read, with one more for a plus sign, or as it is written. -/
theorem compare_rules :
    (∀ x, compare x (x ++ ".0") = .eq) ∧
    (∀ v s, lastPart v ≠ [] → (∀ c ∈ lastPart v, c.isDigit) →
      (∃ c, s.toList.head? = some c ∧ c.isDigit = false ∧ c ≠ '.') →
      s.toList.takeWhile (fun c => !c.isDigit && c ≠ '.') ≠ ['+'] →
      compare (v ++ s) v = .lt) ∧
    (∀ v w, (Part.ofChars (firstPart w)).major < Int64.maxValue ∨
        firstPart w ≠ ['*'] ∧ (takeNumber (firstPart w)).1 < Int64.maxValue →
      compare (v ++ "." ++ w) (v ++ ".*") = .lt) := by
  refine ⟨?_, ?_, ?_⟩
  · intro x
    have split : parts (x ++ ".0") = parts x ++ [Part.zero] := parts_append_dot x "0"
    have level := compareParts_append (parts x) [] [Part.zero]
    rw [List.append_nil] at level
    rw [compare, split, level]
    decide
  · rintro v s nonempty allDigits ⟨c, first, noDigit, noDot⟩ noPlus
    obtain ⟨before, rest, here, longer⟩ := parts_append v s
    rw [compare, here, longer]
    apply compareParts_append_lt
    have run : (firstPart s).takeWhile (!·.isDigit) =
        s.toList.takeWhile (fun c => !c.isDigit && c ≠ '.') := by
      rw [firstPart, List.takeWhile_takeWhile]
      simp
    apply ofChars_append_lt nonempty allDigits
    · rw [run]
      obtain ⟨rest, text⟩ := List.head?_eq_some_iff.1 first
      simp [text, noDigit, noDot]
    · rwa [run]
  · intro v w below
    have split : parts (v ++ ".*") = parts v ++ [Part.ofChars ['*']] := parts_append_dot v "*"
    obtain ⟨rest, first⟩ := parts_eq_cons w
    rw [compare, String.append_assoc, parts_append_dot, split, first]
    apply compareParts_append_lt
    rcases below with lt | ⟨noStar, lt⟩
    · exact compare_star_eq_lt (.inl lt)
    · exact ofChars_lt_star noStar lt

/-- A dot and more labels in a suffix, a text that looks like a plus sign but goes on, and a number
that a plus sign raises to the highest one. -/
theorem compare_rules_sample :
    compare "38.0" "38.0.0" = .eq ∧ compare "38.0+a.7" "38.0" = .lt ∧
      compare "38..9223372036854775806+" "38..*" = .lt := by
  obtain ⟨zero, label, star⟩ := compare_rules
  have digits : (lastPart "38.0").all Char.isDigit = true := by decide +kernel
  refine ⟨zero "38.0", label "38.0" "+a.7" ?_ (List.all_eq_true.1 digits) ⟨'+', ?_⟩ ?_,
    star "38." "9223372036854775806+" ?_⟩ <;> decide +kernel

end Version

end AddonAudit
