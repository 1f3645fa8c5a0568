import AddonAudit.Number.Text
import AddonAudit.Proofs.Double
import AddonAudit.Proofs.Numeral

/-!
# Numbers with the mark of a base

Behind a mark such as `0x` stand the digits of a base, and a literal with a zero in front has octal
digits. They are read into 64 bits. A number that fits is converted to its double, exactly up to `2
^ 53`; a larger one is not read at all, and as no other way of writing numbers allows the mark,
nothing but the double that is no number is left for it.
-/

namespace AddonAudit

namespace Text

theorem dropWhile_blank_append {before cs : List Char} (blank : ∀ c ∈ before, isBlank c = true)
    (first : ∀ c ∈ cs.head?, isBlank c = false) : (before ++ cs).dropWhile isBlank = cs := by
  rw [List.dropWhile_append_of_pos blank]
  cases cs with
  | nil => rfl
  | cons c cs => exact List.dropWhile_cons_of_neg (by simpa using first)

/-- White space around a text that starts and ends with other characters is dropped. -/
theorem trimChars_between {before core after : List Char} (nonempty : core ≠ [])
    (blankBefore : ∀ c ∈ before, isBlank c = true) (blankAfter : ∀ c ∈ after, isBlank c = true)
    (first : ∀ c ∈ core.head?, isBlank c = false) (last : ∀ c ∈ core.getLast?, isBlank c = false) :
    trimChars (before ++ core ++ after) = core := by
  have front : (before ++ (core ++ after)).dropWhile isBlank = core ++ after := by
    refine dropWhile_blank_append blankBefore fun c mem => first c ?_
    cases core with
    | nil => exact absurd rfl nonempty
    | cons d core => exact mem
  have back : (after.reverse ++ core.reverse).dropWhile isBlank = core.reverse := by
    refine dropWhile_blank_append (fun c mem => blankAfter c (List.mem_reverse.1 mem))
      fun c mem => last c ?_
    rwa [List.head?_reverse] at mem
  rw [trimChars, dropBack, dropFront, List.append_assoc, front, List.reverse_append, back,
    List.reverse_reverse]

end Text

namespace Number

/-- The bases and their marks, in either case. -/
def marks : List (Nat × Char) :=
  [(16, 'x'), (16, 'X'), (8, 'o'), (8, 'O'), (2, 'b'), (2, 'B')]

/-- A number with its sign. -/
def signed (negative : Bool) (cs : List Char) : List Char :=
  if negative then '-' :: cs else cs

/-- The end of a literal: nothing, or the mark of a big integer. -/
def endings : List (List Char) :=
  [[], ['n']]

/-- A text with separators between its characters, or in front of or behind them. -/
inductive Separated : List Char → List Char → Prop where
  | nil : Separated [] []
  | char (c : Char) {cs text : List Char} (rest : Separated cs text) :
      Separated (c :: cs) (c :: text)
  | separator {cs text : List Char} (rest : Separated cs text) : Separated cs ('_' :: text)

/-- What a number with a sign is read as: the double that is no number exactly if the number does
not fit into 64 bits, and its value if that is a double with all numbers below it. -/
structure ReadsAs (x : Float) (negative : Bool) (n : Nat) : Prop where
  isNaN_iff : x.isNaN = true ↔ 2 ^ 64 ≤ n
  hasValue : n ≤ 2 ^ 53 → HasValue x (if negative then -n else n)

/-- The double of a number with a sign, if one was read. -/
def converted (negative : Bool) : Option Nat → Float
  | some n => if negative then -Float.ofNat n else Float.ofNat n
  | none => nan

theorem readsAs_converted (negative : Bool) (n : Nat) :
    ReadsAs (converted negative (if n < twoTo 64 then some n else none)) negative n := by
  have limit : twoTo 64 = 2 ^ 64 := rfl
  by_cases fits : n < 2 ^ 64
  · rw [limit, if_pos fits, converted]
    refine ⟨iff_of_false ?_ (by omega), fun small => hasValue_ofNat small negative⟩
    cases negative with
    | false =>
        change ¬(Float.ofNat n).isNaN = true
        rw [isNaN_ofNat]
        exact Bool.false_ne_true
    | true =>
        change ¬(-Float.ofNat n).isNaN = true
        rw [isNaN_neg, isNaN_ofNat]
        exact Bool.false_ne_true
  · rw [limit, if_neg fits, converted]
    refine ⟨iff_of_true (by decide +kernel) (by omega), fun small => ?_⟩
    omega

section Marks

variable {base : Nat} {mark : Char} {digits : List Char} {n : Nat}

theorem base_of_mem_marks (isMark : (base, mark) ∈ marks) : 1 < base ∧ base ≤ 16 := by
  have all : marks.all (fun entry => 1 < entry.1 && entry.1 ≤ 16) = true := by decide
  simpa using List.all_eq_true.1 all _ isMark

/-- A number with a mark is read in the base of the mark, and it is no decimal number. -/
theorem marked?_eq (isMark : (base, mark) ∈ marks) (digits : List Char) :
    marked? ('0' :: mark :: digits) = natural? base (twoTo 64) digits ∧
      unsigned? ('0' :: mark :: digits) = none := by
  simp only [marks, List.mem_cons, Prod.mk.injEq, List.not_mem_nil, or_false] at isMark
  rcases isMark with ⟨rfl, rfl⟩ | ⟨rfl, rfl⟩ | ⟨rfl, rfl⟩ | ⟨rfl, rfl⟩ | ⟨rfl, rfl⟩ | ⟨rfl, rfl⟩ <;>
    exact ⟨rfl, rfl⟩

theorem decimal?_eq_none (isMark : (base, mark) ∈ marks) (negative : Bool) (digits : List Char) :
    decimal? (signed negative ('0' :: mark :: digits)) = none := by
  cases negative with
  | false => exact (marked?_eq isMark digits).2
  | true =>
      change (unsigned? ('0' :: mark :: digits)).map _ = none
      rw [(marked?_eq isMark digits).2, Option.map_none]

theorem splitSign_signed (negative : Bool) (cs : List Char) :
    splitSign (signed negative ('0' :: cs)) = (negative, '0' :: cs) := by
  cases negative <;> rfl

/-- A text that is a number with the mark of a base, but for white space around it. -/
theorem ofChars_marked (isMark : (base, mark) ∈ marks) (negative : Bool) {cs : List Char}
    (trimmed : Text.trimChars cs = signed negative ('0' :: mark :: digits)) :
    ofChars cs = converted negative (natural? base (twoTo 64) digits) := by
  have nonempty : (signed negative ('0' :: mark :: digits)).isEmpty = false := by
    cases negative <;> rfl
  have noInfinity : '0' :: mark :: digits ≠ "Infinity".toList := by
    intro same
    exact absurd (List.cons.inj same).1 (by decide)
  have noPlus : signed negative ('0' :: mark :: digits) ≠ "+Infinity".toList := by
    intro same
    cases negative <;> exact absurd (List.cons.inj same).1 (by decide)
  simp only [ofChars, trimmed, splitSign_signed, nonempty, (marked?_eq isMark digits).1,
    decimal?_eq_none isMark, if_neg noInfinity, if_neg noPlus]
  cases natural? base (twoTo 64) digits <;> rfl

end Marks

section Literals

variable {base n : Nat} {mark : Char} {digits front core ending text : List Char}

/-- Characters that trimming and cleaning leave alone. -/
def IsPlain (c : Char) : Prop :=
  Text.isBlank c = false ∧ c ≠ '_'

theorem digit_plain {c : Char} (digit : digitValue c < 16) : IsPlain c ∧ c ≠ 'n' := by
  refine forall_digit (P := fun c => IsPlain c ∧ c ≠ 'n') ?_ digit
  unfold IsPlain
  decide +kernel

/-- Digits behind plain characters are plain, and the mark of a big integer is none of them. -/
theorem plain_of_isNumeral (one : 1 < base) (small : base ≤ 16) (numeral : IsNumeral base digits n)
    (plain : ∀ c ∈ front, IsPlain c) :
    (∀ c ∈ front ++ digits, IsPlain c) ∧ (front ++ digits).getLast? ≠ some 'n' := by
  have digit : ∀ c ∈ digits, IsPlain c ∧ c ≠ 'n' := fun c mem =>
    digit_plain (Nat.lt_of_lt_of_le (numeral.digitValue_lt one small c mem) small)
  refine ⟨fun c mem => ?_, fun last => ?_⟩
  · rcases List.mem_append.1 mem with early | late
    · exact plain c early
    · exact (digit c late).1
  · rw [List.getLast?_append, List.getLast?_eq_some_getLast numeral.ne_nil, Option.some_or,
      Option.some_inj] at last
    exact (digit _ (List.getLast_mem numeral.ne_nil)).2 last

theorem signed_marked (negative : Bool) (mark : Char) (digits : List Char) :
    signed negative ('0' :: mark :: digits) = signed negative ['0', mark] ++ digits := by
  cases negative <;> rfl

theorem plain_front (isMark : (base, mark) ∈ marks) (negative : Bool) :
    ∀ c ∈ signed negative ['0', mark], IsPlain c := by
  have all : marks.all (fun entry => !Text.isBlank entry.2 && entry.2 ≠ '_') = true := by decide
  have plainMark : IsPlain mark := by simpa [IsPlain] using List.all_eq_true.1 all _ isMark
  have plainZero : IsPlain '0' := ⟨by decide, by decide⟩
  have plainMinus : IsPlain '-' := ⟨by decide, by decide⟩
  cases negative <;> simp [signed, plainMark, plainZero, plainMinus]

theorem filter_of_separated {cs text : List Char} (separated : Separated cs text)
    (plain : '_' ∉ cs) : text.filter (· ≠ '_') = cs := by
  induction separated with
  | nil => rfl
  | char c rest ih =>
      have other := List.ne_of_not_mem_cons plain
      have later := List.not_mem_of_not_mem_cons plain
      rw [List.filter_cons_of_pos (by simpa using other.symm), ih later]
  | separator rest ih => rw [List.filter_cons_of_neg (by simp), ih plain]

/-- Of a literal only its number counts. -/
theorem literalBody_of_separated (isEnding : ending ∈ endings)
    (separated : Separated (core ++ ending) text) (plain : ∀ c ∈ core, IsPlain c)
    (other : core.getLast? ≠ some 'n') : literalBody text = core := by
  have noSeparator : '_' ∉ core := fun mem => (plain '_' mem).2 rfl
  simp only [endings, List.mem_cons, List.not_mem_nil, or_false] at isEnding
  rcases isEnding with rfl | rfl
  · rw [List.append_nil] at separated
    simp only [literalBody, filter_of_separated separated noSeparator, if_neg other]
  · have noSeparator' : '_' ∉ core ++ ['n'] := by simpa using noSeparator
    simp only [literalBody, filter_of_separated separated noSeparator',
      List.getLast?_concat, if_true, List.dropLast_concat]

/-- A text of plain characters is what is left of it without the white space around it. -/
theorem trimChars_plain (nonempty : core ≠ []) (plain : ∀ c ∈ core, IsPlain c)
    (before after : List Char) (blankBefore : ∀ c ∈ before, Text.isBlank c = true)
    (blankAfter : ∀ c ∈ after, Text.isBlank c = true) :
    Text.trimChars (before ++ core ++ after) = core :=
  Text.trimChars_between nonempty blankBefore blankAfter
    (fun c mem => (plain c (List.mem_of_mem_head? mem)).1)
    (fun c mem => (plain c (List.mem_of_getLast? mem)).1)

/-- A literal with the mark of a base is read as its text is. -/
theorem ofLiteral_marked (isMark : (base, mark) ∈ marks) (negative : Bool) {s : String}
    (body : literalBody s.toList = signed negative ('0' :: mark :: digits)) :
    ofLiteral s = ofChars (signed negative ('0' :: mark :: digits)) := by
  have all : marks.all (fun entry => 8 ≤ digitValue entry.2) = true := by decide
  have noOctal : (mark :: digits).all (digitValue · < 8) = false := by
    have high : 8 ≤ digitValue mark := of_decide_eq_true (List.all_eq_true.1 all _ isMark)
    simp only [List.all_cons, Bool.and_eq_false_iff, decide_eq_false_iff_not]
    exact .inl (by omega)
  cases negative with
  | false =>
      have body : literalBody s.toList = '0' :: mark :: digits := body
      rw [ofLiteral, body]
      simp only [noOctal]
      rfl
  | true =>
      have body : literalBody s.toList = '-' :: '0' :: mark :: digits := body
      rw [ofLiteral, body]
      rfl

/-- A literal with a zero in front of octal digits. -/
theorem ofLiteral_octal (numeral : IsNumeral 8 digits n) {s : String}
    (body : literalBody s.toList = '0' :: digits) :
    ofLiteral s = converted false (natural? 8 (twoTo 64) digits) := by
  have octal : digits.all (digitValue · < 8) = true :=
    List.all_eq_true.2 fun c mem =>
      decide_eq_true (numeral.digitValue_lt (by decide) (by decide) c mem)
  obtain ⟨d, rest, rfl⟩ := List.exists_cons_of_ne_nil numeral.ne_nil
  rw [ofLiteral, body]
  simp only [octal, if_true]
  cases natural? 8 (twoTo 64) (d :: rest) <;> rfl

end Literals

/-- Every run of digits with the mark of its base is a numeral, and it is read as its number, or as
no number if that does not fit into 64 bits: as a text with any white space around it, and as a
literal with separators anywhere and the mark of a big integer or none; and if the base is eight,
also as a literal with a zero instead of the mark. A minus sign in front is the sign of the
number. -/
theorem marked_numbers_read_below_limit {base : Nat} {mark : Char} (isMark : (base, mark) ∈ marks)
    {digits : List Char} (nonempty : digits ≠ []) (all : ∀ c ∈ digits, digitValue c < base) :
    ∃ n, IsNumeral base digits n ∧
      (∀ negative before after, (∀ c ∈ before, Text.isBlank c = true) →
        (∀ c ∈ after, Text.isBlank c = true) →
        ReadsAs
          (ofText (String.ofList (before ++ signed negative ('0' :: mark :: digits) ++ after)))
          negative n) ∧
      (∀ negative s, ∀ ending ∈ endings,
        Separated (signed negative ('0' :: mark :: digits) ++ ending) s.toList →
          ReadsAs (ofLiteral s) negative n) ∧
      (base = 8 → ∀ s, ∀ ending ∈ endings, Separated ('0' :: digits ++ ending) s.toList →
        ReadsAs (ofLiteral s) false n) := by
  obtain ⟨one, small⟩ := base_of_mem_marks isMark
  have numeral := isNumeral_ofDigits one small nonempty all
  have text (negative : Bool) {cs : List Char}
      (trimmed : Text.trimChars cs = signed negative ('0' :: mark :: digits)) :
      ReadsAs (ofChars cs) negative (ofDigits base digits) := by
    rw [ofChars_marked isMark negative trimmed, numeral.natural? one small]
    exact readsAs_converted negative _
  have plain (negative : Bool) := plain_of_isNumeral one small numeral (plain_front isMark negative)
  simp only [← signed_marked] at plain
  have nonempty (negative : Bool) : signed negative ('0' :: mark :: digits) ≠ [] := by
    cases negative <;> exact List.cons_ne_nil _ _
  refine ⟨_, numeral, ?_, ?_, ?_⟩
  · intro negative before after blankBefore blankAfter
    rw [ofText, String.toList_ofList]
    exact text negative
      (trimChars_plain (nonempty negative) (plain negative).1 _ _ blankBefore blankAfter)
  · intro negative s ending isEnding separated
    have body := literalBody_of_separated isEnding separated (plain negative).1 (plain negative).2
    rw [ofLiteral_marked isMark negative body]
    have alone := trimChars_plain (nonempty negative) (plain negative).1 [] [] (by simp) (by simp)
    rw [List.nil_append, List.append_nil] at alone
    exact text negative alone
  · rintro rfl s ending isEnding separated
    have zero : ∀ c ∈ ['0'], IsPlain c := by
      intro c mem
      rw [List.mem_singleton.1 mem]
      exact ⟨by decide, by decide⟩
    obtain ⟨plain, other⟩ := plain_of_isNumeral one small numeral zero
    have body := literalBody_of_separated isEnding separated plain other
    rw [ofLiteral_octal numeral body, numeral.natural? one small]
    exact readsAs_converted false _

/-- Octal digits with white space and a sign around them, with a separator and the mark of a big
integer, and with a zero in front. -/
theorem marked_numbers_read_below_limit_octal :
    ReadsAs (ofText " -0o777\n") true 511 ∧ ReadsAs (ofLiteral "0o7_77n") false 511 ∧
      ReadsAs (ofLiteral "0777") false 511 := by
  have digits : ['7', '7', '7'].all (digitValue · < 8) = true := by decide
  have space : [' '].all Text.isBlank = true := by decide
  have newline : ['\n'].all Text.isBlank = true := by decide
  obtain ⟨n, numeral, texts, literals, octals⟩ :=
    marked_numbers_read_below_limit (show (8, 'o') ∈ marks by decide)
      (show ['7', '7', '7'] ≠ [] by decide)
      fun c mem => of_decide_eq_true (List.all_eq_true.1 digits c mem)
  obtain rfl : n = 511 := numeral.ofDigits (by decide) (by decide) ▸ rfl
  refine ⟨texts true [' '] ['\n'] (List.all_eq_true.1 space) (List.all_eq_true.1 newline),
    literals false _ ['n'] (by decide) ?_, octals rfl _ [] (by decide) ?_⟩
  · exact .char _ (.char _ (.char _ (.separator (.char _ (.char _ (.char _ .nil))))))
  · exact .char _ (.char _ (.char _ (.char _ .nil)))

end Number

end AddonAudit
