import AddonAudit.Proofs.Strings

/-!
# Ways to write a character

Inside a string a character stands for itself or is written by its number: in two digits, in four,
between braces, or, above the first plane, as a pair of surrogates with four digits each. Escape
sequences are decoded one at a time. So every way of writing is undone but the pair, which is left
as the two texts behind the backslashes.
-/

namespace AddonAudit.Script

open Reader

/-- A way to write a character in a string. -/
inductive Spelling where
  | raw
  | byte (digits : List Char)
  | unit (digits : List Char)
  | braced (digits : List Char)
  | pair (high low : List Char)

/-- A character and a way to write it. -/
structure Letter where
  char : Char
  spelling : Spelling

/-- The text of a letter in the source. -/
def Letter.text (l : Letter) : List Char :=
  match l.spelling with
  | .raw => [l.char]
  | .byte digits => '\\' :: 'x' :: digits
  | .unit digits => '\\' :: 'u' :: digits
  | .braced digits => '\\' :: 'u' :: '\x7b' :: (digits ++ ['\x7d'])
  | .pair high low => '\\' :: 'u' :: high ++ '\\' :: 'u' :: low

/-- A spelling that stands for a character between these quotes. -/
inductive Denotes (quote c : Char) : Spelling → Prop where
  | raw (plain : c ∉ [quote, '\\', '\n', '\r']) : Denotes quote c .raw
  | byte {digits : List Char} (hex : IsHexadecimal digits c.toNat) (size : digits.length = 2) :
      Denotes quote c (.byte digits)
  | unit {digits : List Char} (hex : IsHexadecimal digits c.toNat) (size : digits.length = 4) :
      Denotes quote c (.unit digits)
  | braced {digits : List Char} (hex : IsHexadecimal digits c.toNat) :
      Denotes quote c (.braced digits)
  | pair {high low : List Char} {hi lo : Nat} (hexHigh : IsHexadecimal high hi)
      (sizeHigh : high.length = 4) (hexLow : IsHexadecimal low lo) (sizeLow : low.length = 4)
      (isHigh : 0xD800 ≤ hi ∧ hi ≤ 0xDBFF) (isLow : 0xDC00 ≤ lo ∧ lo ≤ 0xDFFF)
      (value : c.toNat = 0x10000 + (hi - 0xD800) * 0x400 + (lo - 0xDC00)) :
      Denotes quote c (.pair high low)

/-- Whether a letter is written as a pair of surrogates. -/
def Letter.isPair (l : Letter) : Bool :=
  match l.spelling with
  | .pair _ _ => true
  | _ => false

/-- What a letter is decoded to. -/
def Letter.decoded (l : Letter) : List Char :=
  match l.spelling with
  | .pair high low => 'u' :: high ++ 'u' :: low
  | _ => [l.char]

/-- The parts that a letter is read as. -/
def Letter.parts (l : Letter) : List Part :=
  match l.spelling with
  | .raw => [.plain l.char]
  | .byte digits => [.escape ('x' :: digits)]
  | .unit digits => [.escape ('u' :: digits)]
  | .braced digits => [.escape ('u' :: '\x7b' :: (digits ++ ['\x7d']))]
  | .pair high low => [.escape ('u' :: high), .escape ('u' :: low)]

variable {quote c : Char} {l : Letter} {letters : List Letter}

theorem Letter.text_parts (l : Letter) : l.parts.flatMap Part.text = l.text := by
  obtain ⟨c, spelling⟩ := l
  cases spelling <;> simp [Letter.parts, Letter.text, Part.text]

theorem fits_unit {digits : List Char} {n : Nat} (hex : IsHexadecimal digits n)
    (size : digits.length = 4) : Part.Fits quote (.escape ('u' :: digits)) :=
  ⟨List.cons_ne_nil _ _, escapeLength_unit hex size⟩

theorem Letter.parts_fit (denotes : Denotes quote l.char l.spelling) :
    ∀ part ∈ l.parts, part.Fits quote := by
  obtain ⟨c, spelling⟩ := l
  intro part mem
  cases denotes with
  | raw plain =>
      cases List.mem_singleton.1 mem
      simpa [Part.Fits, isPlain, and_assoc] using plain
  | byte hex size =>
      cases List.mem_singleton.1 mem
      exact ⟨List.cons_ne_nil _ _, escapeLength_byte hex size⟩
  | unit hex size =>
      cases List.mem_singleton.1 mem
      exact fits_unit hex size
  | braced hex =>
      cases List.mem_singleton.1 mem
      exact ⟨List.cons_ne_nil _ _, escapeLength_braced hex⟩
  | pair hexHigh sizeHigh hexLow sizeLow =>
      rcases List.mem_cons.1 mem with rfl | mem
      · exact fits_unit hexHigh sizeHigh
      · cases List.mem_singleton.1 mem
        exact fits_unit hexLow sizeLow

theorem decodeEscape_surrogate {digits : List Char} {n : Nat} (hex : IsHexadecimal digits n)
    (low : 0xD800 ≤ n) (high : n ≤ 0xDFFF) :
    decodeEscape ('\\' :: 'u' :: digits) = 'u' :: digits := by
  have small : n < 0x110000 := by omega
  rw [decodeEscape_unit hex small, charOf?_surrogate low high]
  rfl

theorem Letter.content_parts (denotes : Denotes quote l.char l.spelling) :
    l.parts.flatMap Part.content = l.decoded := by
  obtain ⟨c, spelling⟩ := l
  cases denotes with
  | raw plain => rfl
  | byte hex size =>
      simp only [Letter.parts, Letter.decoded, List.flatMap_singleton, Part.content]
      rw [decodeEscape_byte hex (toNat_lt c), charOf?_toNat]
      rfl
  | unit hex size =>
      simp only [Letter.parts, Letter.decoded, List.flatMap_singleton, Part.content]
      rw [decodeEscape_unit hex (toNat_lt c), charOf?_toNat]
      rfl
  | braced hex =>
      simp only [Letter.parts, Letter.decoded, List.flatMap_singleton, Part.content]
      rw [decodeEscape_braced hex (toNat_lt c), charOf?_toNat]
      rfl
  | pair hexHigh sizeHigh hexLow sizeLow isHigh isLow value =>
      simp only [Letter.parts, Letter.decoded, List.flatMap_cons, List.flatMap_nil,
        List.append_nil, Part.content]
      rw [decodeEscape_surrogate hexHigh isHigh.1 (by omega),
        decodeEscape_surrogate hexLow (by omega) isLow.2]

theorem Letter.decoded_of_not_pair (single : l.isPair = false) : l.decoded = [l.char] := by
  obtain ⟨c, spelling⟩ := l
  cases spelling with
  | pair high low => cases single
  | _ => rfl

theorem Letter.length_decoded_pos (l : Letter) : 0 < l.decoded.length := by
  rw [Letter.decoded]
  split <;> exact Nat.succ_pos _

theorem Letter.length_decoded_of_pair (paired : l.isPair = true) : 1 < l.decoded.length := by
  obtain ⟨c, spelling⟩ := l
  cases spelling with
  | pair high low =>
      rw [Letter.decoded, List.length_append, List.length_cons, List.length_cons]
      omega
  | _ => cases paired

theorem length_le_decoded (letters : List Letter) :
    letters.length ≤ (letters.flatMap Letter.decoded).length := by
  induction letters with
  | nil => exact Nat.le_refl 0
  | cons l letters ih =>
      have one := l.length_decoded_pos
      rw [List.flatMap_cons, List.length_append, List.length_cons]
      omega

/-- The characters come back just if none of them is written as a pair. -/
theorem decoded_eq_chars_iff (letters : List Letter) :
    letters.flatMap Letter.decoded = letters.map Letter.char ↔ ∀ l ∈ letters, l.isPair = false := by
  induction letters with
  | nil => simp
  | cons l letters ih =>
      rw [List.forall_mem_cons, ← ih, List.flatMap_cons, List.map_cons]
      constructor
      · intro same
        cases paired : l.isPair with
        | false =>
            rw [Letter.decoded_of_not_pair paired] at same
            exact ⟨rfl, (List.cons.inj same).2⟩
        | true =>
            -- a pair is decoded to more than one character, so the lengths differ
            have longer := Letter.length_decoded_of_pair paired
            have rest := length_le_decoded letters
            have sizes := congrArg List.length same
            rw [List.length_append, List.length_cons, List.length_map] at sizes
            omega
      · rintro ⟨single, same⟩
        rw [Letter.decoded_of_not_pair single, same]
        rfl

/-- A string whose body is given letters between two quotes. -/
def SpellsLetters (quote : Char) (letters : List Letter) (n : Node) : Prop :=
  SpellsParts quote (letters.flatMap Letter.parts) n

theorem text_flatMap_parts (letters : List Letter) :
    (letters.flatMap Letter.parts).flatMap Part.text = letters.flatMap Letter.text := by
  rw [List.flatMap_assoc, List.flatMap_def, List.map_congr_left fun l _ => l.text_parts,
    List.flatMap_def]

/-- A string stands for what its letters are decoded to. -/
theorem SpellsLetters.content_eq {n : Node} (spells : SpellsLetters quote letters n)
    (denotes : ∀ l ∈ letters, Denotes quote l.char l.spelling) :
    Engine.stringContent n = String.ofList (letters.flatMap Letter.decoded) := by
  rw [SpellsParts.content_eq spells, List.flatMap_assoc, List.flatMap_def,
    List.map_congr_left fun l isLetter => Letter.content_parts (denotes l isLetter),
    List.flatMap_def]

theorem SpellsLetters.content_eq_chars_iff {n : Node} (spells : SpellsLetters quote letters n)
    (denotes : ∀ l ∈ letters, Denotes quote l.char l.spelling) :
    Engine.stringContent n = String.ofList (letters.map Letter.char) ↔
      ∀ l ∈ letters, l.isPair = false := by
  rw [spells.content_eq denotes, String.ofList_inj]
  exact decoded_eq_chars_iff letters

/-- A string whose characters are each written in some way is read to its end. -/
theorem string_spellsLetters (isQuote : quote ∈ stringQuotes)
    (denotes : ∀ l ∈ letters, Denotes quote l.char l.spelling) {s : Input} {rest : List Char}
    (text : s.rest = quote :: (letters.flatMap Letter.text ++ quote :: rest)) :
    ∃ n t, Reader.string quote s = .ok ((), t) ∧ t.rest = rest ∧ t.stack = n :: s.stack ∧
      SpellsLetters quote letters n := by
  have fits : ∀ part ∈ letters.flatMap Letter.parts, part.Fits quote := by
    intro part mem
    obtain ⟨l, isLetter, mem⟩ := List.mem_flatMap.1 mem
    exact Letter.parts_fit (denotes l isLetter) part mem
  rw [← text_flatMap_parts] at text
  exact string_ok isQuote fits text

/-- A string stands for its characters, each of them written in some way, unless one of them is
written as a pair of surrogates. Each half of a pair stands for its own text without the backslash.
Reading such a string goes to its end and leaves a node with these letters. -/
theorem string_undoes_all_but_pairs (denotes : ∀ l ∈ letters, Denotes quote l.char l.spelling) :
    (∀ n, SpellsLetters quote letters n →
      Engine.stringContent n = String.ofList (letters.flatMap Letter.decoded) ∧
      (Engine.stringContent n = String.ofList (letters.map Letter.char) ↔
        ∀ l ∈ letters, l.isPair = false)) ∧
    (quote ∈ stringQuotes → ∀ (s : Input) (rest : List Char),
      s.rest = quote :: (letters.flatMap Letter.text ++ quote :: rest) →
      ∃ n t, Reader.string quote s = .ok ((), t) ∧ t.rest = rest ∧ t.stack = n :: s.stack ∧
        SpellsLetters quote letters n ∧
        Engine.stringContent n = String.ofList (letters.flatMap Letter.decoded) ∧
        (Engine.stringContent n = String.ofList (letters.map Letter.char) ↔
          ∀ l ∈ letters, l.isPair = false)) := by
  constructor
  · intro n spells
    exact ⟨spells.content_eq denotes, spells.content_eq_chars_iff denotes⟩
  · intro isQuote s rest text
    obtain ⟨n, t, ran, rest, stack, spells⟩ := string_spellsLetters isQuote denotes text
    exact ⟨n, t, ran, rest, stack, spells, spells.content_eq denotes,
      spells.content_eq_chars_iff denotes⟩

/-- A character in five ways: as it is, in two digits, in four and between braces, and a character
above the first plane as a pair. -/
theorem string_undoes_all_but_pairs_sample :
    let letters : List Letter :=
      [⟨'é', .raw⟩, ⟨'é', .byte ['E', '9']⟩, ⟨'é', .unit ['0', '0', 'e', '9']⟩,
      ⟨'é', .braced ['0', 'E', '9']⟩, ⟨'😀', .pair ['D', '8', '3', 'd'] ['d', 'E', '0', '0']⟩]
    let s : Input := { rest := '"' :: (letters.flatMap Letter.text ++ ['"', ';']) }
    '"' ∈ stringQuotes ∧ (∀ l ∈ letters, Denotes '"' l.char l.spelling) ∧
      ∃ n t, Reader.string '"' s = .ok ((), t) ∧ t.rest = [';'] ∧ SpellsLetters '"' letters n ∧
        Engine.stringContent n = "ééééuD83dudE00" ∧ Engine.stringContent n ≠ "éééé😀" := by
  intro letters s
  have denotes : ∀ l ∈ letters, Denotes '"' l.char l.spelling := by
    simp only [letters, List.forall_mem_cons, List.not_mem_nil, false_implies,
      implies_true, and_true]
    have high : IsHexadecimal ['D', '8', '3', 'd'] 0xD83D := ⟨0, by decide⟩
    have low : IsHexadecimal ['d', 'E', '0', '0'] 0xDE00 := ⟨0, by decide⟩
    exact ⟨.raw (by decide), .byte ⟨0, by decide⟩ rfl, .unit ⟨2, by decide⟩ rfl,
      .braced ⟨1, by decide⟩, .pair high rfl low rfl (by decide) (by decide) (by decide)⟩
  obtain ⟨n, t, ran, rest, _, spells, content, same⟩ :=
    (string_undoes_all_but_pairs denotes).2 (by decide) s [';'] rfl
  refine ⟨by decide, denotes, n, t, ran, rest, spells, content.trans (by decide), fun undone => ?_⟩
  have unpaired := same.1 (undone.trans (by decide))
  exact absurd (unpaired _ (List.getLast_mem (List.cons_ne_nil _ _))) (by decide)

end AddonAudit.Script
