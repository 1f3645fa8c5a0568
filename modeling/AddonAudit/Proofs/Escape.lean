import AddonAudit.Proofs.Numeral
import AddonAudit.Script.Escape
import AddonAudit.Script.Reader.Lexical

/-!
# Escape sequences with a number

A character can be written by its number, in hexadecimal digits of either case and, between braces,
with any zeros in front. Reading takes exactly the sequence, whatever follows it, and decoding gives
the character back.
-/

namespace AddonAudit.Script

open Reader Number

/-- Hexadecimal digits of a number, in either case and with any zeros in front. -/
def IsHexadecimal (digits : List Char) (n : Nat) : Prop :=
  ∃ zeros, digits.map Char.toLower = List.replicate zeros '0' ++ Nat.toDigits 16 n

section Digits

theorem isHex_of_digitValue {c : Char} (digit : digitValue c < 16) : isHex c :=
  forall_digit (P := fun c => isHex c) (by decide +kernel) digit

namespace IsHexadecimal

variable {digits : List Char} {n : Nat}

theorem isNumeral (hex : IsHexadecimal digits n) : IsNumeral 16 digits n := hex

theorem isHex (hex : IsHexadecimal digits n) {c : Char} (mem : c ∈ digits) : Reader.isHex c :=
  isHex_of_digitValue (hex.isNumeral.digitValue_lt (by decide) (Nat.le_refl 16) c mem)

theorem ne_nil (hex : IsHexadecimal digits n) : digits ≠ [] :=
  hex.isNumeral.ne_nil

theorem natural? (hex : IsHexadecimal digits n) {bound : Nat} (small : n < bound) :
    Number.natural? 16 bound digits = some n := by
  rw [hex.isNumeral.natural? (by decide) (Nat.le_refl 16), if_pos small]

/-- The first digit is none of the characters that would change how digits are read. -/
theorem head_ne {c : Char} {rest : List Char} (hex : IsHexadecimal (c :: rest) n) :
    c ≠ '+' ∧ c ≠ '\x7b' := by
  have digit := hex.isHex List.mem_cons_self
  constructor
  · rintro rfl
    exact absurd digit (by decide)
  · rintro rfl
    exact absurd digit (by decide)

theorem signedNatural? (hex : IsHexadecimal digits n) {bound : Nat} (small : n < bound) :
    Number.signedNatural? 16 bound digits = some n := by
  unfold Number.signedNatural?
  split
  · exact absurd rfl hex.head_ne.1
  · exact hex.natural? small

theorem charOfDigits? (hex : IsHexadecimal digits n) (small : n < 0x110000) :
    Script.charOfDigits? 16 digits = (charOf? n).map ([·]) := by
  have small : n < twoTo 32 := Nat.lt_trans small (by decide)
  rw [Script.charOfDigits?, hex.signedNatural? small, Option.bind_some]

theorem unbraced? (hex : IsHexadecimal digits n) : Script.unbraced? digits = none := by
  unfold Script.unbraced?
  split
  · exact absurd rfl hex.head_ne.2
  · rfl

end IsHexadecimal

end Digits

section Decoding

variable {digits : List Char} {n : Nat}

theorem charOf?_toNat (c : Char) : charOf? c.toNat = some c := by
  have valid : c.toNat.isValidChar := c.valid
  rw [charOf?, if_pos valid, Char.ofNat_toNat]

/-- No character has the number of a surrogate. -/
theorem charOf?_surrogate {n : Nat} (low : 0xD800 ≤ n) (high : n ≤ 0xDFFF) : charOf? n = none := by
  refine if_neg fun valid => ?_
  rcases valid with below | above <;> omega

theorem toNat_lt (c : Char) : c.toNat < 0x110000 := by
  rcases c.valid with below | above
  · exact Nat.lt_trans below (by decide)
  · exact above.2

theorem decodeEscape_cons (body : List Char) :
    decodeEscape ('\\' :: body) = (decoded? body).getD body := rfl

theorem decoded?_x (rest : List Char) : decoded? ('x' :: rest) = charOfDigits? 16 rest := rfl

theorem decoded?_u (rest : List Char) :
    decoded? ('u' :: rest) = charOfDigits? 16 ((unbraced? rest).getD rest) := rfl

theorem decodeEscape_byte (hex : IsHexadecimal digits n) (small : n < 0x110000) :
    decodeEscape ('\\' :: 'x' :: digits) = ((charOf? n).map ([·])).getD ('x' :: digits) := by
  rw [decodeEscape_cons, decoded?_x, hex.charOfDigits? small]

theorem decodeEscape_unit (hex : IsHexadecimal digits n) (small : n < 0x110000) :
    decodeEscape ('\\' :: 'u' :: digits) = ((charOf? n).map ([·])).getD ('u' :: digits) := by
  rw [decodeEscape_cons, decoded?_u, hex.unbraced?, Option.getD_none, hex.charOfDigits? small]

theorem decodeEscape_braced (hex : IsHexadecimal digits n) (small : n < 0x110000) :
    decodeEscape ('\\' :: 'u' :: '\x7b' :: (digits ++ ['\x7d'])) =
      ((charOf? n).map ([·])).getD ('u' :: '\x7b' :: (digits ++ ['\x7d'])) := by
  have inside : unbraced? ('\x7b' :: (digits ++ ['\x7d'])) = some digits := by
    rw [unbraced?, if_pos List.getLast?_concat, List.dropLast_concat]
  rw [decodeEscape_cons, decoded?_u, inside, Option.getD_some, hex.charOfDigits? small]

end Decoding

section Lengths

variable {digits : List Char} {n : Nat}

theorem escapeLength_x (rest : List Char) :
    escapeLength ('x' :: rest) =
      if (rest.take 2).length = 2 && (rest.take 2).all isHex then 3 else 0 := rfl

theorem escapeLength_u (rest : List Char) :
    escapeLength ('u' :: rest) = wordEscape ('\\' :: 'u' :: rest) - 1 := by
  rw [escapeLength]
  split
  next zero => rw [zero]
  · rfl

theorem wordEscape_braced (rest : List Char) :
    wordEscape ('\\' :: 'u' :: '\x7b' :: rest) =
      if !(rest.takeWhile isHex).isEmpty &&
          (rest.drop (rest.takeWhile isHex).length).head? = some '\x7d' then
        (rest.takeWhile isHex).length + 4
      else 0 := rfl

theorem wordEscape_unbraced {c : Char} (plain : c ≠ '\x7b') (rest : List Char) :
    wordEscape ('\\' :: 'u' :: c :: rest) =
      if ((c :: rest).take 4).length = 4 && ((c :: rest).take 4).all isHex then 6 else 0 := by
  unfold wordEscape
  split
  next same => exact absurd (List.cons.inj (List.cons.inj (List.cons.inj same).2).2).1 plain
  next same => cases same; rfl
  next other => exact absurd rfl (other _)

theorem IsHexadecimal.take (hex : IsHexadecimal digits n) {size : Nat}
    (length : digits.length = size) (rest : List Char) :
    ((digits ++ rest).take size).length = size ∧
    ((digits ++ rest).take size).all Reader.isHex = true := by
  subst length
  rw [List.take_left]
  exact ⟨rfl, List.all_eq_true.2 fun _ mem => hex.isHex mem⟩

/-- Reading takes the digits of a sequence and leaves what follows. -/
theorem escapeLength_byte (hex : IsHexadecimal digits n) (size : digits.length = 2)
    (rest : List Char) : escapeLength ('x' :: digits ++ rest) = ('x' :: digits).length := by
  obtain ⟨length, all⟩ := hex.take size rest
  rw [List.cons_append, escapeLength_x, length, all, List.length_cons, size]
  rfl

theorem escapeLength_unit (hex : IsHexadecimal digits n) (size : digits.length = 4)
    (rest : List Char) : escapeLength ('u' :: digits ++ rest) = ('u' :: digits).length := by
  obtain ⟨length, all⟩ := hex.take size rest
  cases digits with
  | nil => exact absurd rfl hex.ne_nil
  | cons c digits =>
      rw [List.cons_append] at length all
      rw [List.cons_append, List.cons_append, escapeLength_u,
        wordEscape_unbraced hex.head_ne.2, length, all, List.length_cons, size]
      rfl

theorem escapeLength_braced (hex : IsHexadecimal digits n) (rest : List Char) :
    escapeLength ('u' :: '\x7b' :: (digits ++ ['\x7d']) ++ rest) =
      ('u' :: '\x7b' :: (digits ++ ['\x7d'])).length := by
  have run : (digits ++ '\x7d' :: rest).takeWhile isHex = digits := by
    rw [List.takeWhile_append_of_pos fun c mem => hex.isHex mem,
      List.takeWhile_cons_of_neg (by decide), List.append_nil]
  have nonempty : digits.isEmpty = false := by simpa using hex.ne_nil
  have text : 'u' :: '\x7b' :: (digits ++ ['\x7d']) ++ rest =
      'u' :: '\x7b' :: (digits ++ '\x7d' :: rest) := by
    simp
  rw [text, escapeLength_u, wordEscape_braced, run, nonempty, List.drop_left, List.head?_cons]
  simp

end Lengths

end AddonAudit.Script
