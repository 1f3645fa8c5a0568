/-!
# Text from bytes

The text of bytes in UTF-8. Bytes that are no part of a character are replaced, each longest start
of a character that is cut off by one replacement character.
-/

namespace AddonAudit

abbrev Bytes := List UInt8

namespace Text

/-- The character that stands for bytes that are none. -/
def replacement : Char := '\ufffd'

def isTail (b : UInt8) : Bool :=
  0x80 ≤ b && b ≤ 0xBF

def startsThree (a b : UInt8) : Bool :=
  (a = 0xE0 && 0xA0 ≤ b && b ≤ 0xBF) || (0xE1 ≤ a && a ≤ 0xEC && isTail b) ||
    (a = 0xED && 0x80 ≤ b && b ≤ 0x9F) || (0xEE ≤ a && a ≤ 0xEF && isTail b)

def startsFour (a b : UInt8) : Bool :=
  (a = 0xF0 && 0x90 ≤ b && b ≤ 0xBF) || (0xF1 ≤ a && a ≤ 0xF3 && isTail b) ||
    (a = 0xF4 && 0x80 ≤ b && b ≤ 0x8F)

def charOf (first : Nat) (tail : List UInt8) : Char :=
  Char.ofNat (tail.foldl (fun n b => n * 64 + b.toNat % 64) first)

def ofBytes : Bytes → List Char
  | [] => []
  | a :: rest =>
    if a < 0x80 then Char.ofNat a.toNat :: ofBytes rest
    else
      match rest with
      | [] => [replacement]
      | b :: rest₁ =>
        if 0xC2 ≤ a && a ≤ 0xDF && isTail b then charOf (a.toNat % 32) [b] :: ofBytes rest₁
        else if startsThree a b then
          match rest₁ with
          | [] => [replacement]
          | c :: rest₂ =>
            if isTail c then charOf (a.toNat % 16) [b, c] :: ofBytes rest₂
            else replacement :: ofBytes (c :: rest₂)
        else if startsFour a b then
          match rest₁ with
          | [] => [replacement]
          | c :: rest₂ =>
            if isTail c then
              match rest₂ with
              | [] => [replacement]
              | d :: rest₃ =>
                if isTail d then charOf (a.toNat % 8) [b, c, d] :: ofBytes rest₃
                else replacement :: ofBytes (d :: rest₃)
            else replacement :: ofBytes (c :: rest₂)
        else replacement :: ofBytes (b :: rest₁)

def toBytes (s : String) : Bytes :=
  s.toUTF8.toList

def ofBytes? (bytes : Bytes) : Option (List Char) :=
  let cs := ofBytes bytes
  if toBytes (String.ofList cs) = bytes then some cs else none

end Text

end AddonAudit
