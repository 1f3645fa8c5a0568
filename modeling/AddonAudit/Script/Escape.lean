import AddonAudit.Number.Text

/-!
# Escape sequences

The text that an escape sequence of a string literal stands for. A sequence that stands for nothing
in particular is the text after its backslash.
-/

namespace AddonAudit.Script

def charOf? (n : Nat) : Option Char :=
  if n.isValidChar then some (Char.ofNat n) else none

def charOfDigits? (base : Nat) (digits : List Char) : Option (List Char) :=
  ((Number.signedNatural? base (Number.twoTo 32) digits).bind charOf?).map ([·])

/-- The text between braces, if there are any around it. -/
def unbraced? : List Char → Option (List Char)
  | '\x7b' :: rest => if rest.getLast? = some '\x7d' then some rest.dropLast else none
  | _ => none

/-- The text that a sequence without its backslash stands for, if it is a known one. -/
def decoded? : List Char → Option (List Char)
  | [] => none
  | first :: rest =>
    match first with
    | 'n' => some ['\n']
    | 't' => some ['\t']
    | 'r' => some ['\r']
    | 'b' => some ['\x08']
    | 'f' => some ['\x0c']
    | 'v' => some ['\x0b']
    | 'x' => charOfDigits? 16 rest
    | 'u' => charOfDigits? 16 ((unbraced? rest).getD rest)
    | c =>
      if c = '\n' ∨ c = '\r' ∨ c.toNat = 0x2028 ∨ c.toNat = 0x2029 then some []
      else if '0' ≤ c ∧ c ≤ '7' then charOfDigits? 8 (first :: rest)
      else none

def decodeEscape (sequence : List Char) : List Char :=
  let body := match sequence with
    | '\\' :: body => body
    | body => body
  (decoded? body).getD body

end AddonAudit.Script
