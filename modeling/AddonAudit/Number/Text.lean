import AddonAudit.Number.Shortest
import AddonAudit.Text.Blank

/-!
# Numbers as texts

How a script's numbers are written and read. A whole number below `10 ^ 21` is written in full,
other numbers with the fewest digits that read back; very large and very small ones have an
exponent. Reading never fails: a text that is no number gives the double that is no number.
-/

namespace AddonAudit.Number

def decimalDigits (n : Nat) : List Char :=
  Nat.toDigits 10 n

def Decimal.positional (x : Decimal) : List Char :=
  let digits := decimalDigits x.digits
  let point := (digits.length : Int) + x.exponent
  if point ≤ 0 then '0' :: '.' :: List.replicate (-point).toNat '0' ++ digits
  else if (digits.length : Int) ≤ point then
    digits ++ List.replicate (point - digits.length).toNat '0'
  else digits.take point.toNat ++ '.' :: digits.drop point.toNat

def Decimal.scientific (x : Decimal) : List Char :=
  let digits := decimalDigits x.digits
  let exponent := (digits.length : Int) - 1 + x.exponent
  let body := match digits with
    | [] => []
    | [d] => [d]
    | d :: rest => d :: '.' :: rest
  if exponent < 0 then body ++ 'e' :: '-' :: decimalDigits exponent.natAbs
  else body ++ 'e' :: '+' :: decimalDigits exponent.natAbs

def positiveText (d : Dyadic) (x : Float) : List Char :=
  if x < 1e-6 || 1e21 ≤ x then (shortest d).scientific
  else if d.isInteger then decimalDigits d.wholePart
  else (shortest d).positional

def toText (x : Float) : String :=
  match Dyadic.ofFloat? x with
  | none => if x.isNaN then "NaN" else if 0 < x then "Infinity" else "-Infinity"
  | some d =>
    if d.mantissa = 0 then "0"
    else
      let text := positiveText d x.abs
      String.ofList (if d.negative then '-' :: text else text)

/-- The value of a digit in bases up to 36. -/
def digitValue (c : Char) : Nat :=
  if c.isDigit then c.toNat - '0'.toNat
  else if 'a' ≤ c ∧ c ≤ 'z' then c.toNat - 'a'.toNat + 10
  else if 'A' ≤ c ∧ c ≤ 'Z' then c.toNat - 'A'.toNat + 10
  else 36

def ofDigits (base : Nat) (digits : List Char) : Nat :=
  digits.foldl (fun n c => base * n + digitValue c) 0

/-- Read a natural number below a bound; there has to be a digit, and nothing else. -/
def natural? (base bound : Nat) (digits : List Char) : Option Nat :=
  if !digits.isEmpty && digits.all (digitValue · < base) then
    let n := ofDigits base digits
    if n < bound then some n else none
  else none

/-- Read a natural number below a bound that may have a plus sign. -/
def signedNatural? (base bound : Nat) : List Char → Option Nat
  | '+' :: digits => natural? base bound digits
  | digits => natural? base bound digits

/-- Read the digits after the mark of a base, such as `0x`. -/
def marked? : List Char → Option Nat
  | '0' :: mark :: digits =>
    if mark = 'x' ∨ mark = 'X' then natural? 16 (twoTo 64) digits
    else if mark = 'o' ∨ mark = 'O' then natural? 8 (twoTo 64) digits
    else if mark = 'b' ∨ mark = 'B' then natural? 2 (twoTo 64) digits
    else none
  | _ => none

/-- The double nearest to `digits * 10 ^ exponent`, where `digits` has `count` digits. -/
def ofScientific (digits count : Nat) (exponent : Int) : Float :=
  if digits = 0 ∨ exponent + count < -400 then 0.0
  else if 400 < exponent then infinity
  else if 0 ≤ exponent then Float.ofScientific digits false exponent.toNat
  else Float.ofScientific digits true (-exponent).toNat

/-- Read an exponent such as `e-7`; no text at all is the exponent zero. -/
def exponent? : List Char → Option Int
  | [] => some 0
  | e :: cs =>
    if e = 'e' ∨ e = 'E' then
      match cs with
      | '-' :: digits => (natural? 10 (tenTo digits.length) digits).map fun n => -(n : Int)
      | '+' :: digits => (natural? 10 (tenTo digits.length) digits).map fun n => (n : Int)
      | digits => (natural? 10 (tenTo digits.length) digits).map fun n => (n : Int)
    else none

def unsigned? (cs : List Char) : Option Float :=
  let whole := cs.takeWhile Char.isDigit
  let cs := cs.dropWhile Char.isDigit
  let (fraction, cs) := match cs with
    | '.' :: cs => (cs.takeWhile Char.isDigit, cs.dropWhile Char.isDigit)
    | cs => ([], cs)
  if whole.isEmpty && fraction.isEmpty then none
  else (exponent? cs).map fun e =>
    let digits := (whole ++ fraction).dropWhile (· = '0')
    ofScientific (ofDigits 10 digits) digits.length (e - fraction.length)

def decimal? : List Char → Option Float
  | '-' :: cs => (unsigned? cs).map fun x => -x
  | '+' :: cs => unsigned? cs
  | cs => unsigned? cs

def splitSign : List Char → Bool × List Char
  | '-' :: body => (true, body)
  | body => (false, body)

/-- The number that a text stands for. The empty text is zero. -/
def ofChars (cs : List Char) : Float :=
  let cs := Text.trimChars cs
  let (negative, body) := splitSign cs
  if cs.isEmpty then 0.0
  else match marked? body with
    | some n => if negative then -Float.ofNat n else Float.ofNat n
    | none =>
      if body = "Infinity".toList then (if negative then -infinity else infinity)
      else if cs = "+Infinity".toList then infinity
      else (decimal? cs).getD nan

def ofText (s : String) : Float :=
  ofChars s.toList

/-- The characters of a literal that count: without separators and the mark of a big integer. -/
def literalBody (cs : List Char) : List Char :=
  let cs := cs.filter (· ≠ '_')
  if cs.getLast? = some 'n' then cs.dropLast else cs

/-- The number that a literal of a script stands for. Digits below eight after a zero are octal. -/
def ofLiteral (s : String) : Float :=
  match literalBody s.toList with
  | '0' :: d :: rest =>
    if (d :: rest).all (digitValue · < 8) then
      match natural? 8 (twoTo 64) (d :: rest) with
      | some n => Float.ofNat n
      | none => nan
    else ofChars ('0' :: d :: rest)
  | cs => ofChars cs

end AddonAudit.Number
