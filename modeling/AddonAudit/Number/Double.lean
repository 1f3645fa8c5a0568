import AddonAudit.Number.Power

/-!
# Doubles as exact numbers

A finite double is a sign, a natural number and a power of two. The operations here work on that
form, so they are exact: the integer part, the remainder, and the 32-bit and 64-bit integers that a
double stands for.
-/

namespace AddonAudit

/-- A finite double: `mantissa * 2 ^ exponent`, negative if `negative` holds. -/
structure Dyadic where
  negative : Bool
  mantissa : Nat
  exponent : Int
  deriving DecidableEq, Repr

namespace Dyadic

def ofFloat? (x : Float) : Option Dyadic :=
  let bits := x.toBits.toNat
  let biased : Nat := bits / Number.twoTo 52 % Number.twoTo 11
  let fraction := bits % Number.twoTo 52
  let negative := bits / Number.twoTo 63 = 1
  if biased = 2047 then none
  else if biased = 0 then some ⟨negative, fraction, -1074⟩
  else some ⟨negative, fraction + Number.twoTo 52, biased - 1075⟩

/-- The mantissa at an exponent that is not above the own one. -/
def mantissaAt (d : Dyadic) (exponent : Int) : Nat :=
  d.mantissa * Number.twoTo (d.exponent - exponent).toNat

def wholePart (d : Dyadic) : Nat :=
  if 0 ≤ d.exponent then d.mantissa * Number.twoTo d.exponent.toNat
  else d.mantissa / Number.twoTo (-d.exponent).toNat

/-- The integer that is left when the fraction is cut off. -/
def truncate (d : Dyadic) : Int :=
  if d.negative then -(d.wholePart : Int) else d.wholePart

def isInteger (d : Dyadic) : Bool :=
  0 ≤ d.exponent || d.mantissa % Number.twoTo (-d.exponent).toNat = 0

/-- The remainder of the division by a second number, with the sign of the first one. -/
def remainder (d e : Dyadic) : Dyadic :=
  let exponent := min d.exponent e.exponent
  ⟨d.negative, d.mantissaAt exponent % e.mantissaAt exponent, exponent⟩

def toFloat (d : Dyadic) : Float :=
  let x := (Float.ofNat d.mantissa).scaleB d.exponent
  if d.negative then -x else x

end Dyadic

namespace Number

def nan : Float := 0.0 / 0.0

def infinity : Float := 1.0 / 0.0

/-- The remainder of a division, with the sign of the dividend. -/
def remainder (x y : Float) : Float :=
  match Dyadic.ofFloat? x, Dyadic.ofFloat? y with
  | some d, some e => if e.mantissa = 0 then nan else (d.remainder e).toFloat
  | some _, none => if y.isNaN then nan else x
  | none, _ => nan

/-- The integer part of a double; zero if it is not finite. -/
def truncate (x : Float) : Int :=
  match Dyadic.ofFloat? x with
  | some d => d.truncate
  | none => 0

def minInt64 : Int := -(twoTo 63 : Int)

def maxInt64 : Int := (twoTo 63 : Int) - 1

/-- The integer part of a double, kept within 64 bits; zero if it is not finite. -/
def toInt64 (x : Float) : Int :=
  max minInt64 (min maxInt64 (truncate x))

/-- The integer part of a double modulo `2 ^ 32`, as a signed number. -/
def toInt32 (x : Float) : Int32 :=
  Int32.ofInt (truncate x)

/-- The number of places of a shift: the five lowest bits of the integer part. -/
def shiftCount (x : Float) : Nat :=
  (toInt64 x % 32).toNat

end Number

end AddonAudit
