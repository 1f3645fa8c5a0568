import AddonAudit.Number.Double

/-!
# Shortest decimals

The fewest decimal digits that still read back as a given double, and of those the nearest. The test
is exact: the reals that round to `m * 2 ^ q` form an interval whose ends belong to it if `m` is
even, and for each number of digits only the two neighbours of the value on that decimal grid can
lie in it.
-/

namespace AddonAudit.Number

/-- A positive decimal `digits * 10 ^ exponent`. -/
structure Decimal where
  digits : Nat
  exponent : Int
  deriving DecidableEq, Repr

/-- The reals `low / scale` to `high / scale` around `value / scale`. -/
structure Interval where
  low : Nat
  value : Nat
  high : Nat
  scale : Nat
  closed : Bool
  deriving DecidableEq, Repr

namespace Interval

/-- The reals that round to a positive double. Below a power of two the gap is half as wide. -/
def ofDyadic (d : Dyadic) : Interval :=
  let below := if d.mantissa = twoTo 52 ∧ -1074 < d.exponent then 1 else 2
  let shift := d.exponent - 2
  let up := twoTo shift.toNat
  { low := (4 * d.mantissa - below) * up
    value := 4 * d.mantissa * up
    high := (4 * d.mantissa + 2) * up
    scale := twoTo (-shift).toNat
    closed := d.mantissa % 2 = 0 }

def contains (i : Interval) (x : Decimal) : Bool :=
  let n := x.digits * tenTo x.exponent.toNat * i.scale
  let unit := tenTo (-x.exponent).toNat
  if i.closed then i.low * unit ≤ n && n ≤ i.high * unit
  else i.low * unit < n && n < i.high * unit

/-- The value on the grid of multiples of `10 ^ exponent`, rounded down. -/
def floorAt (i : Interval) (exponent : Int) : Nat :=
  i.value * tenTo (-exponent).toNat / (i.scale * tenTo exponent.toNat)

/-- Whether the value is nearer to `x` than to the next number on its grid. -/
def isNearer (i : Interval) (x : Decimal) : Bool :=
  2 * i.value * tenTo (-x.exponent).toNat < (2 * x.digits + 1) * tenTo x.exponent.toNat * i.scale

def magnitude (i : Interval) : Int :=
  ((Nat.toDigits 10 (i.value * tenTo 340 / i.scale)).length : Int) - 341

/-- A decimal with so many digits that lies in the interval, the nearer one of two. -/
def withDigits? (i : Interval) (count : Nat) : Option Decimal :=
  let exponent := i.magnitude - count + 1
  let low : Decimal := ⟨i.floorAt exponent, exponent⟩
  let high : Decimal := ⟨low.digits + 1, exponent⟩
  match i.contains low, i.contains high with
  | true, true => if i.isNearer low then some low else some high
  | true, false => some low
  | false, true => some high
  | false, false => none

end Interval

/-- Move zeros at the end of the digits into the exponent. -/
def Decimal.normalize (x : Decimal) : Nat → Decimal
  | 0 => x
  | fuel + 1 =>
    if x.digits ≠ 0 ∧ x.digits % 10 = 0 then
      Decimal.normalize ⟨x.digits / 10, x.exponent + 1⟩ fuel
    else x

/-- The shortest decimal that reads back as a positive double. -/
def shortest (d : Dyadic) : Decimal :=
  let i := Interval.ofDyadic d
  match (List.range 17).findSome? fun k => i.withDigits? (k + 1) with
  | some x => x.normalize 17
  | none => ⟨0, 0⟩

end AddonAudit.Number
