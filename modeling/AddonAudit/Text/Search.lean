/-!
# Binary search

The place of a number in an array of increasing numbers, or the place where it belongs.
-/

namespace AddonAudit.Text

/-- The last place of a part of an array whose number is at most `x`. The part starts at `base` and
has `size` places; it is halved until one place is left. -/
def lastUpTo (xs : Array Nat) (x base size : Nat) : Nat :=
  if 1 < size then
    let middle := base + size / 2
    let base := if x < xs.getD middle 0 then base else middle
    lastUpTo xs x base (size - size / 2)
  else base
termination_by size

/-- The place of a number in an array of increasing numbers. If it is not there, the failure is the
place where it belongs. -/
def binarySearch (xs : Array Nat) (x : Nat) : Except Nat Nat :=
  if xs.isEmpty then .error 0
  else
    let place := lastUpTo xs x 0 xs.size
    match compare (xs.getD place 0) x with
    | .eq => .ok place
    | .lt => .error (place + 1)
    | .gt => .error place

end AddonAudit.Text
