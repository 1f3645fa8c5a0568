import AddonAudit.Bundle

/-!
# Sessions

A session is a bundle together with the deadline of the audit that fills it.
-/

namespace AddonAudit

/-- A deadline: how many more times it is looked at before it has passed. Without a number it never
passes. -/
abbrev Clock := Option Nat

/-- Look at the deadline: whether it has passed, and the clock after the look. -/
def Clock.look : Clock → Bool × Clock
  | none => (false, none)
  | some 0 => (true, some 0)
  | some (n + 1) => (false, some n)

/-- A bundle with the deadline of its audit. -/
structure Session where
  bundle : Bundle
  clock : Clock := none

namespace Session

def update (f : Bundle → Bundle) (s : Session) : Session :=
  { s with bundle := f s.bundle }

def add (severity : Severity) (f : Finding) (s : Session) : Session :=
  s.update (·.add severity f)

end Session

end AddonAudit
