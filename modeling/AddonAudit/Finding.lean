import AddonAudit.Text.Lines
import AddonAudit.Version

/-!
# Findings

A finding is what a check submits. A record is a finding as the bundle keeps it: stamped with a
number of its own, its severity, the tier it was made in and the chain of packages around its file.
-/

namespace AddonAudit

inductive Severity where
  | error
  | warning
  | notice
  deriving DecidableEq, Repr, Inhabited

namespace Severity

def name : Severity → String
  | .error => "error"
  | .warning => "warning"
  | .notice => "notice"

def ofName (s : String) : Except String Severity :=
  match Text.lower s with
  | "error" => .ok .error
  | "warning" => .ok .warning
  | "notice" => .ok .notice
  | _ => .error ("unknown severity: " ++ s)

end Severity

/-- The risk that a finding means for automated signing. -/
inductive SigningSeverity where
  | trivial
  | low
  | medium
  | high
  deriving DecidableEq, Repr, Inhabited

def SigningSeverity.name : SigningSeverity → String
  | .trivial => "trivial"
  | .low => "low"
  | .medium => "medium"
  | .high => "high"

/-- A finding as a check submits it. -/
structure Finding where
  /-- The identifier, from the general to the particular. -/
  id : List String
  message : String
  description : List String := []
  file : Option String := none
  line : Option Nat := none
  column : Option Nat := none
  context : Option Text.Excerpt := none
  forVersions : Option AppVersions := none
  compatibility : Option Severity := none
  signing : Option SigningSeverity := none
  editorsOnly : Bool := false
  deriving DecidableEq, Repr

/-- A finding as the bundle keeps it. -/
structure Record where
  uid : Nat
  severity : Severity
  id : List String
  message : String
  description : List String
  /-- The packages around the file and the file itself; empty if there is no file. -/
  file : List String
  line : Option Nat
  column : Option Nat
  context : Option Text.Excerpt
  tier : Nat
  forVersions : Option AppVersions
  compatibility : Option Severity
  signing : Option SigningSeverity
  editorsOnly : Bool
  deriving DecidableEq, Repr

namespace Record

def dottedId (r : Record) : String :=
  ".".intercalate r.id

/-- The file without the packages around it. -/
def fileName? (r : Record) : Option String :=
  r.file.getLast?

end Record

end AddonAudit
