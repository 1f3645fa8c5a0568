import AddonAudit.Bundle
import AddonAudit.Glob

/-!
# Configuration

What a user can set for an audit: the applications it is for, values that replace those of the
manifest, limits, and files that are left out.
-/

namespace AddonAudit

inductive VersionSpec where
  | list (versions : List String)
  /-- Versions from the first one on and below the last one. -/
  | range (first last : String)
  deriving DecidableEq, Repr

/-- Values that replace what a manifest says. -/
structure Overrides where
  /-- The name of the add-on may be missing. -/
  ignoreEmptyName : Bool := false
  minVersions : Dict String := []
  maxVersions : Dict String := []

structure Config where
  forVersions : Dict VersionSpec := []
  overrides : Overrides := {}
  /-- Seconds until the audit is given up; zero for no limit. -/
  timeout : Nat := 60
  /-- Go on after a tier that failed. -/
  determined : Bool := false
  /-- Faults of an analysis end the audit. -/
  strict : Bool := false
  expectedType : Option PackageType := none
  /-- Patterns of paths that are left out. -/
  excludedPaths : List String := []

namespace Config

def limit? (c : Config) : Option Nat :=
  if c.timeout = 0 then none else some c.timeout

def addSpec (s : AppVersions) (app : String) (spec : VersionSpec) : AppVersions :=
  let guid := (Application.find? app).getD app
  match spec with
  | .list versions => s.add guid versions
  | .range first last => s.extend (.range guid first last)

/-- The versions to audit for; none if nothing was set. -/
def supported (c : Config) : Option AppVersions :=
  if c.forVersions.isEmpty then none
  else some (c.forVersions.foldl (fun s (app, spec) => addSpec s app spec) [])

/-- Whether a path is left out. Patterns that cannot be read match nothing. -/
def excludes (c : Config) (path : String) : Bool :=
  c.excludedPaths.any fun pattern =>
    match Glob.ofText pattern with
    | .ok glob => glob.isMatch path
    | .error _ => false

end Config

end AddonAudit
