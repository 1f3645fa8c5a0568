import AddonAudit.Audit.Detection
import AddonAudit.Config
import AddonAudit.Manifest.Install

/-!
# The first tier: type and manifest

The install manifest of a package is checked, and its type is found out and compared with the
expected one.
-/

namespace AddonAudit.Layout

/-- Check the install manifest: the type that it declares. A package without one is in order if it
has the manifest of the other kind or was made with the SDK. -/
def checkManifest (config : Config) (p : Package) (isSdk : Bool) (b : Bundle) :
    Option PackageType × Bundle :=
  match p.readText "install.rdf" with
  | .ok source =>
    match Rdf.Graph.parse source with
    | .ok graph => Install.check graph config.overrides b
    | .error e =>
      (none, b.add .notice {
        id := ["testcases_installrdf", "_test_rdf", "unreadable"]
        message := "Unreadable install manifest"
        description := ["install.rdf could not be parsed: malformed XML: " ++ e.message]
        file := some "install.rdf" })
  | .error _ =>
    if p.contains "manifest.json" || isSdk then (none, b)
    else
      (none, b.add .error {
        id := ["testcases_packagelayout", "test_layout", "missing_install_rdf"]
        message := "Package has no install manifest"
        description :=
          ["Add-on packages must contain an install.rdf or manifest.json at their root."] })

def checkType (expected : Option PackageType) (detected : PackageType) (b : Bundle) : Bundle :=
  match expected with
  | none => b
  | some expected =>
    if expected ≠ detected && detected ≠ .unknown then
      b.add .error {
        id := ["main", "test_package", "unexpected_type"]
        message := "Unexpected package type"
        description :=
          ["Expected a " ++ expected.name ++ " but the package is a " ++ detected.name ++ "."] }
    else b

def check (config : Config) (p : Package) (b : Bundle) : Bundle :=
  let (isSdk, b) := p.detectSdk b
  let (declared, b) := checkManifest config p isSdk b
  let detected := p.type declared
  checkType config.expectedType detected
    ({ b with detected }.setMeta "type" (.str detected.name))

end AddonAudit.Layout
