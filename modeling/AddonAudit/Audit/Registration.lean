import AddonAudit.Bundle
import AddonAudit.Manifest.Chrome
import AddonAudit.Package

/-!
# The second tier: registrations

The registration manifest of a package is read together with those that it includes. Content has to
be registered where files are, and resources under names that the application does not use.
-/

namespace AddonAudit.Registration

def manifestPath : String := "chrome.manifest"

def maxIncludes : Nat := 16

def reservedNames : List String := ["gre", "app"]

def includes (m : Chrome.Manifest) : List String :=
  (m.entries "manifest" []).filterMap (·.args.head?)

def noteMissing (path : String) (b : Bundle) : Bundle :=
  b.add .notice {
    id := ["testcases_chromemanifest", "manifest", "missing_include"]
    message := "Included manifest not found"
    description := ["\x60" ++ path ++ "\x60 is referenced but not in the package."]
    file := some manifestPath }

/-- Add included manifests to a manifest, as many as may still be followed. The last inclusion of a
manifest is followed first, and what it includes comes before the others. -/
def follow (p : Package) : Nat → List String → Chrome.Manifest → Bundle → Chrome.Manifest × Bundle
  | 0, _, m, b => (m, b)
  | _, [], m, b => (m, b)
  | n + 1, path :: pending, m, b =>
    match p.readText path with
    | .error _ => follow p n pending m (noteMissing path b)
    | .ok text =>
      let included := Chrome.Manifest.parse text path
      follow p n ((includes included).reverse ++ pending) (m ++ included) b

def checkContent (paths : List String) (e : Chrome.Entry) (b : Bundle) : Bundle :=
  match e.args[1]? with
  | none => b
  | some base =>
    let cs := base.toList
    if "jar:".toList.isPrefixOf cs || (Chrome.splitAt? "://".toList cs).isSome then b
    else
      let base := (Text.dropTexts ['.', '/'] cs).dropWhile (· = '/')
      if paths.any fun path => base.isPrefixOf path.toList then b
      else
        b.add .warning {
          id := ["testcases_chromemanifest", "content", "missing_target"]
          message := "Registered content path is empty"
          description :=
            ["Nothing in the package lives under \x60" ++ String.ofList base ++ "\x60."]
          file := some e.file
          line := some e.line }

/-- Check that a resource does not have a name of the application. -/
def checkResource (e : Chrome.Entry) (b : Bundle) : Bundle :=
  match e.args.head? with
  | none => b
  | some name =>
    if reservedNames.contains name then
      b.add .error {
        id := ["testcases_chromemanifest", "resource", "reserved_name"]
        message := "Reserved resource name"
        description := ["\x60resource://" ++ name ++ "/\x60 belongs to the application."]
        file := some e.file
        line := some e.line
        signing := some .high }
    else b

def overlayFiles (m : Chrome.Manifest) : List String :=
  m.overlays.filterMap fun (_, overlay) =>
    match m.resolve? overlay with
    | some ⟨none, path⟩ => some path
    | _ => none

def describe (m : Chrome.Manifest) (b : Bundle) : Bundle :=
  let b := b.setMeta "chrome_packages" (Json.strings m.contentPackages)
  if (overlayFiles m).isEmpty then b
  else b.setMeta "overlay_files" (Json.strings (overlayFiles m))

def check (p : Package) (b : Bundle) : Bundle :=
  match p.readText manifestPath with
  | .error _ => b
  | .ok source =>
    let m := Chrome.Manifest.parse source manifestPath
    let (m, b) := follow p maxIncludes (includes m).reverse m b
    let b := (m.entries "content" []).foldl (fun b e => checkContent p.paths e b) b
    let b := (m.entries "resource" []).foldl (fun b e => checkResource e b) b
    describe m b

end AddonAudit.Registration
