import AddonAudit.Bundle
import AddonAudit.Json.Reader
import AddonAudit.Package
import AddonAudit.Pattern

/-!
# What a package is

Well-known libraries are found by their file names, the type of a package by what its manifest
declares or by its files, and a package of the add-on SDK by the files that the SDK leaves in it.
-/

namespace AddonAudit

namespace Library

open Pattern

def versionText : Pattern :=
  .seq (plus digit) (star (.seq (char '.') (plus digit)))

/-- A version after a hyphen or a dot, if there is one. -/
def versionPart : Pattern :=
  opt (.seq (oneOf "-.") versionText)

/-- A given text in any case, if it is there. -/
def part (s : String) : Pattern :=
  opt (textAnyCase s)

def scriptNamed (parts : List Pattern) : Pattern :=
  all ([.alt .start (char '/')] ++ parts ++ [textAnyCase ".js", .stop])

def known : List (String × Pattern) :=
  [("jquery", scriptNamed [textAnyCase "jquery", versionPart, part ".min"]),
    ("jquery-ui", scriptNamed [textAnyCase "jquery-ui", versionPart, part ".custom", part ".min"]),
    ("underscore", scriptNamed [textAnyCase "underscore", part "-min", part ".min"]),
    ("prototype", scriptNamed [textAnyCase "prototype", opt (.seq (char '-') versionText)]),
    ("mootools", scriptNamed [textAnyCase "mootools", part "-core", versionPart,
      opt (.alt (textAnyCase "-yc") (textAnyCase "-nc")), part ".min"]),
    ("dojo", scriptNamed [textAnyCase "dojo", part ".min"]),
    ("angular", scriptNamed [textAnyCase "angular", part ".min"])]

def find? (path : String) : Option String :=
  (known.find? fun (_, pattern) => pattern.isFoundIn path.toList).map Prod.fst

end Library

namespace Package

def isDictionary (path : String) : Bool :=
  "dictionaries/".toList.isPrefixOf path.toList && extension path = "dic"

/-- The type of a package: what its manifest declares, or what its files look like. -/
def type (p : Package) (declared : Option PackageType) : PackageType :=
  match declared with
  | some t => t
  | none =>
    if extension p.name = "jar" then .theme
    else if p.paths.any isDictionary then .dictionary
    else if p.contains "install.rdf" || p.contains "manifest.json" then .extension
    else .unknown

/-- The data in a file; null if it cannot be read. -/
def readJson? (p : Package) (path : String) : Option Json :=
  match p.readText path with
  | .ok text => some ((Json.parse? (String.ofList text)).getD .null)
  | .error _ => none

/-- Whether a package has the start-up script and the description of one made with the SDK's second
tool. -/
def isSdkBuild (p : Package) : Bool :=
  p.contains "bootstrap.js" && (p.readJson? "package.json").any fun j =>
    (j.field? "main").isSome || (j.field? "jpm").isSome

def markSdk (isSdk : Bool) (b : Bundle) : Bundle :=
  let b := b.setMeta "is_jetpack" (.bool isSdk)
  if isSdk then b.setMeta "framework" (.str "jetpack") else b

def detectSdk (p : Package) (b : Bundle) : Bool × Bundle :=
  match p.readJson? "harness-options.json" with
  | some options =>
    let b := match (options.field? "sdkVersion").bind Json.str? with
      | some version => b.setMeta "jetpack_sdk_version" (.str version)
      | none => b
    (true, markSdk true b)
  | none => (p.isSdkBuild, markSdk p.isSdkBuild b)

end Package

end AddonAudit
