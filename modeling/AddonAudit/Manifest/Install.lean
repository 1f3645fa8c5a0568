import AddonAudit.Config
import AddonAudit.Manifest.Rdf
import AddonAudit.Pattern

/-!
# Checks of the install manifest

What an add-on says about itself: it has to say it once, in the right form, and without what only a
host may say.
-/

namespace AddonAudit.Install

open Rdf (em emUri installRoot Graph Triple)

def required : List String := ["id", "version", "name", "targetApplication"]

/-- Properties that an add-on may have more than once. -/
def repeatable : List String :=
  ["targetApplication", "localized", "developer", "translator", "contributor", "targetPlatform",
    "requires", "file", "otherAuthors"]

def known : List String :=
  ["type", "description", "creator", "homepageURL", "iconURL", "icon64URL", "optionsURL",
    "optionsType", "aboutURL", "updateURL", "updateKey", "bootstrap", "unpack", "skinnable",
    "strictCompatibility", "multiprocessCompatible", "hasEmbeddedWebExtension", "internalName",
    "hidden"]

def finding (test name message : String) (line : Option Nat) (description : List String) :
    Finding :=
  { id := ["testcases_installrdf", test, name]
    message, line, description
    file := some "install.rdf" }

/-- Report what a property may not be. -/
def checkSpecial (name : String) (line : Nat) (b : Bundle) : Bundle :=
  match name with
  | "hidden" =>
    b.add .error { finding "_test_rdf" "hidden" "Add-ons may not be hidden" (some line)
        ["\x60em:hidden\x60 hides the add-on from the add-ons manager."] with
      signing := some .medium }
  | "updateURL" | "updateKey" =>
    b.add .warning { finding "_test_rdf" "update_url" ("\x60em:" ++ name ++ "\x60 is not allowed")
        (some line) ["Hosted add-ons are updated by the hosting site."] with signing := some .low }
  | _ => b

/-- Report a property that stands there again although it may not. -/
def checkRepeated (isFirst : Bool) (name : String) (line : Nat) (b : Bundle) : Bundle :=
  if !isFirst && !repeatable.contains name then
    b.add .error
      (finding "_test_rdf" "duplicate_element" ("Duplicate \x60em:" ++ name ++ "\x60 element")
      (some line) ["This element may only appear once in the install manifest."])
  else b

/-- Report a property that is not understood, where it stands first. -/
def checkKnown (isFirst : Bool) (name : String) (line : Nat) (b : Bundle) : Bundle :=
  if isFirst && !required.contains name && !repeatable.contains name && !known.contains name then
    b.add .notice (finding "_test_rdf" "unrecognized_element"
      ("Unrecognized \x60em:" ++ name ++ "\x60 element") (some line)
      ["The element is not part of the install manifest format and is ignored."])
  else b

/-- Check the properties of an add-on one after the other. The names before are given. -/
def checkProperties (seen : List String) : List Triple → Bundle → Bundle
  | [], b => b
  | t :: rest, b =>
    match Text.dropText? emUri t.predicate with
    | none => checkProperties seen rest b
    | some name =>
      let isFirst := !seen.contains name
      let b := checkRepeated isFirst name t.line b
      let b := checkKnown isFirst name t.line b
      checkProperties (name :: seen) rest (checkSpecial name t.line b)

def missing (g : Graph) (o : Overrides) : List String :=
  required.filter fun name =>
    !(o.ignoreEmptyName && name = "name") && ((g.literal? installRoot (em name)).getD "").isEmpty

def checkMissing (g : Graph) (o : Overrides) (b : Bundle) : Bundle :=
  match missing g o with
  | [] => b
  | names =>
      b.add .error (finding "_test_rdf" "missing_addon" "Missing elements in install manifest"
      none ["Some elements required by the install manifest are missing.",
        "Missing elements: " ++ ", ".intercalate names])

open Pattern in
def hexDigit : Pattern :=
  .one fun c => c.isDigit || ('a' ≤ c.toLower && c.toLower ≤ 'f')

open Pattern in
def addressChar : Pattern :=
  .alt letter (.one fun c => c.isDigit || c = '-' || c = '.' || c = '_')

open Pattern in
def addonId : Pattern :=
  all [.start,
    .alt
      (all [char '\x7b', times 8 hexDigit, char '-', times 4 hexDigit, char '-', times 4 hexDigit,
        char '-', times 4 hexDigit, char '-', times 12 hexDigit, char '\x7d'])
      (all [star addressChar, char '@', plus addressChar]),
    .stop]

def isVersion (s : String) : Bool :=
  let cs := s.toList
  1 ≤ cs.length && cs.length ≤ 32 &&
    cs.all fun c => Text.isWord c || c = '-' || c = '+' || c = '*' || c = '.'

def lineOf (g : Graph) (name : String) : Option Nat :=
  ((g.about installRoot).find? (·.predicate = em name)).map (·.line)

def checkId (g : Graph) (b : Bundle) : Bundle :=
  match g.literal? installRoot (em "id") with
  | none => b
  | some id =>
    if id.isEmpty || addonId.isFoundIn id.toList then b
    else b.add .error (finding "_test_id" "invalid" "Invalid add-on ID" (lineOf g "id")
      ["\x60" ++ id ++ "\x60 is neither a GUID nor an email-style ID."])

def checkVersion (g : Graph) (b : Bundle) : Bundle :=
  match g.literal? installRoot (em "version") with
  | none => b
  | some version =>
    if version.isEmpty || isVersion version then b
    else b.add .warning (finding "_test_version" "invalid_format" "Malformed version string"
      (lineOf g "version") ["\x60" ++ version ++
        "\x60 should contain at most 32 letters, digits and \x60.+-*_\x60 characters."])

structure Target where
  guid : String
  min : Option String
  max : Option String
  deriving DecidableEq, Repr

def targets (g : Graph) (o : Overrides) : List Target :=
  (g.objects installRoot (em "targetApplication")).filterMap fun object =>
    match object with
    | .literal _ => none
    | .node app =>
      (g.literal? app (em "id")).map fun guid =>
        { guid
          min := o.minVersions.find? guid <|> g.literal? app (em "minVersion")
          max := o.maxVersions.find? guid <|> g.literal? app (em "maxVersion") }

def checkTarget (b : Bundle) (t : Target) : Bundle :=
  match t.min, t.max with
  | some min, some max =>
    if Version.compare min max = .gt then
      b.add .error
        (finding "_test_targetapplication" "invalid_min_max" "Minimum version above maximum"
        none ["\x60" ++ t.guid ++ "\x60 requires " ++ min ++ " but allows at most " ++ max ++ "."])
    else b
  | _, _ =>
    b.add .warning
      (finding "_test_targetapplication" "missing_minmax" "Incomplete target application"
      none ["\x60" ++ t.guid ++ "\x60 needs both \x60em:minVersion\x60 and \x60em:maxVersion\x60."])

def Target.toJson (t : Target) : Json :=
  .ofEntries [("min_version", .ofOption .str t.min), ("max_version", .ofOption .str t.max)]

def checkTargets (g : Graph) (o : Overrides) (b : Bundle) : Bundle :=
  let targets := targets g o
  let b := targets.foldl checkTarget b
  if targets.isEmpty then b
  else b.setMeta "applications" (.ofEntries (targets.map fun t => (t.guid, t.toJson)))

def keepTexts (g : Graph) (b : Bundle) : Bundle :=
  ["name", "id", "version", "description"].foldl (fun b name =>
    match g.literal? installRoot (em name) with
    | some value => b.setMeta name (.str value)
    | none => b) b

def keepBootstrap (g : Graph) (b : Bundle) : Bundle :=
  if g.literal? installRoot (em "bootstrap") = some "true" then
    b.saveResource "em:bootstrap" (.bool true) true
  else b

/-- Check an install manifest. The answer is the type that it declares. -/
def check (g : Graph) (o : Overrides) (b : Bundle) : Option PackageType × Bundle :=
  if !g.hasSubject installRoot then
    (none, b.add .error (finding "_test_rdf" "no_root" "Install manifest has no add-on description"
      none ["No description with \x60about=\"" ++ installRoot ++ "\"\x60 was found."]))
  else
    let b := checkProperties [] (g.about installRoot) b
    let b := checkMissing g o b
    let b := checkVersion g (checkId g b)
    let b := keepBootstrap g (keepTexts g (checkTargets g o b))
    ((g.literal? installRoot (em "type")).bind PackageType.ofCode?, b)

end AddonAudit.Install
