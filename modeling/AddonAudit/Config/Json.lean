import AddonAudit.Config
import AddonAudit.Json

/-!
# Configurations as JSON

A configuration is an object with a field for every setting; settings that are missing have their
usual values and other fields are ignored. The settings can also be listed in their order.
-/

namespace AddonAudit

namespace Json

/-- The text of every item, if all of them are texts. -/
def strings? (j : Json) : Option (List String) :=
  j.arr?.bind (·.mapM str?)

def bool? : Json → Option Bool
  | .bool b => some b
  | _ => none

/-- A number of 64 bits that is not negative. -/
def word? : Json → Option Nat
  | .int n => if 0 ≤ n ∧ n < Number.twoTo 64 then some n.toNat else none
  | _ => none

/-- The entries of an object, each read in one way. -/
def entries? {α : Type} (read : Json → Option α) (j : Json) : Option (Dict α) :=
  j.obj?.bind (·.mapM fun (k, v) => (read v).map (k, ·))

/-- The value of a setting: the field of an object or the item of a list, or its usual value. -/
def setting? {α : Type} (name : String) (index : Nat) (read : Json → Option α) (usual : α)
    (j : Json) : Option α :=
  let found := match j with
    | .arr items => items[index]?
    | j => j.field? name
  match found with
  | some v => read v
  | none => some usual

def holdsSettings (count : Nat) : Json → Bool
  | .arr items => items.length ≤ count
  | .obj _ => true
  | _ => false

end Json

def VersionSpec.ofJson? (j : Json) : Option VersionSpec :=
  match j with
  | .arr _ => j.strings?.map .list
  | j => do
    let first ← (← j.field? "from").str?
    let last ← (← j.field? "to").str?
    return .range first last

def VersionSpec.toJson : VersionSpec → Json
  | .list versions => Json.strings versions
  | .range first last => .ofEntries [("from", .str first), ("to", .str last)]

def PackageType.named? (s : String) : Option PackageType :=
  [.unknown, .extension, .theme, .dictionary, .langpack, .search, .multi].find? (·.name = s)

def PackageType.ofJson? : Json → Option (Option PackageType)
  | .null => some none
  | .str s => (named? s).map some
  | .obj [(s, .null)] => (named? s).map some
  | _ => none

def Overrides.ofJson? (j : Json) : Option Overrides := do
  if !j.holdsSettings 3 then failure
  let ignoreEmptyName ← j.setting? "ignore_empty_name" 0 Json.bool? false
  let minVersions ← j.setting? "targetapp_min_version" 1 (Json.entries? Json.str?) []
  let maxVersions ← j.setting? "targetapp_max_version" 2 (Json.entries? Json.str?) []
  return { ignoreEmptyName, minVersions, maxVersions }

def Overrides.toJson (o : Overrides) : Json :=
  let texts (d : Dict String) := Json.ofEntries (d.map fun (k, v) => (k, .str v))
  .ofEntries [("ignore_empty_name", .bool o.ignoreEmptyName),
    ("targetapp_min_version", texts o.minVersions), ("targetapp_max_version", texts o.maxVersions)]

namespace Config

def ofJson? (j : Json) : Option Config := do
  if !j.holdsSettings 7 then failure
  let forVersions ← j.setting? "for_appversions" 0 (Json.entries? VersionSpec.ofJson?) []
  let overrides ← j.setting? "overrides" 1 Overrides.ofJson? {}
  let timeout ← j.setting? "timeout_secs" 2 Json.word? 60
  let determined ← j.setting? "determined" 3 Json.bool? false
  let strict ← j.setting? "strict" 4 Json.bool? false
  let expectedType ← j.setting? "expected_type" 5 PackageType.ofJson? none
  let excludedPaths ← j.setting? "excluded_paths" 6 Json.strings? []
  return { forVersions, overrides, timeout, determined, strict, expectedType, excludedPaths }

def toJson (c : Config) : Json :=
  .ofEntries [
    ("for_appversions", .ofEntries (c.forVersions.map fun (k, v) => (k, v.toJson))),
    ("overrides", c.overrides.toJson),
    ("timeout_secs", .nat c.timeout),
    ("determined", .bool c.determined),
    ("strict", .bool c.strict),
    ("expected_type", .ofOption (fun t => .str t.name) c.expectedType),
    ("excluded_paths", Json.strings c.excludedPaths)]

end Config

end AddonAudit
