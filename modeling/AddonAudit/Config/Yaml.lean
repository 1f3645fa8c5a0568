import AddonAudit.Config.Json
import AddonAudit.Yaml.Reader
import AddonAudit.Yaml.Scalar

/-!
# Configurations as YAML

A configuration file is a map with an entry for every setting that differs from its usual value.
Other entries are ignored.
-/

namespace AddonAudit.Config

open Yaml (Node Mark)

/-- Why a configuration file has no configuration. -/
inductive FileError where
  | form (e : Yaml.Error)
  /-- The setting at a path has a wrong value. -/
  | setting (path : String) (problem : String) (mark : Mark)
  deriving DecidableEq, Repr

def FileError.message : FileError → String
  | .form e => e.message
  | .setting path problem mark =>
    (if path.isEmpty then "" else path ++ ": ") ++ problem ++ " at " ++ mark.text

abbrev Decoder (α : Type) := String → Node → Except FileError α

def below (path name : String) : String :=
  if path.isEmpty then name else path ++ "." ++ name

/-- The error for a value of another kind than expected. -/
def wrongKind {α : Type} (path : String) (n : Node) (expected : String) : Except FileError α :=
  .error (.setting path ("invalid type: " ++ n.kind ++ ", expected " ++ expected) n.mark)

/-- Read a text; every value that is no list or map has one. -/
def text : Decoder String
  | _, .scalar s _ _ => .ok s
  | path, n => wrongKind path n "a string"

def flag : Decoder Bool
  | path, .scalar s isPlain m =>
    match if isPlain then Yaml.bool? s else none with
    | some b => .ok b
    | none => wrongKind path (.scalar s isPlain m) "a boolean"
  | path, n => wrongKind path n "a boolean"

def word : Decoder Nat
  | path, .scalar s isPlain m =>
    match if isPlain then Yaml.natural? s else none with
    | some n => .ok n
    | none =>
      match if isPlain then Yaml.negative? s else none with
      | some n => .error (.setting path
          ("invalid value: integer \x60-" ++ toString n ++ "\x60, expected u64") m)
      | none => wrongKind path (.scalar s isPlain m) "u64"
  | path, n => wrongKind path n "u64"

/-- Whether a value is empty where a list or a map may stand. -/
def isVoid : Node → Bool
  | .scalar s isPlain _ => isPlain && s.isEmpty
  | _ => false

def mapEntries (expected : String) : Decoder (List (Node × Node))
  | _, .map entries _ => .ok entries
  | path, n => if isVoid n then .ok [] else wrongKind path n expected

def itemsFrom {α : Type} (read : Decoder α) (path : String) :
    Nat → List Node → Except FileError (List α)
  | _, [] => .ok []
  | i, n :: rest => do
    let a ← read (path ++ "[" ++ toString i ++ "]") n
    return a :: (← itemsFrom read path (i + 1) rest)

def listOf {α : Type} (read : Decoder α) : Decoder (List α)
  | path, .list nodes _ => itemsFrom read path 0 nodes
  | path, n => if isVoid n then .ok [] else wrongKind path n "a sequence"

/-- Read a map; a later entry wins. -/
def dictOf {α : Type} (read : String → Mark → Decoder α) : Decoder (Dict α) := fun path n => do
  let entries ← mapEntries "a map" path n
  entries.foldlM (fun d (k, v) => do
    let key ← text path k
    let a ← read path n.mark (below path key) v
    return Dict.insert key a d) []

/-- The versions of an application, if a value has them. -/
def spec? : Node → Option VersionSpec
  | .list nodes _ => (nodes.mapM Node.text?).map .list
  | .map entries _ => do
    let named (name : String) := entries.filter fun (k, _) => k.text? = some name
    match named "from", named "to" with
    | [(_, first)], [(_, last)] => return .range (← first.text?) (← last.text?)
    | _, _ => none
  | _ => none

def spec (outer : String) (start : Mark) : Decoder VersionSpec := fun _ n =>
  match spec? n with
  | some s => .ok s
  | none => .error (.setting outer
      "data did not match any variant of untagged enum VersionSpec" start)

def packageType : Decoder (Option PackageType)
  | path, .scalar s isPlain m =>
    if isPlain && (s.isEmpty || Yaml.isNull s) then .ok none
    else match PackageType.named? s with
      | some t => .ok (some t)
      | none => .error (.setting path ("unknown variant \x60" ++ s ++ "\x60, expected one of " ++
          "\x60unknown\x60, \x60extension\x60, \x60theme\x60, \x60dictionary\x60, " ++
          "\x60langpack\x60, \x60search\x60, \x60multi\x60") m)
  | path, n => wrongKind path n "enum PackageType"

def entryNames (path : String) (entries : List (Node × Node)) : Except FileError (List String) :=
  entries.mapM fun (k, _) =>
    match k with
    | .scalar s _ _ => .ok s
    | n => wrongKind path n "field identifier"

def repeated? (known : List String) : List String → List String → Option String
  | _, [] => none
  | seen, name :: rest =>
    if known.contains name && seen.contains name then some name
    else repeated? known (name :: seen) rest

def setting {α : Type} (read : Decoder α) (usual : α) (path name : String)
    (entries : List (Node × Node)) : Except FileError α :=
  let isNamed (e : Node × Node) := match e.1 with
    | .scalar s _ _ => s = name
    | _ => false
  match entries.find? isNamed with
  | some (_, v) => read (below path name) v
  | none => .ok usual

/-- The entries of a map with known names, each of which stands there once. -/
def settings (expected : String) (known : List String) :
    Decoder (List (Node × Node)) := fun path n => do
  let entries ← mapEntries expected path n
  let names ← entryNames path entries
  match repeated? known [] names with
  | some name => throw (.setting path ("duplicate field \x60" ++ name ++ "\x60") n.mark)
  | none => return entries

def replacements : Decoder Overrides := fun path n => do
  let entries ← settings "struct Overrides"
    ["ignore_empty_name", "targetapp_min_version", "targetapp_max_version"] path n
  let texts : Decoder (Dict String) := dictOf fun _ _ => text
  let ignoreEmptyName ← setting flag false path "ignore_empty_name" entries
  let minVersions ← setting texts [] path "targetapp_min_version" entries
  let maxVersions ← setting texts [] path "targetapp_max_version" entries
  return { ignoreEmptyName, minVersions, maxVersions }

def ofNode (n : Node) : Except FileError Config := do
  let entries ← settings "struct ValidationConfig"
    ["for_appversions", "overrides", "timeout_secs", "determined", "strict", "expected_type",
      "excluded_paths"] "" n
  let forVersions ← setting (dictOf spec) [] "" "for_appversions" entries
  let overrides ← setting replacements {} "" "overrides" entries
  let timeout ← setting word 60 "" "timeout_secs" entries
  let determined ← setting flag false "" "determined" entries
  let strict ← setting flag false "" "strict" entries
  let expectedType ← setting packageType none "" "expected_type" entries
  let excludedPaths ← setting (listOf text) [] "" "excluded_paths" entries
  return { forVersions, overrides, timeout, determined, strict, expectedType, excludedPaths }

/-- Read a configuration file. An empty file has the usual configuration. -/
def ofYaml (source : List Char) : Except FileError Config :=
  match Yaml.parse source with
  | .error e => .error (.form e)
  | .ok none => .ok {}
  | .ok (some n) => ofNode n

end AddonAudit.Config
