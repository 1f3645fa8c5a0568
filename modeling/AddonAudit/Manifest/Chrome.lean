import AddonAudit.Text.Blank
import AddonAudit.Text.Lines

/-!
# Registration manifests

A registration manifest has one instruction a line: a word for its kind, then arguments. What
follows a number sign is a comment.
-/

namespace AddonAudit.Chrome

/-- An instruction, with the file and the line where it stands. -/
structure Entry where
  kind : String
  args : List String
  file : String
  line : Nat
  deriving DecidableEq, Repr

abbrev Manifest := List Entry

/-- Where an address leads inside of a package. -/
structure Target where
  /-- An archive inside of the package. -/
  archive : Option String
  path : String
  deriving DecidableEq, Repr

def entryOf? (file : String) (number : Nat) (line : List Char) : Option Entry :=
  match Text.words (String.ofList (line.takeWhile (· ≠ '#'))) with
  | [] => none
  | kind :: args => some ⟨kind, args, file, number⟩

def entriesFrom (file : String) : Nat → List (List Char) → List Entry
  | _, [] => []
  | number, line :: rest =>
    (entryOf? file number line).toList ++ entriesFrom file (number + 1) rest

namespace Manifest

def parse (source : List Char) (file : String) : Manifest :=
  entriesFrom file 1 (Text.linesOf source)

def extend (m : Manifest) (source : List Char) (file : String) : Manifest :=
  m ++ parse source file

def entries (m : Manifest) (kind : String) (args : List String) : List Entry :=
  m.filter fun e => e.kind = kind && args.isPrefixOf e.args

/-- A list in which no item follows itself. -/
def withoutRepeats : List String → List String
  | a :: b :: rest => if a = b then withoutRepeats (b :: rest) else a :: withoutRepeats (b :: rest)
  | short => short

def contentPackages (m : Manifest) : List String :=
  withoutRepeats ((m.entries "content" []).filterMap (·.args.head?))

/-- The addresses of documents, each with one that is laid over it. -/
def overlays (m : Manifest) : List (String × String) :=
  (m.entries "overlay" []).filterMap fun e =>
    match e.args with
    | target :: overlay :: _ => some (target, overlay)
    | _ => none

end Manifest

def join (base path : String) : String :=
  let base := (Text.dropTexts ['.', '/'] base.toList).dropWhile (· = '/')
  if base.isEmpty || base.getLast? = some '/' then String.ofList base ++ path
  else String.ofList base ++ "/" ++ path

/-- The parts of a text before and after the first occurrence of a text. -/
def splitAt? (sep : List Char) : List Char → Option (List Char × List Char)
  | [] => if sep.isEmpty then some ([], []) else none
  | c :: rest =>
    if sep.isPrefixOf (c :: rest) then some ([], (c :: rest).drop sep.length)
    else (splitAt? sep rest).map fun (before, after) => (c :: before, after)

/-- Where a path below a registered base leads. A base may be inside of an archive. -/
def targetOf (base path : String) : Target :=
  match (Text.dropText? "jar:" base).bind fun jar => splitAt? ['!', '/'] jar.toList with
  | some (archive, inner) =>
    ⟨some (String.ofList (archive.dropWhile (· = '/'))), join (String.ofList inner) path⟩
  | none => ⟨none, join base path⟩

def addressParts? (url : String) : Option (String × String × String) :=
  match (Text.dropText? "chrome://" url).map (Text.split '/') with
  | some (package :: provider :: path) => some (package, provider, "/".intercalate path)
  | _ => none

/-- Where an address leads. Skins and locales have the name of a provider before their path. -/
def Manifest.resolve? (m : Manifest) (url : String) : Option Target := do
  let (package, provider, path) ← addressParts? url
  let entry ← (m.entries provider [package]).head?
  let base ← entry.args[if provider = "content" then 1 else 2]?
  return targetOf base path

end AddonAudit.Chrome
