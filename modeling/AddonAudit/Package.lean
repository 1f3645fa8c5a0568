import AddonAudit.Archive.Zip
import AddonAudit.Text.Path

/-!
# Packages

A package is a set of files with paths. It comes from an archive, which is read as a whole, or from
a folder, whose files are read when they are asked for. Paths are compared in a clean form.
-/

namespace AddonAudit

/-- Why something cannot be read from a package. -/
inductive PackageError where
  | notFound (path : String)
  | unreadable (reason : String)
  | corrupt (e : Archive.Error)
  | tooLarge
  deriving DecidableEq, Repr

/-- Where the files of a package are. -/
inductive Storage where
  /-- The files were read and have clean paths. -/
  | held
  /-- The files are on a disk and have the paths that the disk gives them. -/
  | onDisk
  deriving DecidableEq, Repr

structure Package where
  name : String
  storage : Storage := .held
  files : Dict Bytes := []
  deriving DecidableEq

namespace Package

def maxSize : Nat := 268435456

def noSuchFile : String := "No such file or directory (os error 2)"

end Package

def PackageError.message : PackageError → String
  | .notFound path => "\x60" ++ path ++ "\x60 does not exist in the package"
  | .unreadable reason => "I/O error: " ++ reason
  | .corrupt e => "corrupt archive: " ++ e.message
  | .tooLarge => "archive expands past " ++ toString Package.maxSize ++ " bytes"

namespace Package

/-- The clean form of a path: slashes between its parts, and nothing before the first part. -/
def cleanPath (path : String) : String :=
  let cs := path.toList.map fun c => if c = '\\' then '/' else c
  String.ofList ((Text.dropTexts ['.', '/'] cs).dropWhile (· = '/'))

/-- The extension of a path, in lower case; empty if it has none. -/
def extension (path : String) : String :=
  ((Path.extension? path).map Text.lower).getD ""

def insert (path : String) (content : Bytes) (p : Package) : Package :=
  { p with files := Dict.insert (cleanPath path) content p.files }

def ofFiles (name : String) (files : List (String × Bytes)) : Package :=
  files.foldl (fun p (path, content) => p.insert path content) { name }

def ofFolder (name : String) (files : Dict Bytes) : Package :=
  { name, storage := .onDisk, files }

def paths (p : Package) : List String :=
  match p.storage with
  | .held => Dict.keys p.files
  | .onDisk => (p.files.map fun (path, _) => cleanPath path).mergeSort fun a b => !decide (b < a)

def contains (p : Package) (path : String) : Bool :=
  p.paths.contains (cleanPath path)

def read (p : Package) (path : String) : Except PackageError Bytes :=
  let clean := cleanPath path
  match p.storage with
  | .held =>
    match Dict.find? clean p.files with
    | some content => .ok content
    | none => .error (.notFound path)
  | .onDisk =>
    if p.paths.contains clean then
      match Dict.find? clean p.files with
      | some content => .ok content
      | none => .error (.unreadable noSuchFile)
    else .error (.notFound clean)

def readText (p : Package) (path : String) : Except PackageError (List Char) :=
  (p.read path).map Text.ofBytes

def addEntries (data : Bytes) : Nat → List Archive.Entry → Package → Except PackageError Package
  | _, [], p => .ok p
  | total, e :: rest, p =>
    match e.packed data with
    | .error error => .error (.corrupt error)
    | .ok packed =>
      if e.isDirectory then addEntries data total rest p
      else if maxSize < total + e.size then .error .tooLarge
      else
        match e.unpack packed with
        | .error error => .error (.unreadable error.message)
        | .ok content => addEntries data (total + e.size) rest (p.insert e.name content)

def ofArchive (name : String) (data : Bytes) : Except PackageError Package :=
  match Archive.read data with
  | .error e => .error (.corrupt e)
  | .ok entries => addEntries data 0 entries { name }

end Package

end AddonAudit
