import AddonAudit.Package

/-!
# Files on a disk

What stands under a path, and a tree of files below one folder that answers this for relative paths.
-/

namespace AddonAudit

/-- What stands under a path. -/
inductive Place where
  /-- Nothing can be read. -/
  | missing (reason : String)
  | file (content : Bytes)
  | folder (files : Dict Bytes)

namespace Place

def isPresent : Place → Bool
  | .missing _ => false
  | _ => true

def content : Place → Except String Bytes
  | .missing reason => .error reason
  | .file content => .ok content
  | .folder _ => .error "Is a directory (os error 21)"

def package (path : String) : Place → Except PackageError Package
  | .missing reason => .error (.unreadable reason)
  | .file content => Package.ofArchive ((Path.fileName? path).getD "") content
  | .folder files => .ok (.ofFolder ((Path.fileName? path).getD path) files)

end Place

/-- The files below a folder, by paths with single slashes. -/
structure FileTree where
  files : Dict Bytes := []

namespace FileTree

/-- The parts of a path after one step up or down for each of them. -/
def resolve (parts : List String) : List String :=
  (parts.foldl (fun done part => if part = ".." then done.tail else part :: done) []).reverse

/-- The path with single slashes that leads to the same place. -/
def key (path : String) : String :=
  "/".intercalate (resolve (Path.components path))

/-- A tree of files; a later one replaces an earlier one with its path. -/
def ofFiles (files : List (String × Bytes)) : FileTree :=
  ⟨Dict.ofEntries (files.map fun (path, content) => (key path, content))⟩

def below (t : FileTree) (key : String) : Dict Bytes :=
  if key = "" then t.files
  else t.files.filterMap fun (path, content) =>
    (Text.dropText? (key ++ "/") path).map fun rest => (rest, content)

def around (key : String) : List String :=
  let parts := Text.split '/' key
  (List.range parts.length).map fun n => "/".intercalate (parts.take n)

def asksFolder (path : String) : Bool :=
  let cs := path.toList.reverse
  ['/'].isPrefixOf cs || ['.', '/'].isPrefixOf cs

def look (t : FileTree) (path : String) : Place :=
  let key := key path
  if path = "" || "/".toList.isPrefixOf path.toList then .missing Package.noSuchFile
  else
    match Dict.find? key t.files with
    | some content =>
      if asksFolder path then .missing "Not a directory (os error 20)" else .file content
    | none =>
      if key = "" || !(t.below key).isEmpty then .folder (t.below key)
      else if (around key).any fun outer => Dict.contains outer t.files then
        .missing "Not a directory (os error 20)"
      else .missing Package.noSuchFile

end FileTree

end AddonAudit
