import AddonAudit.Text.Case
import AddonAudit.Text.Word

/-!
# Paths

The parts of a path, its file name and the extension of that.
-/

namespace AddonAudit.Path

def components (path : String) : List String :=
  (Text.split '/' path).filter fun part => part ≠ "" && part ≠ "."

def fileName? (path : String) : Option String :=
  (components path).getLast?.filter (· ≠ "..")

/-- What follows the last dot of a file name, if there is a dot and something before it. -/
def extensionOf? (name : String) : Option String :=
  let cs := name.toList.reverse
  let after := cs.takeWhile (· ≠ '.')
  if after.length + 1 < cs.length then some (String.ofList after.reverse) else none

def extension? (path : String) : Option String :=
  (fileName? path).bind extensionOf?

end AddonAudit.Path
