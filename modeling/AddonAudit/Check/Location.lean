import AddonAudit.Bundle
import AddonAudit.Text.Case

/-!
# Places and addresses

Findings at an offset of a source, and addresses that lead to the network.
-/

namespace AddonAudit

def Finding.atOffset (id : List String) (message file : String) (lines : Text.Lines)
    (offset : Nat) : Finding :=
  let line := lines.lineAt offset
  let column := lines.columnAt offset
  { id, message
    file := some file
    line := some line
    column := some column
    context := some (lines.excerpt line column) }

def isRemote (url : List Char) : Bool :=
  let url := url.map Char.toLower
  ["http:", "https:", "//"].any fun start => start.toList.isPrefixOf url

end AddonAudit
