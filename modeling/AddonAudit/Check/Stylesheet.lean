import AddonAudit.Check.Location
import AddonAudit.Pattern

/-!
# Checks of stylesheets

A stylesheet must not bind elements to code, least of all to code from the network. Comments are
blanked out before the search.
-/

namespace AddonAudit.Stylesheet

open Pattern in
/-- A binding; the first group is its address. -/
def binding : Pattern :=
  all [textAnyCase "-moz-binding", star blank, char ':', star blank, textAnyCase "url", char '(',
    star blank, opt (oneOf "\"'"),
    .group 1 (star (.one fun c => !("\"')".toList.contains c) && !Text.isBlank c))]

open Pattern in
def comment : Pattern :=
  all [text "/*", .many false (.one fun _ => true), text "*/"]

/-- A blank for every character but the ends of lines. -/
def blankOut (cs : List Char) : List Char :=
  cs.map fun c => if c = '\n' then '\n' else ' '

def withoutComments (source : List Char) : List Char :=
  comment.replaceAll blankOut source

def reportBinding (file : String) (lines : Text.Lines) (m : Pattern.Match) (b : Bundle) : Bundle :=
  let url := ((m.group? 1).map (·.text)).getD []
  if isRemote url then
    let f := Finding.atOffset ["testcases_css", "-moz-binding", "remote"] "Remote XBL binding" file
      lines m.offset
    b.add .warning { f with
      description := ["\x60" ++ String.ofList url ++ "\x60 loads an XBL binding from the network."]
      signing := some .high }
  else
    let f :=
      Finding.atOffset ["testcases_css", "-moz-binding", "used"] "Use of \x60-moz-binding\x60"
      file lines m.offset
    b.add .notice { f with description := ["XBL bindings are deprecated and will be removed."] }

def check (file : String) (source : List Char) (b : Bundle) : Bundle :=
  let source := withoutComments source
  let lines := Text.Lines.ofChars source
  (binding.findAll source).foldl (fun b m => reportBinding file lines m b) b

end AddonAudit.Stylesheet
