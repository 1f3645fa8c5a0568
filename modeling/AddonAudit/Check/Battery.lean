import AddonAudit.Bundle
import AddonAudit.Pattern

/-!
# Pattern batteries

Tests that look for a pattern in the lines of a script or in a string literal, each with the finding
that it makes.
-/

namespace AddonAudit

structure PatternTest where
  pattern : Pattern
  severity : Severity
  id : List String
  message : String
  description : Option String := none
  signing : Option SigningSeverity := none
  compatibility : Option (Severity × VersionGate) := none
  editorsOnly : Bool := false

namespace PatternTest

def decorate (t : PatternTest) (f : Finding) : Finding :=
  { f with
    description := f.description ++ t.description.toList
    signing := t.signing <|> f.signing
    compatibility := t.compatibility.map Prod.fst <|> f.compatibility
    forVersions := t.compatibility.map (fun c => c.2.expand) <|> f.forVersions
    editorsOnly := t.editorsOnly || f.editorsOnly }

end PatternTest

namespace Battery

open Pattern in
def aloneWord (s : String) : Pattern :=
  all [.boundary, text s, .boundary]

open Pattern in
def scriptLines : List PatternTest := [
  { pattern := aloneWord "mozIndexedDB"
    severity := .warning
    id := ["testcases_regex", "javascript", "mozIndexedDB"]
    message := "\x60mozIndexedDB\x60 has been removed"
    description := some "Use the unprefixed \x60indexedDB\x60 instead."
    compatibility := some (.error, .firefox "38.0a1" "39.0a1") },
  { pattern := all [.boundary, text "__define", oneOf "GS", text "etter__", .boundary]
    severity := .notice
    id := ["testcases_regex", "javascript", "define_accessor"]
    message := "Deprecated accessor definition"
    description := some <| "Use \x60Object.defineProperty\x60 instead of " ++
      "\x60__defineGetter__\x60/\x60__defineSetter__\x60." },
  { pattern := all [text "loadSubScript(", star blank, oneOf "\"'", text "http", opt (char 's'),
      text "://"]
    severity := .error
    id := ["testcases_regex", "javascript", "remote_subscript"]
    message := "Loading a script from a remote source"
    description := some "All code run with chrome privileges must ship inside the package."
    signing := some .high },
  { pattern := .alt (aloneWord "gBrowser.contentDocument") (aloneWord "content.document")
    severity := .warning
    id := ["testcases_regex", "javascript", "content_document"]
    message := "Direct access to content documents"
    description := some "Content documents live in a separate process; use a frame script."
    compatibility := some (.warning, .firefox "48.0a1" "49.0a1") },
  { pattern := aloneWord "nsIDOMWindowInternal"
    severity := .notice
    id := ["testcases_regex", "javascript", "nsIDOMWindowInternal"]
    message := "\x60nsIDOMWindowInternal\x60 no longer exists"
    description := some "Use \x60nsIDOMWindow\x60." },
  { pattern := aloneWord "mozRequestAnimationFrame"
    severity := .warning
    id := ["testcases_regex", "javascript", "mozRequestAnimationFrame"]
    message := "Prefixed \x60mozRequestAnimationFrame\x60 has been removed"
    description := some "Use the unprefixed \x60requestAnimationFrame\x60."
    compatibility := some (.error, .firefox "44.0a1" "45.0a1") }]

open Pattern in
def literals : List PatternTest := [
  { pattern := all [.start,
      opt (all [textAnyCase "http", opt (textAnyCase "s"), char ':']),
      text "//", plus (.one fun c => !Text.isBlank c), char '.', textAnyCase "js",
      opt (.seq (char '?') (star (.one (· ≠ '\n')))), .stop]
    severity := .warning
    id := ["testcases_regex", "string", "remote_script"]
    message := "Reference to a remote script"
    description := some "Scripts must be loaded from the package, not from the network."
    signing := some .high },
  { pattern := .seq .start (text "resource://gre/modules/devtools/")
    severity := .notice
    id := ["testcases_regex", "string", "devtools_modules"]
    message := "Developer tools modules have moved"
    description := some <| "Modules under \x60resource://gre/modules/devtools/\x60 moved to " ++
      "\x60resource://devtools/\x60."
    compatibility := some (.warning, .firefox "44.0a1" "45.0a1") },
  { pattern := all [.start, text "chrome://browser/content/browser.xul", .stop]
    severity := .warning
    id := ["testcases_regex", "string", "browser_xul"]
    message := "Reference to the main browser window document"
    description := some "Overlaying or loading \x60browser.xul\x60 directly is unsupported."
    editorsOnly := true }]

/-- The tests that find their pattern in a literal; the empty literal has none. -/
def matching (literal : String) : List PatternTest :=
  if literal.isEmpty then [] else literals.filter fun t => t.pattern.isFoundIn literal.toList

def findingAt (t : PatternTest) (file : String) (lines : Text.Lines) (line column : Nat) :
    Finding :=
  t.decorate {
    id := t.id
    message := t.message
    file := some file
    line := some line
    column := some column
    context := some (lines.excerpt line column) }

def checkLine (file : String) (lines : Text.Lines) (number : Nat) (line : List Char)
    (b : Bundle) : Bundle :=
  scriptLines.foldl (fun b t =>
    (t.pattern.findAll line).foldl (fun b m =>
      b.add t.severity (findingAt t file lines number m.offset)) b) b

/-- Report every match in lines that are numbered from a number on. -/
def checkLines (file : String) (lines : Text.Lines) : Nat → List (List Char) → Bundle → Bundle
  | _, [], b => b
  | number, line :: rest, b =>
    checkLines file lines (number + 1) rest (checkLine file lines number line b)

def checkScript (file : String) (source : List Char) (b : Bundle) : Bundle :=
  checkLines file (.ofChars source) 1 (Text.linesOf source) b

end Battery

end AddonAudit
