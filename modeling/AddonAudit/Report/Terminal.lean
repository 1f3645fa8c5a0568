import AddonAudit.Bundle
import AddonAudit.Text.Replace

/-!
# Reports for a terminal

The report of an audit as a text for people, with or without colours.
-/

namespace AddonAudit.Terminal

/-- How a piece of text looks. -/
inductive Style where
  | title
  | bold
  | dimmed
  | red
  | green
  | yellow
  | blue
  deriving DecidableEq, Repr

def Style.codes : Style → String
  | .title => "1;36"
  | .bold => "1"
  | .dimmed => "2"
  | .red => "31"
  | .green => "32"
  | .yellow => "33"
  | .blue => "34"

def reset : String := "\x1b[0m"

def Style.start (s : Style) : String :=
  "\x1b[" ++ s.codes ++ "m"

def pad (width : Nat) (text : String) : String :=
  text ++ String.ofList (List.replicate (width - text.toList.length) ' ')

/-- A text in a style and with a width. The style starts again where the text itself ends one. -/
def paintWide (colours : Bool) (width : Nat) (style : Style) (text : String) : String :=
  if colours then
    let inner := String.ofList (Text.replace reset (reset ++ style.start) text.toList)
    style.start ++ pad width inner ++ reset
  else pad width text

def paint (colours : Bool) (style : Style) (text : String) : String :=
  paintWide colours 0 style text

def tag (colours : Bool) : Severity → String
  | .error => "    " ++ paint colours .red "ERROR " ++ " "
  | .warning => "    " ++ paint colours .yellow "WARN  " ++ " "
  | .notice => "    " ++ paint colours .blue "NOTICE" ++ " "

def indent : String := "            "

def location (colours : Bool) (r : Record) : String :=
  if r.file.isEmpty then ""
  else
    paint colours .blue (" > ".intercalate r.file) ++
      match r.line with
      | some line => paint colours .dimmed (":" ++ toString line)
      | none => ""

def messageLines (colours : Bool) (r : Record) : List String :=
  [tag colours r.severity ++ "   " ++ paintWide colours 40 .dimmed r.dottedId ++ location colours r,
    indent ++ r.message] ++
  r.description.map (fun line => indent ++ paint colours .dimmed line) ++
  ((r.context.bind (·.line)).map fun line =>
    indent ++ paint colours .dimmed ("> " ++ Text.trim line)).toList ++
  [""]

def messagesLines (colours : Bool) (messages : List Record) : List String :=
  if messages.isEmpty then []
  else
    ["  " ++ paint colours .bold "Messages" ++ " (" ++ toString messages.length ++ "):", ""] ++
      messages.flatMap (messageLines colours) ++ [""]

def signingLines (colours : Bool) (s : SigningCounts) : List String :=
  if s.trivial + s.low + s.medium + s.high = 0 then []
  else
    ["  " ++ paint colours .bold "Signing:",
      "    high " ++ paint colours .red (toString s.high) ++
        "  medium " ++ paint colours .yellow (toString s.medium) ++
        "  low " ++ toString s.low ++
        "  trivial " ++ paint colours .dimmed (toString s.trivial),
      ""]

def outcomeLine (colours : Bool) (b : Bundle) (failOnWarnings : Bool) : String :=
  let counts := toString b.errors.length ++ " errors, " ++ toString b.warnings.length ++
    " warnings, " ++ toString b.notices.length ++ " notices (tier " ++ toString b.endingTier ++ ")"
  "  " ++ paint colours .dimmed counts ++ "  " ++
    if b.failed failOnWarnings then paint colours .red "FAILED" else paint colours .green "PASSED"

def version : String := "0.1.0"

def lines (colours : Bool) (path : String) (b : Bundle) (failOnWarnings : Bool) : List String :=
  ["", "  " ++ paint colours .title "xpilint" ++ " v" ++ version, "",
    "  " ++ paint colours .dimmed "Package: " ++ path,
    "  " ++ paint colours .dimmed "Type:    " ++ b.detected.name, ""] ++
  messagesLines colours b.messages ++ signingLines colours b.signing ++
  [outcomeLine colours b failOnWarnings, ""]

def render (colours : Bool) (path : String) (b : Bundle) (failOnWarnings : Bool) : String :=
  String.join ((lines colours path b failOnWarnings).map (· ++ "\n"))

end AddonAudit.Terminal
