import AddonAudit.Text.Blank
import AddonAudit.Text.Search

/-!
# Lines of a text

Places in a text are lines, counted from one, and columns, counted in bytes from zero. Around a
place a report shows three lines: the one above, the line itself and the one below.
-/

namespace AddonAudit.Text

/-- The lines of a text, without the carriage returns at their ends. -/
structure Lines where
  /-- The lines in order. -/
  lines : Array (List Char)
  /-- The byte offset at which each line starts. -/
  starts : Array Nat
  deriving Repr

/-- The line above, the line itself and the line below; outside the text there is none. -/
structure Excerpt where
  above : Option String
  line : Option String
  below : Option String
  deriving DecidableEq, Repr

namespace Lines

def maxWidth : Nat := 140

def startsFrom : Nat → List Char → List Nat
  | _, [] => []
  | offset, c :: rest =>
    let next := offset + c.utf8Size
    if c = '\n' then next :: startsFrom next rest else startsFrom next rest

def ofChars (cs : List Char) : Lines where
  lines := ((splitChars '\n' cs).map (dropBack (· = '\r'))).toArray
  starts := (0 :: startsFrom 0 cs).toArray

def ofString (s : String) : Lines :=
  ofChars s.toList

/-- The line that holds a byte offset, counted from one. -/
def lineAt (l : Lines) (offset : Nat) : Nat :=
  match binarySearch l.starts offset with
  | .ok index => index + 1
  | .error index => index

/-- The column of a byte offset inside its line. -/
def columnAt (l : Lines) (offset : Nat) : Nat :=
  offset - l.starts.getD (l.lineAt offset - 1) 0

/-- A line as it is shown: trimmed, and if it is too long cut around a column. -/
def shown (cs : List Char) (column : Nat) : String :=
  let trimmed := trimChars cs
  if trimmed.length ≤ maxWidth then String.ofList trimmed
  else
    let start := min column cs.length - maxWidth / 2
    String.ofList (trimChars ((cs.drop start).take maxWidth))

def shownAt (l : Lines) (column index : Nat) : Option String :=
  l.lines[index]?.map (shown · column)

def excerpt (l : Lines) (line column : Nat) : Excerpt where
  above := if line ≤ 1 then none else l.shownAt column (line - 2)
  line := l.shownAt column (line - 1)
  below := l.shownAt column (line - 1 + 1)

end Lines

def dropReturn (cs : List Char) : List Char :=
  if cs.getLast? = some '\r' then cs.dropLast else cs

/-- The lines of a text, each without its line end. A line end at the end of the text does not start
another line. -/
def linesOf (cs : List Char) : List (List Char) :=
  let pieces := splitChars '\n' cs
  match pieces.getLast? with
  | some [] => pieces.dropLast.map dropReturn
  | some last => pieces.dropLast.map dropReturn ++ [last]
  | none => []

end AddonAudit.Text
