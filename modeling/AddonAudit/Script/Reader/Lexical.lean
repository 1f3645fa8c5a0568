import AddonAudit.Script.Reader.Input

/-!
# Words, blanks and comments

The smallest parts of a script: what stands between tokens, words, numbers, and the pieces of
strings and regular expressions.
-/

namespace AddonAudit.Script.Reader

def isSpace (c : Char) : Bool :=
  Text.isBlank c || c.toNat = 0xFEFF || c.toNat = 0x2060 || c.toNat = 0x200B

def endsLine (c : Char) : Bool :=
  c = '\n' || c.toNat = 0x2028 || c.toNat = 0x2029

/-- Whether a character may stand in a word after its start. -/
def inWord (c : Char) : Bool :=
  !(c.toNat < 32 || isSpace c || ":;\x60\"'@#.,|^&<=>+-*/\\%?!~()[]\x7b\x7d".toList.contains c)

def isHex (c : Char) : Bool :=
  c.isDigit || ('a' ≤ c && c ≤ 'f') || ('A' ≤ c && c ≤ 'F')

/-- The length of an escaped character of a word: a backslash, the letter u and hexadecimal digits.
Zero if there is none. -/
def wordEscape (cs : List Char) : Nat :=
  match cs with
  | '\\' :: 'u' :: '\x7b' :: rest =>
    let digits := rest.takeWhile isHex
    if !digits.isEmpty && (rest.drop digits.length).head? = some '\x7d' then
      digits.length + 4
    else 0
  | '\\' :: 'u' :: rest => if (rest.take 4).length = 4 && (rest.take 4).all isHex then 6 else 0
  | _ => 0

def wordTail : Nat → List Char → Nat
  | 0, _ => 0
  | fuel + 1, cs =>
    match cs with
    | [] => 0
    | c :: rest =>
      if inWord c then wordTail fuel rest + 1
      else match wordEscape cs with
        | 0 => 0
        | n => n + wordTail fuel (cs.drop n)

/-- The length of the word at the front; zero if there is none. -/
def wordLength (cs : List Char) : Nat :=
  match cs with
  | [] => 0
  | c :: _ => if c.isDigit then 0 else wordTail cs.length cs

/-- The word at the front; empty if there is none. -/
def wordOf (cs : List Char) : String :=
  String.ofList (cs.take (wordLength cs))

/-- The length of a block comment after its opening; it has to be closed. -/
def blockLength? : List Char → Option Nat
  | [] => none
  | '*' :: '/' :: _ => some 2
  | _ :: rest => (blockLength? rest).map (· + 1)

/-- The length of a comment at the front; zero if there is none. -/
def commentLength (cs : List Char) : Nat :=
  match cs with
  | '/' :: '/' :: rest => 2 + (rest.takeWhile fun c => !(endsLine c || c = '\r')).length
  | '/' :: '*' :: rest =>
    match blockLength? rest with
    | some n => n + 2
    | none => 0
  | _ => 0

/-- The length of a line that starts like the end or the start of a markup comment. -/
def htmlCommentLength (cs : List Char) : Nat :=
  if "<!--".toList.isPrefixOf cs || "-->".toList.isPrefixOf cs then
    (cs.takeWhile fun c => !(endsLine c)).length
  else 0

def afterGap : Nat → List Char → List Char
  | 0, cs => cs
  | fuel + 1, cs =>
    match cs.dropWhile isSpace with
    | [] => []
    | cs =>
      match commentLength cs with
      | 0 => cs
      | n => afterGap fuel (cs.drop n)

def peekAfterWord (cs : List Char) : List Char :=
  let rest := cs.drop (wordLength cs)
  afterGap (rest.length + 1) rest

def takeSpace (c : Char) : Production Unit :=
  modify fun s => { s with
    rest := s.rest.tail
    position := s.position.after c
    newline := s.newline || endsLine c }

/-- Take a comment as a node. It does not count as a token. -/
def takeComment (kind : Kind) (n : Nat) : Production Unit :=
  modify fun s =>
    let cs := s.rest.take n
    let comment : Node := { kind, start := s.position, text := String.ofList cs }
    { s with
      rest := s.rest.drop n
      position := placeAfter s.position cs
      innerNewline := s.innerNewline || cs.any endsLine
      stack := comment :: s.stack }

/-- Take a blank or a comment, where markup comments may count too. -/
def gapStep (markup : Bool) : Production Bool := do
  match ← look with
  | [] => return false
  | c :: rest =>
    if isSpace c then
      takeSpace c
      return true
    else
      let n := commentLength (c :: rest)
      if n ≠ 0 then
        takeComment .comment n
        return true
      else
        let n := if markup then htmlCommentLength (c :: rest) else 0
        if n ≠ 0 then
          takeComment .htmlComment n
          return true
        else return false

def gap : Production Unit :=
  loop (gapStep false)

/-- Take the blanks and comments before an operand or a statement. -/
def openGap : Production Unit :=
  loop (gapStep true)

def symbol (token : String) : Production Unit := do
  gap
  expect token

def isNext (token : String) : Production Bool := do
  gap
  return token.toList.isPrefixOf (← look)

def nextWord : Production String := do
  return wordOf (← look)

def keyword (word : String) : Production Unit := do
  if (← nextWord) = word then
    let _ ← take word.length
  else stop

def wordLeaf (kind : Kind) : Production Unit := do
  match wordLength (← look) with
  | 0 => stop
  | n => leaf kind n

def tokenLeaf (role : Role) (n : Nat) : Production Unit := do
  withRole role (leaf .token n)

def part {α : Type} (role : Role) (p : Production α) : Production α := do
  openGap
  withRole role p

def digitsLength (isDigit : Char → Bool) : List Char → Nat
  | [] => 0
  | '_' :: c :: rest => if isDigit c then digitsLength isDigit rest + 2 else 0
  | c :: rest => if isDigit c then digitsLength isDigit rest + 1 else 0

/-- The length of an exponent; zero if there is none. -/
def exponentLength (cs : List Char) : Nat :=
  match cs with
  | e :: rest =>
    if e = 'e' || e = 'E' then
      match rest with
      | s :: rest' =>
        if s = '+' || s = '-' then
          match digitsLength Char.isDigit rest' with
          | 0 => 0
          | n => n + 2
        else match digitsLength Char.isDigit rest with
          | 0 => 0
          | n => n + 1
      | [] => 0
    else 0
  | [] => 0

/-- The length of a number that starts with the mark of a base; zero if there is none. -/
def markedLength (cs : List Char) : Nat :=
  match cs with
  | '0' :: mark :: rest =>
    let digits :=
      if mark = 'x' || mark = 'X' then digitsLength isHex rest
      else if mark = 'o' || mark = 'O' then digitsLength (fun c => '0' ≤ c && c ≤ '7') rest
      else if mark = 'b' || mark = 'B' then digitsLength (fun c => c = '0' || c = '1') rest
      else 0
    if digits = 0 then 0 else digits + 2
  | _ => 0

/-- The length of a decimal number; zero if there is none. -/
def decimalLength (cs : List Char) : Nat :=
  let whole := digitsLength Char.isDigit cs
  let rest := cs.drop whole
  match rest with
  | '.' :: rest' =>
    let fraction := digitsLength Char.isDigit rest'
    if whole = 0 && fraction = 0 then 0
    else
      let n := whole + 1 + fraction
      n + exponentLength (cs.drop n)
  | _ => if whole = 0 then 0 else whole + exponentLength rest

/-- The length of a number at the front, with the mark of a big integer; zero if there is none. -/
def numberLength (cs : List Char) : Nat :=
  let n := match markedLength cs with
    | 0 => decimalLength cs
    | n => n
  if n ≠ 0 && (cs.drop n).head? = some 'n' then n + 1 else n

/-- The length of an escape sequence after its backslash; zero if there is none. -/
def escapeLength (cs : List Char) : Nat :=
  match cs with
  | [] => 0
  | 'x' :: rest => if (rest.take 2).length = 2 && (rest.take 2).all isHex then 3 else 0
  | 'u' :: rest =>
    match wordEscape ('\\' :: 'u' :: rest) with
    | 0 => 0
    | n => n - 1
  | c :: rest =>
    if '0' ≤ c && c ≤ '7' then
      1 + ((rest.take 2).takeWhile fun d => '0' ≤ d && d ≤ '7').length
    else if (c = '\r' || c = '?') && rest.head?.any endsLine then 2
    else 1

def regexLength : (inClass : Bool) → List Char → Nat
  | _, [] => 0
  | inClass, '\\' :: c :: rest => if c = '\n' then 0 else regexLength inClass rest + 2
  | inClass, c :: rest =>
    if c = '\n' || c = '\\' then 0
    else if c = '/' && !inClass then 0
    else if c = '[' then regexLength true rest + 1
    else if c = ']' then regexLength false rest + 1
    else regexLength inClass rest + 1

/-- Characters before which a line end does not end a statement. -/
def goesOn : List Char → Bool
  | [] => false
  | '.' :: rest => !rest.head?.any Char.isDigit
  | '+' :: rest => rest.head? ≠ some '+'
  | '-' :: rest => rest.head? ≠ some '-'
  | '!' :: rest => rest.head? = some '='
  | 'i' :: 'n' :: rest =>
    !rest.head?.any Char.isAlpha ||
      ("stanceof".toList.isPrefixOf rest && !(rest.drop 8).head?.any Char.isAlpha)
  | c :: _ => "\x60,:;*%><=[(?^|&/".toList.contains c

/-- Whether a statement may end here without a semicolon. After a word that needs no operand, a line
end inside a comment counts too. -/
def endsHere (afterWord : Bool) : Production Bool := do
  let s ← get
  match s.rest with
  | [] => return true
  | '\x7d' :: _ => return true
  | cs =>
    return (s.newline && !goesOn cs) ||
      (afterWord && s.innerNewline && !cs.head?.any fun c => c = ',' || c = '=' || c = ';')

/-- The end of a statement: a semicolon, or a place where it may be left out. -/
def semicolon (afterWord : Bool) : Production Unit := do
  gap
  if ← accept ";" then return
  if ← endsHere afterWord then return
  stop

end AddonAudit.Script.Reader
