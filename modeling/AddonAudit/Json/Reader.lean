import AddonAudit.Json
import AddonAudit.Number.Text

/-!
# Reading JSON

A reader of JSON texts. It accepts exactly the grammar of the format, bounds how deep arrays and
objects may be nested, and refuses a number that no double can hold. Where an object gives a key
twice, the later entry counts.
-/

namespace AddonAudit.Json

abbrev Reader (α : Type) := List Char → Option (α × List Char)

def isGap (c : Char) : Bool :=
  c = ' ' || c = '\n' || c = '\t' || c = '\r'

def skipGap (cs : List Char) : List Char :=
  cs.dropWhile isGap

def readHex4 : Reader Nat
  | a :: b :: c :: d :: rest => (Number.natural? 16 (Number.twoTo 16) [a, b, c, d]).map (·, rest)
  | _ => none

/-- The character behind the backslash and the letter u. A character beyond the first plane is given
by two halves. -/
def readUnicode (cs : List Char) : Option (Char × List Char) := do
  let (n, rest) ← readHex4 cs
  if 0xD800 ≤ n ∧ n < 0xDC00 then
    match rest with
    | '\\' :: 'u' :: rest =>
      let (m, rest) ← readHex4 rest
      if 0xDC00 ≤ m ∧ m < 0xE000 then
        some (Char.ofNat (0x10000 + (n - 0xD800) * 0x400 + (m - 0xDC00)), rest)
      else none
    | _ => none
  else if 0xDC00 ≤ n ∧ n < 0xE000 then none
  else some (Char.ofNat n, rest)

def shortEscape? : Char → Option Char
  | '"' => some '"'
  | '\\' => some '\\'
  | '/' => some '/'
  | 'b' => some '\x08'
  | 'f' => some '\x0c'
  | 'n' => some '\n'
  | 'r' => some '\r'
  | 't' => some '\t'
  | _ => none

/-- The rest of a string after its opening quote; the characters before are given last first. -/
def readChars : Nat → List Char → Reader String
  | 0, _, _ => none
  | fuel + 1, acc, cs =>
    match cs with
    | [] => none
    | '"' :: rest => some (String.ofList acc.reverse, rest)
    | '\\' :: 'u' :: rest => (readUnicode rest).bind fun (c, rest) => readChars fuel (c :: acc) rest
    | '\\' :: e :: rest => (shortEscape? e).bind fun c => readChars fuel (c :: acc) rest
    | c :: rest => if c.toNat < 32 ∨ c = '\\' then none else readChars fuel (c :: acc) rest

def readString : Reader String := fun cs =>
  readChars (cs.length + 1) [] cs

def readDigits : Reader (List Char) := fun cs =>
  let digits := cs.takeWhile Char.isDigit
  if digits.isEmpty then none else some (digits, cs.dropWhile Char.isDigit)

/-- The digits before the point; a zero stands alone. -/
def readWhole : Reader (List Char) := fun cs =>
  match cs with
  | '0' :: rest => if rest.head?.any Char.isDigit then none else some (['0'], rest)
  | cs => readDigits cs

def readExponent : Reader (List Char) := fun cs =>
  match cs with
  | e :: rest =>
    if e = 'e' ∨ e = 'E' then
      match rest with
      | '+' :: rest => (readDigits rest).map fun (digits, rest) => ('e' :: digits, rest)
      | '-' :: rest => (readDigits rest).map fun (digits, rest) => ('e' :: '-' :: digits, rest)
      | rest => (readDigits rest).map fun (digits, rest) => ('e' :: digits, rest)
    else some ([], cs)
  | [] => some ([], cs)

def readFraction : Reader (List Char) := fun cs =>
  match cs with
  | '.' :: rest => (readDigits rest).map fun (digits, rest) => ('.' :: digits, rest)
  | cs => some ([], cs)

/-- A double, if the text of a number stands for one that is finite. -/
def finite? (text : List Char) : Option Json :=
  let x := Number.ofChars text
  if x.isFinite then some (.float x) else none

/-- A number without its sign. Integers of 64 bits stay integers. -/
def readNumber (negative : Bool) : Reader Json := fun cs => do
  let (whole, rest) ← readWhole cs
  let (fraction, rest) ← readFraction rest
  let (exponent, rest) ← readExponent rest
  let n := Number.ofDigits 10 whole
  let sign := if negative then ['-'] else []
  let text := sign ++ whole ++ fraction ++ exponent
  if fraction.isEmpty ∧ exponent.isEmpty then
    if negative then
      if n ≠ 0 ∧ n ≤ Number.twoTo 63 then some (.int (-n), rest) else (finite? text).map (·, rest)
    else if n < Number.twoTo 64 then some (.int n, rest)
    else (finite? text).map (·, rest)
  else (finite? text).map (·, rest)

/-- The items of an array after its opening bracket and, unless it is the first one, a comma. -/
def readItems (value : Reader Json) : Nat → Reader (List Json)
  | 0, _ => none
  | fuel + 1, cs => do
    let (item, rest) ← value cs
    match skipGap rest with
    | ',' :: rest => (readItems value fuel rest).map fun (items, rest) => (item :: items, rest)
    | ']' :: rest => some ([item], rest)
    | _ => none

/-- The fields of an object after its opening brace and, unless it is the first one, a comma. -/
def readFields (value : Reader Json) : Nat → Reader (List (String × Json))
  | 0, _ => none
  | fuel + 1, cs => do
    match skipGap cs with
    | '"' :: rest =>
      let (name, rest) ← readString rest
      match skipGap rest with
      | ':' :: rest =>
        let (item, rest) ← value rest
        match skipGap rest with
        | ',' :: rest =>
          (readFields value fuel rest).map fun (fields, rest) => ((name, item) :: fields, rest)
        | '\x7d' :: rest => some ([(name, item)], rest)
        | _ => none
      | _ => none
    | _ => none

def readWord (word : String) (value : Json) : Reader Json := fun cs =>
  if word.toList.isPrefixOf cs then some (value, cs.drop word.length) else none

/-- A value. Arrays and objects may be nested less than `depth` times. -/
def readValue : Nat → Reader Json
  | depth, cs =>
    match skipGap cs with
    | 'n' :: rest => readWord "ull" .null rest
    | 't' :: rest => readWord "rue" (.bool true) rest
    | 'f' :: rest => readWord "alse" (.bool false) rest
    | '"' :: rest => (readString rest).map fun (s, rest) => (.str s, rest)
    | '-' :: rest => readNumber true rest
    | '[' :: rest =>
      match depth with
      | 0 | 1 => none
      | depth + 1 =>
        match skipGap rest with
        | ']' :: rest => some (.arr [], rest)
        | rest => (readItems (readValue depth) (rest.length + 1) rest).map fun (items, rest) =>
          (.arr items, rest)
    | '\x7b' :: rest =>
      match depth with
      | 0 | 1 => none
      | depth + 1 =>
        match skipGap rest with
        | '\x7d' :: rest => some (.obj [], rest)
        | rest => (readFields (readValue depth) (rest.length + 1) rest).map fun (fields, rest) =>
          (.ofEntries fields, rest)
    | cs => readNumber false cs

def defaultDepth : Nat := 128

/-- Read a text as one value, nested less than `depth` times. -/
def parseWithin? (depth : Nat) (text : String) : Option Json :=
  match readValue depth text.toList with
  | some (value, rest) => if (skipGap rest).isEmpty then some value else none
  | none => none

def parse? (text : String) : Option Json :=
  parseWithin? defaultDepth text

end AddonAudit.Json
