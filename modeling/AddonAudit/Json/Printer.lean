import AddonAudit.Json
import AddonAudit.Number.Text

/-!
# Writing JSON

Two forms of a value: on one line without blanks, and indented by two blanks a level.
-/

namespace AddonAudit.Json

def escapeChar (c : Char) : List Char :=
  match c with
  | '"' => ['\\', '"']
  | '\\' => ['\\', '\\']
  | '\x08' => ['\\', 'b']
  | '\x0c' => ['\\', 'f']
  | '\n' => ['\\', 'n']
  | '\r' => ['\\', 'r']
  | '\t' => ['\\', 't']
  | c =>
    if c.toNat < 32 then
      ['\\', 'u', '0', '0', Nat.digitChar (c.toNat / 16), Nat.digitChar (c.toNat % 16)]
    else [c]

def stringText (s : String) : String :=
  String.ofList ('"' :: s.toList.flatMap escapeChar ++ ['"'])

def positiveText (d : Dyadic) : List Char :=
  let x := Number.shortest d
  let digits := Number.decimalDigits x.digits
  let point := (digits.length : Int) + x.exponent
  if 0 ≤ x.exponent ∧ point ≤ 16 then x.positional ++ ['.', '0']
  else if -5 < point ∧ point ≤ 16 then x.positional
  else
    let body := match digits with
      | [] => []
      | [d] => [d]
      | d :: rest => d :: '.' :: rest
    let exponent := point - 1
    body ++ 'e' :: (if exponent < 0 then ['-'] else []) ++ Number.decimalDigits exponent.natAbs

/-- A double; one that is not finite has no text and is written as null. -/
def floatText (x : Float) : String :=
  match Dyadic.ofFloat? x with
  | none => "null"
  | some d =>
    let text := if d.mantissa = 0 then ['0', '.', '0'] else positiveText d
    String.ofList (if d.negative then '-' :: text else text)

mutual

def compact : Json → String
  | .null => "null"
  | .bool b => if b then "true" else "false"
  | .int n => toString n
  | .float x => floatText x
  | .str s => stringText s
  | .arr items => "[" ++ ",".intercalate (compactItems items) ++ "]"
  | .obj fields => "\x7b" ++ ",".intercalate (compactFields fields) ++ "\x7d"

def compactItems : List Json → List String
  | [] => []
  | item :: rest => compact item :: compactItems rest

def compactFields : List (String × Json) → List String
  | [] => []
  | (name, value) :: rest => (stringText name ++ ":" ++ compact value) :: compactFields rest

end

def indent (level : Nat) : String :=
  "".pushn ' ' (2 * level)

def bracketed (left right : String) (level : Nat) (lines : List String) : String :=
  if lines.isEmpty then left ++ right
  else
    let inner := lines.map (indent (level + 1) ++ ·)
    left ++ "\n" ++ ",\n".intercalate inner ++ "\n" ++ indent level ++ right

mutual

/-- A value over several lines, whose first line stands at a level. -/
def prettyAt (level : Nat) : Json → String
  | .arr items => bracketed "[" "]" level (prettyItems (level + 1) items)
  | .obj fields => bracketed "\x7b" "\x7d" level (prettyFields (level + 1) fields)
  | .null => "null"
  | .bool b => if b then "true" else "false"
  | .int n => toString n
  | .float x => floatText x
  | .str s => stringText s

def prettyItems (level : Nat) : List Json → List String
  | [] => []
  | item :: rest => prettyAt level item :: prettyItems level rest

def prettyFields (level : Nat) : List (String × Json) → List String
  | [] => []
  | (name, value) :: rest =>
      (stringText name ++ ": " ++ prettyAt level value) :: prettyFields level rest

end

def pretty (value : Json) : String :=
  prettyAt 0 value

end AddonAudit.Json
