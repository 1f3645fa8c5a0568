import AddonAudit.Number.Text
import AddonAudit.Text.Quoted
import AddonAudit.Yaml.Node

/-!
# What a text without quotes means

A text without quotes is nothing, a truth value or a number if it has the form of one.
-/

namespace AddonAudit.Yaml

def isNull (s : String) : Bool :=
  ["null", "Null", "NULL", "~"].contains s

def bool? (s : String) : Option Bool :=
  if ["true", "True", "TRUE"].contains s then some true
  else if ["false", "False", "FALSE"].contains s then some false
  else none

def withoutSign (signs : List Char) : List Char → List Char
  | c :: rest => if signs.contains c then rest else c :: rest
  | [] => []

def isSigned (cs : List Char) : Bool :=
  cs.head? = some '+' || cs.head? = some '-'

/-- Whether a text has only digits, but more than one and a zero in front. -/
def isPadded (cs : List Char) : Bool :=
  match withoutSign ['-', '+'] cs with
  | '0' :: d :: rest => (d :: rest).all Char.isDigit
  | _ => false

def based? (bound : Nat) : List Char → Option Nat
  | '0' :: 'x' :: rest => if isSigned rest then none else Number.natural? 16 bound rest
  | '0' :: 'o' :: rest => if isSigned rest then none else Number.natural? 8 bound rest
  | '0' :: 'b' :: rest => if isSigned rest then none else Number.natural? 2 bound rest
  | _ => none

/-- The number of 64 bits that a text means. -/
def natural? (s : String) : Option Nat :=
  let cs := withoutSign ['+'] s.toList
  match based? (Number.twoTo 64) cs with
  | some n => some n
  | none =>
      if isSigned cs || isPadded s.toList then none else Number.natural? 10 (Number.twoTo 64) cs

/-- The negative number of 64 bits that a text means; its amount is given. -/
def negative? (s : String) : Option Nat :=
  match s.toList with
  | '-' :: cs =>
    match based? (Number.twoTo 63 + 1) cs with
    | some n => some n
    | none =>
      if isSigned cs || isPadded s.toList then none else Number.natural? 10 (Number.twoTo 63 + 1) cs
  | _ => none

def double? (s : String) : Option Float :=
  let cs := withoutSign ['+'] s.toList
  if s.toList.head? = some '+' && isSigned cs then none
  else if [".inf", ".Inf", ".INF"].contains (String.ofList cs) then some Number.infinity
  else if ["-.inf", "-.Inf", "-.INF"].contains s then some (-Number.infinity)
  else if [".nan", ".NaN", ".NAN"].contains s then some Number.nan
  else (Number.decimal? cs).filter fun x => x.isFinite

/-- How a value is called that should have been another one. -/
def Node.kind : Node → String
  | .list .. => "sequence"
  | .map .. => "map"
  | .scalar s isPlain _ =>
    if !isPlain then "string " ++ Text.quoted s
    else if s.isEmpty || isNull s then "unit value"
    else match bool? s, natural? s, negative? s with
      | some b, _, _ => "boolean \x60" ++ (if b then "true" else "false") ++ "\x60"
      | _, some n, _ => "integer \x60" ++ toString n ++ "\x60"
      | _, _, some n => "integer \x60-" ++ toString n ++ "\x60"
      | none, none, none =>
        match if isPadded s.toList then none else double? s with
        | some x =>
          let text := Number.toText x
          let point := if text.toList.contains '.' then "" else ".0"
          "floating point \x60" ++ text ++ point ++ "\x60"
        | none => "string " ++ Text.quoted s

/-- Whether a value is a text when no kind is asked for. -/
def Node.text? : Node → Option String
  | .scalar s isPlain m =>
    if !isPlain || (Node.scalar s isPlain m).kind.toList.head? = some 's' then some s else none
  | _ => none

end AddonAudit.Yaml
