import AddonAudit.Script.Heap

/-!
# Operators

The binary and unary operators of a script over values. An operand that is not known makes the
result unknown, except where the operator alone fixes it.
-/

namespace AddonAudit.Script

inductive BinaryOp where
  | and | or | coalesce
  | add | subtract | multiply | power | divide | modulo
  | shiftLeft | shiftRight | shiftRightUnsigned
  | bitAnd | bitOr | bitXor
  | equal | notEqual | same | notSame
  | less | greater | lessOrEqual | greaterOrEqual
  /-- An operator whose result is never determined. -/
  | other
  deriving DecidableEq, Repr, Inhabited

def BinaryOp.ofText : String → BinaryOp
  | "&&" => .and
  | "||" => .or
  | "??" => .coalesce
  | "+" => .add
  | "-" => .subtract
  | "*" => .multiply
  | "**" => .power
  | "/" => .divide
  | "%" => .modulo
  | "<<" => .shiftLeft
  | ">>" => .shiftRight
  | ">>>" => .shiftRightUnsigned
  | "&" => .bitAnd
  | "|" => .bitOr
  | "^" => .bitXor
  | "==" => .equal
  | "!=" => .notEqual
  | "===" => .same
  | "!==" => .notSame
  | "<" => .less
  | ">" => .greater
  | "<=" => .lessOrEqual
  | ">=" => .greaterOrEqual
  | _ => .other

inductive UnaryOp where
  | typeOf | void | delete | not | minus | plus | complement
  /-- An operator whose result is never determined. -/
  | other
  deriving DecidableEq, Repr, Inhabited

def UnaryOp.ofText : String → UnaryOp
  | "typeof" => .typeOf
  | "void" => .void
  | "delete" => .delete
  | "!" => .not
  | "-" => .minus
  | "+" => .plus
  | "~" => .complement
  | _ => .other

/-- The operator behind an assignment that computes: the text without the equals sign. -/
def augmentedOperator (op : String) : String :=
  if op.toList.getLast? = some '=' then String.ofList op.toList.dropLast else op

namespace Operator

/-- Equality without conversion. -/
def sameValue (l r : Value) : Bool :=
  match l.content, r.content with
  | .literal a, .literal b => a.same b
  | .object a, .object b => a = b
  | _, _ => false

def equalsLiteral (h : Heap) (v : Value) (l : Literal) : Bool :=
  match l with
  | .null | .undefined => false
  | .string s => h.toText v = s
  | l => h.toNumber v == l.toNumber

def looselyEqual (h : Heap) (l r : Value) : Bool :=
  sameValue l r || match l.content, r.content with
    | .literal a, .literal b =>
      if a.isNullish && b.isNullish then true
      else if a.isNullish || b.isNullish then false
      else match a, b with
        | .string s, .string t => s = t
        | a, b => a.toNumber == b.toNumber
    | .object _, .literal b => equalsLiteral h l b
    | .literal a, .object _ => equalsLiteral h r a
    | _, _ => false

def isTextual (v : Value) : Bool :=
  v.isString || v.object?.isSome

/-- The text of a value in a sum; null and undefined add nothing. -/
def summand (h : Heap) (v : Value) : String :=
  match v.content with
  | .literal .null | .literal .undefined => ""
  | _ => h.toText v

def add (h : Heap) (l r : Value) : Value :=
  if isTextual l || isTextual r then .string (summand h l ++ summand h r)
  else .number (h.toNumber l + h.toNumber r)

/-- Order of two known values: strings by their characters, all else by number. -/
def compare (h : Heap) (strings : String → String → Bool) (numbers : Float → Float → Bool)
    (l r : Value) : Bool :=
  match l.content, r.content with
  | .literal (.string s), .literal (.string t) => strings s t
  | _, _ => numbers (h.toNumber l) (h.toNumber r)

def toInt32 (h : Heap) (v : Value) : Int32 :=
  Number.toInt32 (h.toNumber v)

def shiftCount (h : Heap) (v : Value) : Int32 :=
  Int32.ofNat (Number.shiftCount (h.toNumber v))

/-- A 32-bit integer as a value. -/
def ofInt32 (n : Int32) : Value :=
  .number (Float.ofInt n.toInt)

def known (h : Heap) (op : BinaryOp) (l r : Value) : Value :=
  match op with
  | .add => add h l r
  | .subtract => .number (h.toNumber l - h.toNumber r)
  | .multiply => .number (h.toNumber l * h.toNumber r)
  | .power => .number ((h.toNumber l).pow (h.toNumber r))
  | .divide =>
    let divisor := h.toNumber r
    if divisor == 0.0 then .number 0.0 else .number (h.toNumber l / divisor)
  | .modulo =>
    let divisor := h.toNumber r
    if divisor == 0.0 then .number 0.0 else .number (Number.remainder (h.toNumber l) divisor)
  | .shiftLeft => ofInt32 (toInt32 h l <<< shiftCount h r)
  | .shiftRight => ofInt32 (toInt32 h l >>> shiftCount h r)
  | .shiftRightUnsigned =>
    .number (Float.ofNat ((toInt32 h l).toUInt32 >>> (shiftCount h r).toUInt32).toNat)
  | .bitAnd => ofInt32 (toInt32 h l &&& toInt32 h r)
  | .bitOr => ofInt32 (toInt32 h l ||| toInt32 h r)
  | .bitXor => ofInt32 (toInt32 h l ^^^ toInt32 h r)
  | .equal => .bool (looselyEqual h l r)
  | .notEqual => .bool (!looselyEqual h l r)
  | .same => .bool (sameValue l r)
  | .notSame => .bool (!sameValue l r)
  | .less => .bool (compare h (fun s t => s < t) (fun x y => x < y) l r)
  | .greater => .bool (compare h (fun s t => t < s) (fun x y => y < x) l r)
  | .lessOrEqual => .bool (compare h (fun s t => !(t < s)) (fun x y => x ≤ y) l r)
  | .greaterOrEqual => .bool (compare h (fun s t => !(s < t)) (fun x y => y ≤ x) l r)
  | .and | .or | .coalesce | .other => .unknown

def binary (h : Heap) (op : BinaryOp) (l r : Value) : Value :=
  match op with
  | .and => if l.isDirty then .unknown else if l.truthy then r else l
  | .or => if l.isDirty then .unknown else if l.truthy then l else r
  | .coalesce =>
    if l.isDirty then .unknown
    else match l.content with
      | .literal .null | .literal .undefined => r
      | _ => l
  | op =>
    if l.isDirty || r.isDirty then
      -- The content is not known, but a string operand of a sum fixes the type.
      if op = .add && (l.isString || r.isString) then
        { content := .literal (.string ""), dirty := true }
      else .unknown
    else known h op l r

def unary (h : Heap) (op : UnaryOp) (v : Value) : Value :=
  match op with
  | .typeOf =>
    if v.isDirty && v.entity.isNone && !v.callable then .unknown else .string v.typeName
  | .void => .undefined
  | .delete => .bool true
  | op =>
    if v.isDirty then .unknown
    else match op with
      | .not => .bool (!v.truthy)
      | .minus => .number (-h.toNumber v)
      | .plus => .number (h.toNumber v)
      | .complement => ofInt32 (~~~toInt32 h v)
      | _ => .unknown

def describe (h : Heap) (v : Value) : String :=
  match v.content with
  | .literal l => if v.dirty then "<unknown>" else l.toText
  | .object _ => h.toText v
  | .unknown => "<unknown>"

end Operator

end AddonAudit.Script
