import AddonAudit.Script.Reader.Cover

/-!
# Literals

Strings, templates and regular expressions. A string is a sequence of fragments, which are plain
text, and escape sequences; a template has expressions between them.
-/

namespace AddonAudit.Script.Reader

/-- What a production asks the whole grammar for. `allowIn` says whether the word `in` is an
operator. -/
inductive Goal where
  | statement
  | block
  | expressions (allowIn : Bool)
  | expression (allowIn : Bool)
  | binary (allowIn : Bool) (level : Nat)
  | unary (allowIn : Bool)
  /-- What follows the word `new`. -/
  | construct
  | markup
  deriving DecidableEq, Repr

abbrev Grammar := Goal → Production Unit

def escape : Production Unit := do
  match ← look with
  | '\\' :: rest =>
    match escapeLength rest with
    | 0 => stop
    | n => leaf .escapeSequence (n + 1)
  | _ => stop

def stringStep (quote : Char) : Production Bool := do
  match ← look with
  | [] => stop
  | '\\' :: _ =>
    escape
    return true
  | c :: rest =>
    if c = quote then return false
    else
      let n := ((c :: rest).takeWhile fun d => d ≠ quote && d ≠ '\\' && d ≠ '\n' && d ≠ '\r').length
      if n = 0 then stop
      else
        leaf .stringFragment n
        return true

def string (quote : Char) : Production Unit :=
  spelled .string do
    let _ ← take 1
    loop (stringStep quote)
    expect quote.toString

def templateLength : List Char → Nat
  | [] => 0
  | '\x60' :: _ => 0
  | '\\' :: _ => 0
  | '$' :: '\x7b' :: _ => 0
  | _ :: rest => templateLength rest + 1

def templateStep (grammar : Grammar) : Production Bool := do
  match ← look with
  | [] => stop
  | '\x60' :: _ => return false
  | '\\' :: _ =>
    escape
    return true
  | '$' :: '\x7b' :: _ =>
    spelled .templateSubstitution do
      expect "$\x7b"
      openGap
      grammar (.expressions true)
      symbol "\x7d"
    return true
  | cs =>
    leaf .stringFragment (templateLength cs)
    return true

def template (grammar : Grammar) : Production Unit :=
  spelled .templateString do
    expect "\x60"
    loop (templateStep grammar)
    expect "\x60"

def regex : Production Unit :=
  closed .regex do
    expect "/"
    match regexLength false (← look) with
    | 0 => stop
    | n => leaf .regexPattern n
    expect "/"
    let flags := (← look).takeWhile fun c => 'a' ≤ c && c ≤ 'z'
    if !flags.isEmpty then leaf .regexFlags flags.length

def number : Production Unit := do
  match numberLength (← look) with
  | 0 => stop
  | n => leaf .number n

end AddonAudit.Script.Reader
