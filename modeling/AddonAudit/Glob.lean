import AddonAudit.Pattern

/-!
# Globs

A glob describes names: a question mark stands for one byte, a star for any number of them, brackets
for a choice of characters and braces for a choice of globs. Two stars between slashes stand for any
number of directories. Globs are matched against the bytes of a name in UTF-8, and a star crosses
slashes.
-/

namespace AddonAudit

inductive GlobToken where
  | literal (c : Char)
  | any
  | zeroOrMore
  | recursivePrefix
  /-- Everything below a directory. -/
  | recursiveSuffix
  | recursiveMiddle
  | oneOf (negated : Bool) (ranges : List (Char × Char))
  | alternates (branches : List (List GlobToken))
  deriving Inhabited

namespace Glob

/-- Why a text is no glob. -/
inductive Error where
  | unclosedClass
  | invalidRange (first last : Char)
  | unopenedAlternates
  | unclosedAlternates
  | danglingEscape
  deriving DecidableEq, Repr

def Error.message : Error → String
  | .unclosedClass => "unclosed character class; missing ']'"
  | .invalidRange first last =>
    "invalid range; '" ++ first.toString ++ "' > '" ++ last.toString ++ "'"
  | .unopenedAlternates =>
    "unopened alternate group; missing '\x7b' (maybe escape '\x7d' with '[\x7d]'?)"
  | .unclosedAlternates =>
    "unclosed alternate group; missing '\x7d' (maybe escape '\x7b' with '[\x7b]'?)"
  | .danglingEscape => "dangling '\\'"

def Error.describe (glob : String) (e : Error) : String :=
  "error parsing glob '" ++ glob ++ "': " ++ e.message

/-- Tokens of the branch that is read, last first. -/
abbrev Branch := List GlobToken

/-- The state of reading: the characters that are left, the one before them, the branch that is
read, and for every open group the branches that are complete and the branch around the group. -/
structure Reading where
  rest : List Char
  before : Option Char := none
  branch : Branch := []
  groups : List (List Branch × Branch) := []

def Reading.push (r : Reading) (t : GlobToken) : Reading :=
  { r with branch := t :: r.branch }

/-- Read the ranges of a class up to its closing bracket. `waiting` says that a range waits for its
end; the ranges read so far are given last first. -/
def readRanges : (first : Bool) → (waiting : Bool) → List (Char × Char) → (before : Char) →
    List Char → Except Error (List (Char × Char) × Char × List Char)
  | _, _, _, _, [] => .error .unclosedClass
  | first, waiting, ranges, _, c :: rest =>
    if c = ']' ∧ !first then
      .ok ((if waiting then ('-', '-') :: ranges else ranges).reverse, c, rest)
    else if c = '-' ∧ !first ∧ !waiting then readRanges false true ranges c rest
    else if waiting then
      match ranges with
      | (low, _) :: ranges =>
        if c < low then .error (.invalidRange low c)
        else readRanges false false ((low, c) :: ranges) c rest
      | [] => readRanges false false [(c, c)] c rest
    else readRanges false false ((c, c) :: ranges) c rest

def readClass (r : Reading) : Except Error Reading := do
  let (negated, rest) := match r.rest with
    | '!' :: rest => (true, rest)
    | '^' :: rest => (true, rest)
    | rest => (false, rest)
  let (ranges, before, rest) ← readRanges true false [] '[' rest
  return { r with rest, before := some before }.push (.oneOf negated ranges)

/-- What two stars after other tokens stand for, if they fill the place between two slashes. -/
def recursiveToken (last : GlobToken) (atEnd : Bool) : GlobToken :=
  match last with
  | .recursivePrefix => .recursivePrefix
  | .recursiveSuffix => .recursiveSuffix
  | _ => if atEnd then .recursiveSuffix else .recursiveMiddle

/-- Read what follows a star. `outer` is the character before the star. -/
def readStar (outer : Option Char) (r : Reading) : Reading :=
  match r.rest with
  | '*' :: rest =>
    let r := { r with rest, before := some '*' }
    let plain := (r.push .zeroOrMore).push .zeroOrMore
    let grouped := !r.groups.isEmpty
    match r.branch with
    | [] =>
      match rest with
      | [] => r.push .recursivePrefix
      | '/' :: rest => { r with rest, before := some '/' }.push .recursivePrefix
      | _ => plain
    | last :: branch =>
      if outer = some '/' || (grouped && (outer = some ',' || outer = some '\x7b')) then
        match rest with
        | [] => { r with branch := recursiveToken last true :: branch, before := none }
        | '/' :: rest =>
          { r with rest, before := some '/', branch := recursiveToken last false :: branch }
        | c :: _ =>
          if grouped && (c = ',' || c = '\x7d') then
            { r with branch := recursiveToken last true :: branch }
          else plain
      else plain
  | _ => r.push .zeroOrMore

def closeGroup (r : Reading) : Except Error Reading :=
  match r.groups with
  | [] => .error .unopenedAlternates
  | (branches, outer) :: groups =>
    .ok { r with
      groups
      branch := .alternates ((r.branch :: branches).reverse.map List.reverse) :: outer }

def readOne (c : Char) (r : Reading) : Except Error Reading :=
  let outer := r.before
  let r := { r with before := some c }
  match c with
  | '?' => .ok (r.push .any)
  | '*' => .ok (readStar outer r)
  | '[' => readClass r
  | '\x7b' => .ok { r with branch := [], groups := ([], r.branch) :: r.groups }
  | '\x7d' => closeGroup r
  | ',' =>
    match r.groups with
    | [] => .ok (r.push (.literal ','))
    | (branches, around) :: groups =>
      .ok { r with branch := [], groups := (r.branch :: branches, around) :: groups }
  | '\\' =>
    match r.rest with
    | [] => .error .danglingEscape
    | d :: rest => .ok ({ r with rest, before := some d }.push (.literal d))
  | c => .ok (r.push (.literal c))

/-- Read to the end. The fuel bounds the number of steps. -/
def readAll : Nat → Reading → Except Error (List GlobToken)
  | 0, r => .ok r.branch.reverse
  | fuel + 1, r =>
    match r.rest with
    | [] => if r.groups.isEmpty then .ok r.branch.reverse else .error .unclosedAlternates
    | c :: rest =>
      match readOne c { r with rest } with
      | .ok r => readAll fuel r
      | .error e => .error e

def parse (glob : String) : Except Error (List GlobToken) :=
  readAll (glob.length + 1) { rest := glob.toList }

/-- The bytes of a text, each as the character with its number. -/
def bytesOf (s : String) : List Char :=
  s.toUTF8.toList.map fun b => Char.ofNat b.toNat

def charBytes (c : Char) : List Char :=
  bytesOf c.toString

/-- The ranges of bytes that a range of characters adds to a class: the bytes before the last one of
the first character, a range from there to the first byte of the second one, and its other bytes. -/
def byteRanges (range : Char × Char) : List (Char × Char) :=
  let (first, last) := range
  if first = last then (charBytes first).map fun b => (b, b)
  else
    let low := charBytes first
    let high := charBytes last
    (low.dropLast.map fun b => (b, b)) ++ [(low.getLastD first, high.headD last)] ++
      (high.tail.map fun b => (b, b))

def anyBytes : Pattern :=
  .star (.one fun _ => true)

mutual

def tokenPattern : GlobToken → Pattern
  | .literal c => .all ((charBytes c).map .char)
  | .any => .one fun _ => true
  | .zeroOrMore => anyBytes
  | .recursivePrefix => .alt (.opt (.char '/')) (.seq anyBytes (.char '/'))
  | .recursiveSuffix => .seq (.char '/') anyBytes
  | .recursiveMiddle => .alt (.char '/') (.all [.char '/', anyBytes, .char '/'])
  | .oneOf negated ranges =>
    let ranges := ranges.flatMap byteRanges
    .one fun b => (ranges.any fun (low, high) => low ≤ b && b ≤ high) != negated
  | .alternates branches =>
    match branchPatterns branches with
    | [] => .empty
    | p :: ps => .any p ps

def branchPatterns : List (List GlobToken) → List Pattern
  | [] => []
  | branch :: rest =>
    if isVoid branch then branchPatterns rest
    else tokensPattern branch :: branchPatterns rest

def tokensPattern : List GlobToken → Pattern
  | [] => .empty
  | token :: rest => .seq (tokenPattern token) (tokensPattern rest)

/-- Whether a sequence of tokens has nothing to match: it holds only groups of empty branches. -/
def isVoid : List GlobToken → Bool
  | [] => true
  | .alternates branches :: rest => allVoid branches && isVoid rest
  | _ :: _ => false

def allVoid : List (List GlobToken) → Bool
  | [] => true
  | branch :: rest => isVoid branch && allVoid rest

end

/-- The pattern of a whole name. Two stars alone stand for every name. -/
def wholePattern (tokens : List GlobToken) : Pattern :=
  match tokens with
  | [.recursivePrefix] => .all [.start, anyBytes, .stop]
  | tokens => .all [.start, tokensPattern tokens, .stop]

end Glob

/-- A glob: its text, and its pattern over bytes. -/
structure Glob where
  text : String
  pattern : Pattern

namespace Glob

def ofText (text : String) : Except Error Glob := do
  return ⟨text, wholePattern (← parse text)⟩

def isMatch (g : Glob) (name : String) : Bool :=
  (g.pattern.matchAt? (.ofChars (bytesOf name))).isSome

end Glob

end AddonAudit
