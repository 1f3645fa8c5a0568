import AddonAudit.Text.Blank
import AddonAudit.Text.Word

/-!
# Text patterns

A pattern describes texts by characters, sequence, ordered choice and repetition, with groups whose
text is kept. Matching follows the order in which a pattern lists its ways: the first way that leads
to a match of the whole wins. A search gives the leftmost match.

A repetition ends with a turn that takes no character, so matching always comes to an end.
-/

namespace AddonAudit

inductive Pattern where
  | empty
  | one (p : Char → Bool)
  | seq (a b : Pattern)
  /-- Try `a` first. -/
  | alt (a b : Pattern)
  /-- Any number of turns; if `greedy` holds, as many as possible are tried first. -/
  | many (greedy : Bool) (p : Pattern)
  /-- Keep the text under a number. -/
  | group (n : Nat) (p : Pattern)
  | start
  | stop
  | boundary

namespace Pattern

/-- A piece of a text and the byte offset where it starts. -/
structure Group where
  offset : Nat
  text : List Char
  deriving DecidableEq, Repr

/-- A place in a text. -/
structure Cursor where
  before : Option Char := none
  rest : List Char
  offset : Nat := 0
  groups : List (Nat × Group) := []
  deriving Repr

def Cursor.ofChars (cs : List Char) : Cursor :=
  { rest := cs }

def Cursor.atBoundary (c : Cursor) : Bool :=
  (c.before.any Text.isWord) != (c.rest.head?.any Text.isWord)

def Cursor.textTo (c d : Cursor) : List Char :=
  c.rest.take (c.rest.length - d.rest.length)

abbrev Continuation := Cursor → Option Cursor

/-- Any number of turns of a step. A turn that takes nothing is no turn. -/
def repeatFrom (step : Cursor → Continuation → Option Cursor) (greedy : Bool) :
    Nat → Cursor → Continuation → Option Cursor
  | 0, c, next => next c
  | fuel + 1, c, next =>
    let turn (_ : Unit) := step c fun d =>
      if d.offset = c.offset then none else repeatFrom step greedy fuel d next
    if greedy then
      match turn () with
      | some d => some d
      | none => next c
    else
      match next c with
      | some d => some d
      | none => turn ()

def run : Pattern → Cursor → Continuation → Option Cursor
  | .empty, c, next => next c
  | .one p, c, next =>
    match c.rest with
    | [] => none
    | x :: rest =>
      if p x then next { c with before := some x, rest, offset := c.offset + x.utf8Size } else none
  | .seq a b, c, next => a.run c fun d => b.run d next
  | .alt a b, c, next =>
    match a.run c next with
    | some d => some d
    | none => b.run c next
  | .many greedy p, c, next => repeatFrom p.run greedy (c.rest.length + 1) c next
  | .group n p, c, next =>
    p.run c fun d => next { d with groups := (n, ⟨c.offset, c.textTo d⟩) :: d.groups }
  | .start, c, next => if c.before.isNone then next c else none
  | .stop, c, next => if c.rest.isEmpty then next c else none
  | .boundary, c, next => if c.atBoundary then next c else none

/-- A match: where it starts, and the place where it ends. -/
structure Match where
  offset : Nat
  stop : Cursor
  deriving Repr

/-- The group with a number, if it took part in the match. -/
def Match.group? (m : Match) (n : Nat) : Option Group :=
  (m.stop.groups.find? (·.1 = n)).map Prod.snd

def matchAt? (p : Pattern) (c : Cursor) : Option Match :=
  (p.run { c with groups := [] } some).map fun d => ⟨c.offset, d⟩

/-- The leftmost match in a text whose preceding character and offset are given. -/
def findFrom? (p : Pattern) (before : Option Char) (offset : Nat) : List Char → Option Match
  | [] => p.matchAt? { before, rest := [], offset }
  | x :: rest =>
    match p.matchAt? { before, rest := x :: rest, offset } with
    | some m => some m
    | none => findFrom? p (some x) (offset + x.utf8Size) rest

def find? (p : Pattern) (cs : List Char) : Option Match :=
  p.findFrom? none 0 cs

def isFoundIn (p : Pattern) (cs : List Char) : Bool :=
  (p.find? cs).isSome

/-- The matches from a place on, each after the end of the one before it. The fuel bounds their
number. -/
def findAllFrom (p : Pattern) : Nat → Cursor → List Match
  | 0, _ => []
  | fuel + 1, c =>
    match p.findFrom? c.before c.offset c.rest with
    | none => []
    | some m =>
      if m.stop.offset = m.offset then
        match m.stop.rest with
        | [] => [m]
        | x :: rest =>
          m :: findAllFrom p fuel { before := some x, rest, offset := m.stop.offset + x.utf8Size }
      else m :: findAllFrom p fuel m.stop

/-- The matches in a text that do not overlap, from left to right. -/
def findAll (p : Pattern) (cs : List Char) : List Match :=
  p.findAllFrom (cs.length + 1) (.ofChars cs)

/-- A text with its matches replaced, after a given character and after some characters that belong
to a match before. Matches without text are not replaced. -/
def replaceFrom (p : Pattern) (f : List Char → List Char) (before : Option Char) (skip : Nat) :
    List Char → List Char
  | [] => []
  | x :: rest =>
    match skip with
    | n + 1 => replaceFrom p f (some x) n rest
    | 0 =>
      match p.matchAt? { before, rest := x :: rest } with
      | none => x :: replaceFrom p f (some x) 0 rest
      | some m =>
        match rest.length + 1 - m.stop.rest.length with
        | 0 => x :: replaceFrom p f (some x) 0 rest
        | n + 1 => f ((x :: rest).take (n + 1)) ++ replaceFrom p f (some x) n rest

def replaceAll (p : Pattern) (f : List Char → List Char) (cs : List Char) : List Char :=
  p.replaceFrom f none 0 cs

def all : List Pattern → Pattern
  | [] => .empty
  | [p] => p
  | p :: ps => .seq p (all ps)

/-- The first pattern of a list that leads to a match. There has to be one. -/
def any (p : Pattern) : List Pattern → Pattern
  | [] => p
  | q :: qs => .alt p (any q qs)

def char (c : Char) : Pattern :=
  .one (· = c)

def oneOf (s : String) : Pattern :=
  .one fun c => s.toList.contains c

/-- Any character but the given ones. -/
def noneOf (s : String) : Pattern :=
  .one fun c => !s.toList.contains c

def text (s : String) : Pattern :=
  all (s.toList.map char)

/-- The lower-case letter that an ASCII letter folds to; the long s and the Kelvin sign fold to
ASCII letters too. -/
def fold (c : Char) : Char :=
  if c.toNat = 0x17F then 's' else if c.toNat = 0x212A then 'k' else c.toLower

def textAnyCase (s : String) : Pattern :=
  all (s.toList.map fun c => .one fun d => fold d = fold c)

def letter : Pattern :=
  .one fun c => 'a' ≤ fold c && fold c ≤ 'z'

def blank : Pattern :=
  .one Text.isBlank

def digit : Pattern :=
  .one Text.isDecimal

/-- Any number of turns, as many as possible. -/
def star (p : Pattern) : Pattern :=
  .many true p

/-- At least one turn, as many as possible. -/
def plus (p : Pattern) : Pattern :=
  .seq p (.many true p)

def opt (p : Pattern) : Pattern :=
  .alt p .empty

def times (n : Nat) (p : Pattern) : Pattern :=
  all (List.replicate n p)

end Pattern

end AddonAudit
