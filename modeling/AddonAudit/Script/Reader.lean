import AddonAudit.Script.Reader.Statement

/-!
# The tree of a script

The whole grammar, and a reader that always gives a tree. Where a statement cannot be read, its
parts go into an error node, and reading goes on at the token that did not fit; a token that cannot
start a statement goes into the error itself.
-/

namespace AddonAudit.Script.Reader

def production (grammar : Grammar) : Goal → Production Unit
  | .statement => statement grammar
  | .block => block grammar
  | .expressions allowIn => expressions grammar allowIn
  | .expression allowIn => expression grammar allowIn
  | .binary allowIn level => binary grammar allowIn level
  | .unary allowIn => unary grammar allowIn
  | .construct => construct grammar
  | .markup => markupElement grammar

def grammar : Nat → Grammar
  | 0, _ => stop
  | fuel + 1, goal => production (grammar fuel) goal

/-- How deep productions may be nested for a text of some length. Every few of them take a
character. -/
def depthFor (length : Nat) : Nat :=
  16 * (length + 4)

/-- Put nodes into the error before them, or into a new one. -/
def addError (start : Position) (nodes stack : List Node) : List Node :=
  match stack with
  | last :: below =>
    if last.kind = .error then { last with children := last.children ++ nodes } :: below
    else { kind := .error, start, children := nodes } :: stack
  | [] => [{ kind := .error, start, children := nodes }]

def tokenLength (cs : List Char) : Nat :=
  max 1 (wordLength cs)

/-- Go on after a statement failed. `before` is the state at its start, `failed` the one where it
stopped. -/
def recover (before failed : Input) : Input :=
  let above := failed.stack.take (failed.stack.length - before.stack.length)
  if failed.rest.length < before.rest.length then
    { failed with
      stack := addError before.position above.reverse before.stack
      newline := false
      innerNewline := false }
  else
    let n := tokenLength before.rest
    { before with
      rest := before.rest.drop n
      position := placeAfter before.position (before.rest.take n)
      stack := addError before.position [] before.stack }

/-- Read statements to the end of the text. The fuel bounds their number. -/
def statements (statement : Production Unit) : Nat → Input → Input
  | 0, s => s
  | fuel + 1, s =>
    let s := match openGap s with
      | .ok (_, s) => s
      | .error s => s
    if s.rest.isEmpty then s
    else match statement s with
      | .ok (_, s') =>
        if s'.rest.length < s.rest.length then statements statement fuel s'
        else statements statement fuel (recover s s)
      | .error failed => statements statement fuel (recover s failed)

def hashBang : Production Unit := do
  match ← look with
  | '#' :: '!' :: rest => leaf .hashBangLine (2 + (rest.takeWhile (· ≠ '\n')).length)
  | _ => pure ()

end AddonAudit.Script.Reader

namespace AddonAudit.Script

def Tree.ofSource (source : List Char) : Tree :=
  let start : Reader.Input := { rest := source }
  let start := match Reader.hashBang start with
    | .ok (_, s) => s
    | .error s => s
  let statement := Reader.grammar (Reader.depthFor source.length) .statement
  let final := Reader.statements statement (2 * source.length + 2) start
  let children := final.stack.reverse
  let place := match children with
    | first :: _ => first.start
    | [] => final.position
  Tree.ofRoot { kind := .program, start := place, children }

end AddonAudit.Script
