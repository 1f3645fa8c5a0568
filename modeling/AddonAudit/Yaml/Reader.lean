import AddonAudit.Script.Escape
import AddonAudit.Yaml.Node

/-!
# Reading YAML

Reading of documents with lists and maps in block and flow form and with plain and quoted texts. A
value in block form belongs to what stands further to the left. Anchors, tags and block texts are
not read.
-/

namespace AddonAudit.Yaml

structure Input where
  rest : List Char
  mark : Mark := {}

abbrev Scan := StateT Input (Except Error)

namespace Scan

def look : Scan (List Char) := do
  return (← get).rest

def mark : Scan Mark := do
  return (← get).mark

def skipped : Nat → Input → Input
  | n + 1, ⟨c :: rest, m⟩ => skipped n ⟨rest, m.after c⟩
  | _, input => input

def take (n : Nat) : Scan Unit :=
  modify (skipped n)

def isApart : List Char → Bool
  | [] => true
  | c :: _ => c = ' ' || c = '\t' || c = '\n' || c = '\r'

def isFlowMark (c : Char) : Bool :=
  c = ',' || c = '[' || c = ']' || c = '\x7b' || c = '\x7d'

/-- The number of characters before the next token: blanks, ends of lines and comments. -/
def gapLength (isComment : Bool) (isAfterBlank : Bool) : List Char → Nat
  | [] => 0
  | c :: rest =>
    if c = '\n' || c = '\r' then gapLength false true rest + 1
    else if isComment then gapLength true false rest + 1
    else if c = ' ' || c = '\t' then gapLength false true rest + 1
    else if c = '#' && isAfterBlank then gapLength true false rest + 1
    else 0

/-- Skip to the next token. Comments need a blank before them. -/
def gap : Scan Unit := do
  let isAtStart := (← mark).column = 0
  take (gapLength false isAtStart (← look))

def isAtMarker : Scan Bool := do
  let cs ← look
  return (← mark).column = 0 && isApart (cs.drop 3) &&
    (['-', '-', '-'].isPrefixOf cs || ['.', '.', '.'].isPrefixOf cs)

/-- Whether a colon that ends a key is at the front. In flow form it may also stand before a
mark. -/
def isColon (inFlow : Bool) : List Char → Bool
  | ':' :: rest => isApart rest || (inFlow && rest.head?.any isFlowMark)
  | _ => false

/-- The length of a plain text in one line, after a blank or not. -/
def plainLength (inFlow : Bool) (isAfterBlank : Bool) : List Char → Nat
  | [] => 0
  | c :: rest =>
    if c = '\n' || c = '\r' then 0
    else if isColon inFlow (c :: rest) then 0
    else if c = '#' && isAfterBlank then 0
    else if inFlow && isFlowMark c then 0
    else plainLength inFlow (c = ' ' || c = '\t') rest + 1

def isPlainStart (inFlow : Bool) : List Char → Bool
  | [] => false
  | c :: rest =>
    if c = '-' || c = '?' || c = ':' then
      !isApart rest && !(inFlow && rest.head?.any isFlowMark)
    else !"-?:,[]\x7b\x7d#&*!|>'\"%@\x60".toList.contains c

def withoutTail (cs : List Char) : List Char :=
  (cs.reverse.dropWhile fun c => c = ' ' || c = '\t').reverse

def plainLine (inFlow : Bool) : Scan (List Char) := do
  let cs ← look
  let text := withoutTail (cs.take (plainLength inFlow false cs))
  take text.length
  return text

/-- How many ends of lines are in a gap without comments. -/
def breaks (cs : List Char) : Nat :=
  cs.foldl (fun n c => if c = '\n' then n + 1 else n) 0

/-- What stands for a number of ends of lines inside a text: a blank for one, fewer by one for
more. -/
def folded (n : Nat) : List Char :=
  if n ≤ 1 then [' '] else List.replicate (n - 1) '\n'

/-- The rest of a plain text on further lines, which have to stand further to the right than a
column. -/
def plainRest (inFlow : Bool) (parent : Int) : Nat → List Char → Scan (List Char)
  | 0, text => return text
  | fuel + 1, text => do
    let before ← get
    let cs ← look
    let blanks := cs.takeWhile fun c => c = ' ' || c = '\t' || c = '\n' || c = '\r'
    take blanks.length
    let next ← look
    let isDeeper := parent < (← mark).column
    if breaks blanks = 0 || next.isEmpty || (!inFlow && !isDeeper) || (← isAtMarker) ||
        next.head? = some '#' || plainLength inFlow false next = 0 then
      set before
      return text
    let line ← plainLine inFlow
    plainRest inFlow parent fuel (text ++ folded (breaks blanks) ++ line)

/-- The text of a quoted line end: blanks around it go away. -/
def foldBreak (text : List Char) (cs : List Char) : List Char × Nat :=
  let blanks := cs.takeWhile fun c => c = ' ' || c = '\t' || c = '\n' || c = '\r'
  (withoutTail text ++ folded (breaks blanks), blanks.length)

def escaped? : Char → Option Char
  | '0' => some '\x00'
  | 'a' => some '\x07'
  | 'b' => some '\x08'
  | 't' => some '\t'
  | '\t' => some '\t'
  | 'n' => some '\n'
  | 'v' => some '\x0b'
  | 'f' => some '\x0c'
  | 'r' => some '\r'
  | 'e' => some '\x1b'
  | ' ' => some ' '
  | '"' => some '"'
  | '/' => some '/'
  | '\\' => some '\\'
  | 'N' => some '\u0085'
  | '_' => some '\u00a0'
  | 'L' => some '\u2028'
  | 'P' => some '\u2029'
  | _ => none

def escapeWidth? : Char → Option Nat
  | 'x' => some 2
  | 'u' => some 4
  | 'U' => some 8
  | _ => none

def doubleQuoted (start : Mark) : Nat → List Char → Scan (List Char)
  | 0, text => return text
  | fuel + 1, text => do
    match ← look with
    | [] => throw (.openQuote (← mark) start)
    | '"' :: _ =>
      take 1
      return text
    | '\\' :: '\n' :: rest =>
      take (2 + (rest.takeWhile fun c => c = ' ' || c = '\t').length)
      doubleQuoted start fuel text
    | '\\' :: c :: rest =>
      match escaped? c, escapeWidth? c with
      | some d, _ =>
        take 2
        doubleQuoted start fuel (text ++ [d])
      | none, some width =>
        let digits := rest.take width
        match Number.natural? 16 (Number.twoTo 32) digits with
        | some n =>
          if digits.length < width || (Script.charOf? n).isNone then
            throw (.badEscape (← mark) start)
          take (2 + width)
          doubleQuoted start fuel (text ++ (Script.charOf? n).toList)
        | none => throw (.badEscape (← mark) start)
      | none, none => throw (.badEscape (← mark) start)
    | '\n' :: rest =>
      let (text, n) := foldBreak text ('\n' :: rest)
      take n
      doubleQuoted start fuel text
    | c :: _ =>
      take 1
      doubleQuoted start fuel (text ++ [c])

def singleQuoted (start : Mark) : Nat → List Char → Scan (List Char)
  | 0, text => return text
  | fuel + 1, text => do
    match ← look with
    | [] => throw (.openQuote (← mark) start)
    | '\'' :: '\'' :: _ =>
      take 2
      singleQuoted start fuel (text ++ ['\''])
    | '\'' :: _ =>
      take 1
      return text
    | '\n' :: rest =>
      let (text, n) := foldBreak text ('\n' :: rest)
      take n
      singleQuoted start fuel text
    | c :: _ =>
      take 1
      singleQuoted start fuel (text ++ [c])

def quoted (quote : Char) : Scan Node := do
  let start ← mark
  take 1
  let fuel := (← look).length + 1
  let text ← if quote = '"' then doubleQuoted start fuel [] else singleQuoted start fuel []
  return .scalar (String.ofList text) false start

def keyText (inFlow : Bool) : Scan Node := do
  match ← look with
  | '"' :: _ => quoted '"'
  | '\'' :: _ => quoted '\''
  | cs =>
    let start ← mark
    if !isPlainStart inFlow cs then
      if inFlow then throw (.missingContent start start) else throw (.badToken start)
    return .scalar (String.ofList (← plainLine inFlow)) true start

def nothing : Scan Node := do
  return .scalar "" true (← mark)

def blanks : Scan Unit := do
  take ((← look).takeWhile fun c => c = ' ' || c = '\t').length

mutual

def flow : Nat → Scan Node
  | 0 => nothing
  | fuel + 1 => do
    gap
    let start ← mark
    match ← look with
    | '[' :: _ =>
      take 1
      flowItems fuel start []
    | '\x7b' :: _ =>
      take 1
      flowEntries fuel start []
    | cs =>
      let node ← keyText true
      match node with
      | .scalar text true m =>
        let text ← plainRest true 0 cs.length text.toList
        return .scalar (String.ofList text) true m
      | node => return node

def flowItems : Nat → Mark → List Node → Scan Node
  | 0, start, items => return .list items start
  | fuel + 1, start, items => do
    gap
    match ← look with
    | ']' :: _ =>
      take 1
      return .list items start
    | [] => throw (.missingContent (← mark) (← mark))
    | _ =>
      let item ← flow fuel
      gap
      let item ← if isColon true (← look) then do
          take 1
          let value ← flowValue fuel
          pure (Node.map [(item, value)] item.mark)
        else pure item
      gap
      match ← look with
      | ',' :: _ =>
        take 1
        flowItems fuel start (items ++ [item])
      | ']' :: _ => flowItems fuel start (items ++ [item])
      | _ => throw (.openList (← mark) start)

def flowEntries : Nat → Mark → List (Node × Node) → Scan Node
  | 0, start, entries => return .map entries start
  | fuel + 1, start, entries => do
    gap
    match ← look with
    | '\x7d' :: _ =>
      take 1
      return .map entries start
    | [] => throw (.missingContent (← mark) (← mark))
    | _ =>
      let key ← flow fuel
      gap
      let isQuoted := match key with
        | .scalar _ isPlain _ => !isPlain
        | _ => true
      let cs ← look
      let value ← if isColon true cs || (isQuoted && cs.head? = some ':') then do
          take 1
          flowValue fuel
        else nothing
      gap
      match ← look with
      | ',' :: _ =>
        take 1
        flowEntries fuel start (entries ++ [(key, value)])
      | '\x7d' :: _ => flowEntries fuel start (entries ++ [(key, value)])
      | _ => throw (.openMap (← mark) start)

/-- The value of an entry in flow form, which may be missing. -/
def flowValue : Nat → Scan Node
  | 0 => nothing
  | fuel + 1 => do
    gap
    match ← look with
    | ',' :: _ | ']' :: _ | '\x7d' :: _ => nothing
    | _ => flow fuel

end

def isItem : List Char → Bool
  | '-' :: rest => isApart rest
  | _ => false

mutual

/-- A value in block form inside of something that stands at a column. `canNest` says whether lists
and maps may start here, and `canAlign` whether a list may start at the column itself. -/
def block : Nat → Int → Bool → Bool → Scan Node
  | 0, _, _, _ => nothing
  | fuel + 1, parent, canNest, canAlign => do
    gap
    let cs ← look
    let start ← mark
    let isDeeper := parent < start.column || (canAlign && parent = start.column && isItem cs)
    if cs.isEmpty || !isDeeper || (← isAtMarker) then nothing
    else if isItem cs then
      if canNest then items fuel start [] else throw (.misplacedItem start)
    else match cs with
      | '[' :: _ | '\x7b' :: _ => flow fuel
      | _ =>
        let node ← keyText false
        let atEnd ← get
        blanks
        if isColon false (← look) then
          if !canNest || (← mark).row ≠ start.row then throw (.misplacedValue (← mark))
          entries fuel start node []
        else
          set atEnd
          match node with
          | .scalar text true m =>
            let text ← plainRest false parent cs.length text.toList
            let node := Node.scalar (String.ofList text) true m
            let atEnd ← get
            blanks
            if isColon false (← look) then throw (.misplacedValue (← mark))
            set atEnd
            return node
          | node => return node

def items : Nat → Mark → List Node → Scan Node
  | 0, start, done => return .list done start
  | fuel + 1, start, done => do
    gap
    let m ← mark
    let cs ← look
    if !cs.isEmpty && m.column = start.column && isItem cs && !(← isAtMarker) then
      take 1
      let item ← block fuel start.column true false
      items fuel start (done ++ [item])
    else if !cs.isEmpty && start.column < m.column then throw (.missingItem m start)
    else return .list done start

/-- The entries of a map in block form whose next key was read up to its colon. -/
def entries : Nat → Mark → Node → List (Node × Node) → Scan Node
  | 0, start, _, done => return .map done start
  | fuel + 1, start, key, done => do
    take 1
    blanks
    let isOpen := match ← look with
      | [] => true
      | c :: _ => c = '\n' || c = '\r' || c = '#'
    let value ← block fuel start.column isOpen isOpen
    let done := done ++ [(key, value)]
    gap
    let m ← mark
    let cs ← look
    if cs.isEmpty || m.column < start.column || (← isAtMarker) then return .map done start
    if start.column < m.column || isItem cs then throw (.missingKey m start)
    let key ← keyText false
    blanks
    if !isColon false (← look) then throw (.missingColon (← mark) m)
    entries fuel start key done

end

def documentStart : Scan Unit := do
  gap
  if (← isAtMarker) && (← look).head? = some '-' then take 3

/-- Read a document to its end. Without any value there is none. -/
def document : Scan (Option Node) := do
  documentStart
  let fuel := 4 * (← look).length + 4
  gap
  if (← look).isEmpty then return none
  let node ← block fuel (-1) true false
  gap
  if (← look).isEmpty then return some node
  if ← isAtMarker then
    let isEnd := (← look).head? = some '.'
    take 3
    gap
    if isEnd && (← look).isEmpty then return some node
    throw .manyDocuments
  throw (.extraContent (← mark))

end Scan

def parse (source : List Char) : Except Error (Option Node) :=
  (Scan.document.run { rest := source }).map Prod.fst

end AddonAudit.Yaml
