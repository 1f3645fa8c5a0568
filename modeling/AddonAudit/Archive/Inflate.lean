import AddonAudit.Text.Utf8

/-!
# Compressed data

Decoding of compressed data: a sequence of blocks, each either plain bytes or symbols of a prefix
code. A symbol is a byte, the end of the block, or a copy of bytes that came before. What was
decoded before an error is kept.
-/

namespace AddonAudit.Archive

/-- Why decoding stopped before the end. -/
inductive Halt where
  /-- The data ends too early. -/
  | truncated
  | corrupt
  deriving DecidableEq, Repr

/-- What is left to decode, and what was decoded. -/
structure Inflating where
  bits : List Bool
  output : Array UInt8 := #[]

abbrev Inflate := ExceptT Halt (StateM Inflating)

namespace Inflate

def bitsOf (b : UInt8) : List Bool :=
  (List.range 8).map fun i => b.toNat.testBit i

/-- Take a number of bits, lowest first. -/
def number : Nat → Inflate Nat
  | 0 => return 0
  | n + 1 => do
    let s ← get
    match s.bits with
    | [] => throw .truncated
    | b :: rest =>
      set { s with bits := rest }
      return b.toNat + 2 * (← number n)

/-- A prefix code: how many symbols there are of each length from one on, and the symbols in the
order of their codes. -/
structure Code where
  counts : List Nat
  symbols : Array Nat

def maxLength : Nat := 15

/-- How much of all codes is left after those of some lengths; none if there are too many. -/
def slack? : Nat → List Nat → Option Nat
  | left, [] => some left
  | left, n :: rest => if 2 * left < n then none else slack? (2 * left - n) rest

/-- The code whose symbols have given lengths. Every code has to be used, unless there is at most
one symbol. -/
def Code.ofLengths? (lengths : List Nat) : Option Code :=
  let counts := (List.range maxLength).map fun i => lengths.countP (· = i + 1)
  let symbols := (List.range maxLength).flatMap fun i =>
    (lengths.zipIdx.filter (·.1 = i + 1)).map Prod.snd
  match slack? 1 counts with
  | none => none
  | some left =>
    if left = 0 || symbols.length ≤ 1 then some ⟨counts, symbols.toArray⟩ else none

/-- Take a symbol: bits are added to a code until it is one of those with its length. -/
def symbolFrom (symbols : Array Nat) (code first index : Nat) : List Nat → Inflate Nat
  | [] => throw .corrupt
  | count :: rest => do
    let code := code + (← number 1)
    if code < first + count then
      match symbols[index + (code - first)]? with
      | some symbol => return symbol
      | none => throw .corrupt
    else symbolFrom symbols (2 * code) (2 * (first + count)) (index + count) rest

def symbol (c : Code) : Inflate Nat :=
  symbolFrom c.symbols 0 0 0 c.counts

def emit (b : UInt8) : Inflate Unit :=
  modify fun s => { s with output := s.output.push b }

def copy (distance : Nat) : Nat → Inflate Unit
  | 0 => pure ()
  | n + 1 => do
    let output := (← get).output
    if distance = 0 || output.size < distance then throw .corrupt
    match output[output.size - distance]? with
    | some b => emit b
    | none => throw .corrupt
    copy distance n

/-- The shortest copy of each symbol for copies and how many bits follow the symbol. -/
def lengthTable : List (Nat × Nat) :=
  [(3, 0), (4, 0), (5, 0), (6, 0), (7, 0), (8, 0), (9, 0), (10, 0), (11, 1), (13, 1), (15, 1),
    (17, 1), (19, 2), (23, 2), (27, 2), (31, 2), (35, 3), (43, 3), (51, 3), (59, 3), (67, 4),
    (83, 4), (99, 4), (115, 4), (131, 5), (163, 5), (195, 5), (227, 5), (258, 0)]

/-- The smallest distance of each symbol for distances and how many bits follow the symbol. -/
def distanceTable : List (Nat × Nat) :=
  [(1, 0), (2, 0), (3, 0), (4, 0), (5, 1), (7, 1), (9, 2), (13, 2), (17, 3), (25, 3), (33, 4),
    (49, 4), (65, 5), (97, 5), (129, 6), (193, 6), (257, 7), (385, 7), (513, 8), (769, 8),
    (1025, 9), (1537, 9), (2049, 10), (3073, 10), (4097, 11), (6145, 11), (8193, 12), (12289, 12),
    (16385, 13), (24577, 13)]

def tableNumber (table : List (Nat × Nat)) (index : Nat) : Inflate Nat := do
  match table[index]? with
  | some (base, extra) => return base + (← number extra)
  | none => throw .corrupt

/-- Decode the symbols of a block. Every symbol takes a bit, so their number is bounded. -/
def symbols (literals distances : Code) : Nat → Inflate Unit
  | 0 => throw .truncated
  | fuel + 1 => do
    let s ← symbol literals
    if s < 256 then
      emit (UInt8.ofNat s)
      symbols literals distances fuel
    else if s = 256 then pure ()
    else
      let length ← tableNumber lengthTable (s - 257)
      let distance ← tableNumber distanceTable (← symbol distances)
      copy distance length
      symbols literals distances fuel

def plainBytes : Nat → Inflate Unit
  | 0 => pure ()
  | n + 1 => do
    emit (UInt8.ofNat (← number 8))
    plainBytes n

/-- Decode a block of plain bytes, which starts at a full byte with its length. -/
def plainBlock : Inflate Unit := do
  modify fun s => { s with bits := s.bits.drop (s.bits.length % 8) }
  let length ← number 16
  let check ← number 16
  if length + check ≠ 0xFFFF then throw .corrupt
  plainBytes length

def fixedLengths : List Nat :=
  List.replicate 144 8 ++ List.replicate 112 9 ++ List.replicate 24 7 ++ List.replicate 8 8

def lengthOrder : List Nat :=
  [16, 17, 18, 0, 8, 7, 9, 6, 10, 5, 11, 4, 12, 3, 13, 2, 14, 1, 15]

def smallNumbers : Nat → Inflate (List Nat)
  | 0 => return []
  | n + 1 => do
    let x ← number 3
    return x :: (← smallNumbers n)

/-- Take the lengths of codes until there are enough of them. A symbol above 15 repeats a length. -/
def lengths (c : Code) (count : Nat) : Nat → List Nat → Inflate (List Nat)
  | 0, _ => throw .corrupt
  | fuel + 1, done => do
    if done.length = count then return done
    let s ← symbol c
    let more ← match s with
      | 16 =>
        match done.getLast? with
        | some last => pure (List.replicate (3 + (← number 2)) last)
        | none => throw .corrupt
      | 17 => pure (List.replicate (3 + (← number 3)) 0)
      | 18 => pure (List.replicate (11 + (← number 7)) 0)
      | n => pure [n]
    if count < done.length + more.length then throw .corrupt
    lengths c count fuel (done ++ more)

def codeOf (lengths : List Nat) : Inflate Code :=
  match Code.ofLengths? lengths with
  | some c => return c
  | none => throw .corrupt

def blockCodes : Inflate (Code × Code) := do
  let literals := 257 + (← number 5)
  let distances := 1 + (← number 5)
  let small ← smallNumbers (4 + (← number 4))
  let order := lengthOrder.zip small
  let c ← codeOf ((List.range 19).map fun i => ((order.find? (·.1 = i)).map Prod.snd).getD 0)
  let all ← lengths c (literals + distances) (literals + distances + 1) []
  return (← codeOf (all.take literals), ← codeOf (all.drop literals))

/-- Decode blocks up to the last one. Every block takes bits, so their number is bounded. -/
def blocks : Nat → Inflate Unit
  | 0 => throw .truncated
  | fuel + 1 => do
    let isLast ← number 1
    let size := (← get).bits.length + 1
    match ← number 2 with
    | 0 => plainBlock
    | 1 => do
      let literals ← codeOf fixedLengths
      let distances ← codeOf (List.replicate 32 5)
      symbols literals distances size
    | 2 => do
      let (literals, distances) ← blockCodes
      symbols literals distances size
    | _ => throw .corrupt
    if isLast = 0 then blocks fuel

end Inflate

/-- Decode compressed data: what was decoded, and why decoding stopped early if it did. -/
def inflate (data : Bytes) : Bytes × Option Halt :=
  let bits := data.flatMap Inflate.bitsOf
  let (result, s) := (Inflate.blocks (bits.length + 1)).run { bits }
  match result with
  | .ok _ => (s.output.toList, none)
  | .error e => (s.output.toList, some e)

end AddonAudit.Archive
