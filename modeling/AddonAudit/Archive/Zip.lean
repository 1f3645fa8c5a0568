import AddonAudit.Archive.Checksum
import AddonAudit.Archive.Inflate
import AddonAudit.Dict

/-!
# Zip archives

An archive ends with a record that says where its directory starts and how many entries it has.
Bytes before the archive and after its end are allowed: the end is looked for from the back, and the
directory from the place where the end says it is.
-/

namespace AddonAudit.Archive

/-- Why an archive cannot be read. -/
inductive Error where
  | cutOff
  | invalid (reason : String)
  | unsupported (reason : String)
  deriving DecidableEq, Repr

def Error.message : Error → String
  | .cutOff => "i/o error"
  | .invalid reason => "invalid Zip archive: " ++ reason
  | .unsupported reason => "unsupported Zip archive: " ++ reason

/-- The number that bytes give, lowest first. -/
def numberOf : Bytes → Nat
  | [] => 0
  | b :: rest => b.toNat + 256 * numberOf rest

def endMark : Bytes := [0x50, 0x4B, 0x05, 0x06]

def entryMark : Bytes := [0x50, 0x4B, 0x01, 0x02]

def contentMark : Bytes := [0x50, 0x4B, 0x03, 0x04]

/-- The places of a mark in bytes whose first one has a number, from the back to the front. -/
def placesOf (mark : Bytes) (offset : Nat) (found : List Nat) : Bytes → List Nat
  | [] => found
  | b :: rest =>
    placesOf mark (offset + 1) (if mark.isPrefixOf (b :: rest) then offset :: found else found) rest

/-- The first place of a mark in bytes whose first one has a number. -/
def placeOf? (mark : Bytes) (offset : Nat) : Bytes → Option Nat
  | [] => none
  | b :: rest =>
    if mark.isPrefixOf (b :: rest) then some offset else placeOf? mark (offset + 1) rest

def field (record : Bytes) (start size : Nat) : Nat :=
  numberOf ((record.drop start).take size)

structure Directory where
  start : Nat
  count : Nat
  /-- How many bytes stand before the archive. -/
  offset : Nat
  /-- The directory is not on the last disk. -/
  isSplit : Bool
  deriving DecidableEq, Repr

def directoryAt (data : Bytes) (place : Nat) : Except Error Directory :=
  let record := data.drop place
  let comment := field record 20 2
  if record.length < 22 then .error .cutOff
  else if record.length < 22 + comment then .error .cutOff
  else
    let count := field record 10 2
    let start := field record 16 4
    let isSplit := field record 4 2 ≠ field record 6 2
    if count = 0 then .ok ⟨start, 0, place - start, isSplit⟩
    else if place ≤ start then .error (.invalid "Invalid CDFH offset in EOCD")
    else
      match placeOf? entryMark start ((data.take place).drop start) with
      | some found => .ok ⟨found, count, found - start, isSplit⟩
      | none => .error (.invalid "No CDFH found")

/-- The directory that the first good record of a list describes. Otherwise the last error counts,
but missing bytes only where there is no other. -/
def directoryOf (data : Bytes) (last : Option Error) : List Nat → Except Error Directory
  | [] => .error (last.getD (.invalid "Could not find EOCD"))
  | place :: rest =>
    match directoryAt data place with
    | .ok d => .ok d
    | .error .cutOff => directoryOf data (some (last.getD .cutOff)) rest
    | .error e => directoryOf data (some e) rest

/-- How the content of an entry is written. -/
inductive Method where
  | plain
  | deflated
  | other
  deriving DecidableEq, Repr

def Method.numbered : Nat → Method
  | 0 => .plain
  | 8 => .deflated
  | _ => .other

structure Entry where
  name : String
  method : Method
  isEncrypted : Bool
  checksum : Nat
  packedSize : Nat
  /-- Bytes after unpacking. -/
  size : Nat
  /-- Where the record of the content starts. -/
  start : Nat
  deriving DecidableEq, Repr

/-- The characters that bytes above 127 stand for in old names. -/
def oldCharacters : List Char :=
  ("ÇüéâäàåçêëèïîìÄÅÉæÆôöòûùÿÖÜ¢£¥₧ƒáíóúñÑªº¿⌐¬½¼¡«»░▒▓│┤╡╢╖╕╣║╗╝╜╛┐" ++
    "└┴┬├─┼╞╟╚╔╩╦╠═╬╧╨╤╥╙╘╒╓╫╪┘┌█▄▌▐▀αßΓπΣσµτΦΘΩδ∞φε∩≡±≥≤⌠⌡÷≈°∙·√ⁿ²■\u00a0").toList

def oldCharacter (b : UInt8) : Char :=
  if b < 0x80 then Char.ofNat b.toNat else oldCharacters.getD (b.toNat - 128) Text.replacement

/-- A name. Old names have a character for every byte. -/
def nameOf (isUtf8 : Bool) (bytes : Bytes) : String :=
  if isUtf8 then String.ofList (Text.ofBytes bytes) else String.ofList (bytes.map oldCharacter)

/-- The entries of a directory, as many as are asked for. The number of bytes before the archive is
added to the places of their contents. -/
def entriesOf (offset : Nat) : Nat → Bytes → Except Error (List Entry)
  | 0, _ => .ok []
  | count + 1, data => do
    let nameSize := field data 28 2
    let extra := field data 30 2 + field data 32 2
    if data.length < 46 then throw .cutOff
    if !entryMark.isPrefixOf data then throw (.invalid "Invalid Central Directory header")
    if data.length < 46 + nameSize + extra then throw .cutOff
    let flags := field data 8 2
    let rest ← entriesOf offset count (data.drop (46 + nameSize + extra))
    return {
      name := nameOf (flags.testBit 11) ((data.drop 46).take nameSize)
      method := .numbered (field data 10 2)
      isEncrypted := flags.testBit 0
      checksum := field data 16 4
      packedSize := field data 20 4
      size := field data 24 4
      start := field data 42 4 + offset } :: rest

/-- Put an entry into a list, in place of one with its name if there is one. -/
def putEntry (e : Entry) : List Entry → List Entry
  | [] => [e]
  | f :: rest => if f.name = e.name then e :: rest else f :: putEntry e rest

/-- The entries of an archive; a later one takes the place of an earlier one with its name. -/
def read (data : Bytes) : Except Error (List Entry) := do
  let d ← directoryOf data none (placesOf endMark 0 [] data)
  if d.isSplit then throw (.unsupported "Support for multi-disk files is not implemented")
  let entries ← entriesOf d.offset d.count (data.drop d.start)
  return entries.foldl (fun done e => putEntry e done) []

def Entry.isDirectory (e : Entry) : Bool :=
  e.name.toList.getLast?.any fun c => c = '/' || c = '\\'

def Entry.packed (data : Bytes) (e : Entry) : Except Error Bytes := do
  let record := data.drop e.start
  if e.isEncrypted then throw (.unsupported "Password required to decrypt file")
  if record.length < 30 then throw .cutOff
  if !contentMark.isPrefixOf record then throw (.invalid "Invalid local file header")
  if e.method = .other then throw (.unsupported "Compression method not supported")
  return (record.drop (30 + field record 26 2 + field record 28 2)).take e.packedSize

/-- Why the content of an entry cannot be unpacked. -/
inductive ContentError where
  | corrupt
  | checksum
  deriving DecidableEq, Repr

def ContentError.message : ContentError → String
  | .corrupt => "corrupt deflate stream"
  | .checksum => "Invalid checksum"

def Entry.unpack (e : Entry) (packed : Bytes) : Except ContentError Bytes := do
  let (content, halt) := if e.method = .deflated then inflate packed else (packed, none)
  if halt = some .corrupt then throw .corrupt
  if (Archive.checksum content).toNat ≠ e.checksum then throw .checksum
  return content

end AddonAudit.Archive
