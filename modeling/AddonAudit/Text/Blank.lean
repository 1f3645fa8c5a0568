/-!
# White space

The characters with the Unicode property `White_Space`, and the functions that trim them. Texts are
handled as lists of characters; each function has a twin on `String`.
-/

namespace AddonAudit.Text

/-- Whether a character has the Unicode property `White_Space`. -/
def isBlank (c : Char) : Bool :=
  let n := c.toNat
  (9 ≤ n && n ≤ 13) || n = 32 || n = 0x85 || n = 0xA0 || n = 0x1680 ||
    (0x2000 ≤ n && n ≤ 0x200A) || n = 0x2028 || n = 0x2029 || n = 0x202F || n = 0x205F || n = 0x3000

def dropFront (p : Char → Bool) (cs : List Char) : List Char :=
  cs.dropWhile p

def dropBack (p : Char → Bool) (cs : List Char) : List Char :=
  (cs.reverse.dropWhile p).reverse

def trimChars (cs : List Char) : List Char :=
  dropBack isBlank (dropFront isBlank cs)

/-- Drop white space at both ends of a string. -/
def trim (s : String) : String :=
  String.ofList (trimChars s.toList)

def isBlankText (s : String) : Bool :=
  s.toList.all isBlank

/-- The words of a text: its maximal runs of characters that are not white space. -/
def wordsOf : List Char → List Char → List String
  | [], [] => []
  | word, [] => [String.ofList word.reverse]
  | word, c :: rest =>
    if isBlank c then
      if word.isEmpty then wordsOf [] rest else String.ofList word.reverse :: wordsOf [] rest
    else wordsOf (c :: word) rest

def words (s : String) : List String :=
  wordsOf [] s.toList

/-- The pieces between the occurrences of a separator character; there is always one. -/
def splitChars (sep : Char) : List Char → List (List Char)
  | [] => [[]]
  | c :: rest =>
    if c = sep then [] :: splitChars sep rest
    else match splitChars sep rest with
      | [] => [[c]]
      | piece :: pieces => (c :: piece) :: pieces

def split (sep : Char) (s : String) : List String :=
  (splitChars sep s.toList).map String.ofList

/-- What follows `pre` at the front of a text. -/
def dropText? (pre : String) (s : String) : Option String :=
  if pre.toList.isPrefixOf s.toList then some (String.ofList (s.toList.drop pre.toList.length))
  else none

/-- Drop every occurrence of `pre` at the front, one after the other. -/
def dropTexts (pre : List Char) (cs : List Char) : List Char :=
  if _h : pre ≠ [] ∧ pre.isPrefixOf cs then dropTexts pre (cs.drop pre.length) else cs
termination_by cs.length
decreasing_by
  have hlen : 0 < pre.length := List.length_pos_iff.mpr _h.1
  have hpre := List.isPrefixOf_iff_prefix.mp _h.2
  have hle := hpre.length_le
  simp only [List.length_drop]
  omega

def utf8Length : List Char → Nat
  | [] => 0
  | c :: rest => c.utf8Size + utf8Length rest

end AddonAudit.Text
