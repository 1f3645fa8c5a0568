import AddonAudit.Dict
import AddonAudit.Number.Power
import AddonAudit.Text.Blank
import AddonAudit.Text.Case

/-!
# Application versions

Versions are compared part by part, where a part reads `number text number text`. A missing text
sorts after any present one, so `38.0a1` comes before `38.0`, and a missing part counts as zero.

A version set maps the identifiers of applications to lists of versions. Findings about
compatibility name the versions they concern, and matter only where those meet the supported ones.
-/

namespace AddonAudit

namespace Version

structure Part where
  major : Int64
  label : String
  minor : Int64
  rest : String
  deriving DecidableEq, Repr

/-- The value of a run of decimal digits; zero where there is none or it does not fit. -/
def number (digits : List Char) : Int64 :=
  let n := digits.foldl (fun n c => 10 * n + (c.toNat - '0'.toNat)) 0
  if n < Number.twoTo 63 then Int64.ofNat n else 0

/-- Split at the end of the longest run of digits. -/
def takeNumber (cs : List Char) : Int64 × List Char :=
  (number (cs.takeWhile Char.isDigit), cs.dropWhile Char.isDigit)

/-- Split before the first digit. -/
def takeLabel (cs : List Char) : String × List Char :=
  (String.ofList (cs.takeWhile (!·.isDigit)), cs.dropWhile (!·.isDigit))

/-- Read a part. A star is above every number, and a plus sign means the start of the next one. -/
def Part.ofChars (cs : List Char) : Part :=
  if cs = ['*'] then ⟨Int64.maxValue, "", 0, ""⟩
  else
    let (major, cs) := takeNumber cs
    let (label, cs) := takeLabel cs
    let (minor, cs) := takeNumber cs
    if label = "+" then ⟨major + 1, "pre", 0, ""⟩ else ⟨major, label, minor, String.ofList cs⟩

/-- Order of labels: the empty one comes last. -/
def compareLabels (x y : String) : Ordering :=
  match x.isEmpty, y.isEmpty with
  | true, true => .eq
  | true, false => .gt
  | false, true => .lt
  | false, false => compare x y

def Part.compare (p q : Part) : Ordering :=
  (Ord.compare p.major q.major).then <| (compareLabels p.label q.label).then <|
    (Ord.compare p.minor q.minor).then (compareLabels p.rest q.rest)

def Part.zero : Part :=
  Part.ofChars ['0']

def compareMissing : List Part → Ordering
  | [] => .eq
  | q :: qs => (Part.zero.compare q).then (compareMissing qs)

/-- Order of part lists, the shorter one filled up with zeros. -/
def compareParts : List Part → List Part → Ordering
  | [], qs => compareMissing qs
  | p :: ps, [] => (p.compare .zero).then (compareParts ps [])
  | p :: ps, q :: qs => (p.compare q).then (compareParts ps qs)

def parts (version : String) : List Part :=
  (Text.splitChars '.' version.toList).map Part.ofChars

def compare (x y : String) : Ordering :=
  compareParts (parts x) (parts y)

end Version

namespace Application

def firefox : String := "\x7bec8030f7-c20a-464f-9b0e-13a3a9e97384\x7d"

def thunderbird : String := "\x7b3550f703-e582-4d05-9a08-453d09bdfdc6\x7d"

def seamonkey : String := "\x7b92650c4d-4b8e-4d2a-b7eb-24ecf4f6b63a\x7d"

def android : String := "\x7baa3c5121-dab2-40e2-81ca-7ea25febc110\x7d"

def known : List String := [firefox, thunderbird, seamonkey, android]

/-- The identifier that a short name, in any case, or an identifier itself stands for. -/
def find? (name : String) : Option String :=
  match Text.lower name with
  | "firefox" | "fx" => some firefox
  | "thunderbird" | "tb" => some thunderbird
  | "seamonkey" | "sm" => some seamonkey
  | "android" | "fennec" => some android
  | _ => known.find? (· == name)

/-- The versions of any application: four for each major number from 3 to 60. -/
def versions : List String :=
  (List.range 58).flatMap fun k =>
    let major := toString (k + 3)
    [major ++ ".0a1", major ++ ".0a2", major ++ ".0", major ++ ".0.1"]

end Application

/-- Versions per application identifier. -/
abbrev AppVersions := Dict (List String)

namespace AppVersions

def add (app : String) (versions : List String) (s : AppVersions) : AppVersions :=
  s.alter ((Application.find? app).getD app) fun old => old.getD [] ++ versions

def isVoid (s : AppVersions) : Bool :=
  s.all fun entry => entry.2.isEmpty

def intersects (s t : AppVersions) : Bool :=
  s.any fun (app, mine) =>
    match t.find? app with
    | none => false
    | some theirs => mine.any fun a => theirs.any fun b => Version.compare a b = .eq

/-- Append the versions that are not yet in a list, in order. -/
def appendNew (old new : List String) : List String :=
  new.foldl (fun acc v => if acc.contains v then acc else acc ++ [v]) old

/-- Add the versions of another set that are not yet there. -/
def extend (s t : AppVersions) : AppVersions :=
  t.foldl (fun s (app, new) => s.alter app fun old => appendNew (old.getD []) new) s

/-- The known versions of an application from `first` up to but without `last`. -/
def range (app first last : String) : AppVersions :=
  match Application.find? app with
  | none => []
  | some guid => [(guid, Application.versions.filter fun v =>
      Version.compare v first ≠ .lt && Version.compare v last = .lt)]

end AppVersions

/-- A window of versions of one application; the end is not part of it. -/
structure VersionGate where
  app : String
  first : String
  last : String
  deriving DecidableEq, Repr

namespace VersionGate

def firefox (first last : String) : VersionGate :=
  ⟨Application.firefox, first, last⟩

def expand (g : VersionGate) : AppVersions :=
  AppVersions.range g.app g.first g.last

end VersionGate

end AddonAudit
