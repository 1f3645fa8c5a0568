import AddonAudit.Proofs.Reports
import Mathlib.Algebra.BigOperators.Group.Finset.Basic
import Mathlib.Data.List.TakeWhile

/-!
# Properties of an install manifest

One pass over the statements about an add-on, with the names that came up before, reports properties
that stand there again, properties that are not understood, and properties that only a host may set.
The names of these tables overlap and the statements come in any order, but each kind of finding is
counted by itself: it depends on how often each name stands there and where it stands first. What is
missing is looked up by name.
-/

namespace AddonAudit

namespace Text

/-- What is dropped and what is left make the text. -/
theorem dropText?_eq_some_iff {pre s rest : String} :
    dropText? pre s = some rest ↔ s = pre ++ rest := by
  unfold dropText?
  constructor
  · intro found
    split at found
    next isPrefix =>
      obtain ⟨tail, whole⟩ := List.isPrefixOf_iff_prefix.1 isPrefix
      obtain rfl := Option.some.inj found
      rw [← whole, List.drop_left, ← String.toList_inj]
      simp [whole]
    · cases found
  · rintro rfl
    simp

/-- Nothing is left of a text if all of it is white space. -/
theorem isEmpty_trim (s : String) : (trim s).isEmpty = isBlankText s := by
  have nothing : trimChars s.toList = [] ↔ ∀ c ∈ s.toList, isBlank c := by
    rw [trimChars, dropBack, List.reverse_eq_nil_iff, List.dropWhile_eq_nil_iff]
    constructor
    · intro blank
      have allBlank : dropFront isBlank s.toList = [] := by
        cases left : dropFront isBlank s.toList with
        | nil => rfl
        | cons c rest =>
            have stop := List.head?_dropWhile_not isBlank s.toList
            rw [dropFront] at left
            rw [left] at stop
            have here := blank c (by simp [dropFront, left])
            simp [here] at stop
      exact List.dropWhile_eq_nil_iff.1 allBlank
    · intro blank c mem
      exact blank c ((List.dropWhile_sublist _).subset (List.mem_reverse.1 mem))
  rw [Bool.eq_iff_iff, String.isEmpty_iff, isBlankText, List.all_eq_true, ← nothing, trim,
    ← String.toList_inj]
  simp

end Text

namespace Install

open Bundle
open Rdf (em emUri installRoot Graph Triple)

/-- The properties that statements give, in order, each with its line. -/
def propertiesOf (ts : List Triple) : List (String × Nat) :=
  ts.filterMap fun t => (Text.dropText? emUri t.predicate).map fun name => (name, t.line)

/-- The properties of the add-on itself. -/
def properties (g : Graph) : List (String × Nat) :=
  propertiesOf (g.about installRoot)

/-- The names of the properties of the add-on itself. -/
def names (g : Graph) : List String :=
  (properties g).map Prod.fst

/-- The identifier of a finding about properties. -/
def kind (name : String) : List String :=
  ["testcases_installrdf", "_test_rdf", name]

/-- The error for a property that stands there again. -/
def duplicate (name : String) (line : Option Nat) : Finding :=
  finding "_test_rdf" "duplicate_element" ("Duplicate \x60em:" ++ name ++ "\x60 element") line
    ["This element may only appear once in the install manifest."]

/-- The notice for a property that is not understood. -/
def unrecognized (name : String) (line : Option Nat) : Finding :=
  finding "_test_rdf" "unrecognized_element" ("Unrecognized \x60em:" ++ name ++ "\x60 element") line
    ["The element is not part of the install manifest format and is ignored."]

/-- The error for an add-on that hides itself. -/
def hidden (line : Option Nat) : Finding :=
  { finding "_test_rdf" "hidden" "Add-ons may not be hidden" line
      ["\x60em:hidden\x60 hides the add-on from the add-ons manager."] with
    signing := some .medium }

/-- The warning for a property about updates. -/
def update (name : String) (line : Option Nat) : Finding :=
  { finding "_test_rdf" "update_url" ("\x60em:" ++ name ++ "\x60 is not allowed") line
      ["Hosted add-ons are updated by the hosting site."] with signing := some .low }

/-- The error for properties that are missing. -/
def incomplete (names : List String) : Finding :=
  finding "_test_rdf" "missing_addon" "Missing elements in install manifest" none
    ["Some elements required by the install manifest are missing.",
      "Missing elements: " ++ ", ".intercalate names]

@[simp] theorem kind_inj {name other : String} : kind name = kind other ↔ name = other := by
  simp [kind]

section Identifiers

variable (name : String) (line : Option Nat)

@[simp] theorem id_duplicate : (duplicate name line).id = kind "duplicate_element" := rfl

@[simp] theorem id_unrecognized : (unrecognized name line).id = kind "unrecognized_element" := rfl

@[simp] theorem id_hidden : (hidden line).id = kind "hidden" := rfl

@[simp] theorem id_update : (update name line).id = kind "update_url" := rfl

@[simp] theorem id_incomplete (names : List String) :
    (incomplete names).id = kind "missing_addon" := rfl

end Identifiers

/-- A name that is in none of the tables. -/
def isUnknown (name : String) : Bool :=
  !required.contains name && !repeatable.contains name && !known.contains name

/-- The finding about a property that stands there again although it may not. -/
def aboutRepeat (isFirst : Bool) (name : String) (line : Nat) : List (Severity × Finding) :=
  if !isFirst && !repeatable.contains name then [(.error, duplicate name (some line))] else []

/-- The finding about a property that is not understood, where it stands first. -/
def aboutUnknown (isFirst : Bool) (name : String) (line : Nat) : List (Severity × Finding) :=
  if isFirst && isUnknown name then [(.notice, unrecognized name (some line))] else []

/-- The finding about a property that only a host may set. -/
def aboutSpecial (name : String) (line : Nat) : List (Severity × Finding) :=
  if name = "hidden" then [(.error, hidden (some line))]
  else if name = "updateURL" ∨ name = "updateKey" then [(.warning, update name (some line))]
  else []

/-- The findings about a property, which may be the first one with its name. -/
def about (isFirst : Bool) (name : String) (line : Nat) : List (Severity × Finding) :=
  aboutRepeat isFirst name line ++ aboutUnknown isFirst name line ++ aboutSpecial name line

/-- The findings about properties after those with given names. -/
def aboutAll (seen : List String) : List (String × Nat) → List (Severity × Finding)
  | [] => []
  | (name, line) :: rest => about (!seen.contains name) name line ++ aboutAll (name :: seen) rest

theorem recorded_checkRepeated (isFirst : Bool) (name : String) (line : Nat) (b : Bundle) :
    Recorded (aboutRepeat isFirst name line) b (checkRepeated isFirst name line b) := by
  unfold checkRepeated aboutRepeat
  split
  · exact .add rfl ..
  · exact .refl b

theorem recorded_checkKnown (isFirst : Bool) (name : String) (line : Nat) (b : Bundle) :
    Recorded (aboutUnknown isFirst name line) b (checkKnown isFirst name line b) := by
  unfold checkKnown aboutUnknown isUnknown
  simp only [← Bool.and_assoc]
  split
  · exact .add rfl ..
  · exact .refl b

theorem recorded_checkSpecial (name : String) (line : Nat) (b : Bundle) :
    Recorded (aboutSpecial name line) b (checkSpecial name line b) := by
  unfold aboutSpecial
  by_cases isHidden : name = "hidden"
  · subst isHidden
    rw [if_pos rfl]
    exact .add rfl ..
  by_cases isUpdate : name = "updateURL" ∨ name = "updateKey"
  · rw [if_neg isHidden, if_pos isUpdate]
    rcases isUpdate with rfl | rfl <;> exact .add rfl ..
  · have nothing : checkSpecial name line b = b := by
      unfold checkSpecial
      split <;> simp_all
    rw [if_neg isHidden, if_neg isUpdate, nothing]
    exact .refl b

/-- The pass over the statements records what there is to say about each property. -/
theorem recorded_checkProperties (seen : List String) (ts : List Triple) (b : Bundle) :
    Recorded (aboutAll seen (propertiesOf ts)) b (checkProperties seen ts b) := by
  induction ts generalizing seen b with
  | nil => exact .refl b
  | cons t rest ih =>
      rw [checkProperties, propertiesOf, List.filterMap_cons]
      cases Text.dropText? emUri t.predicate with
      | none => exact ih seen b
      | some name =>
          exact (((recorded_checkRepeated ..).trans (recorded_checkKnown ..)).trans
            (recorded_checkSpecial ..)).trans (ih (name :: seen) _)

theorem recorded_checkMissing (g : Graph) (o : Overrides) (b : Bundle) :
    Recorded (if missing g o = [] then [] else [(.error, incomplete (missing g o))])
      b (checkMissing g o b) := by
  unfold checkMissing
  cases missing g o with
  | nil => exact .refl b
  | cons name rest => exact .add rfl ..

/-! ## Findings of one kind -/

section Kinds

variable (s : Severity) (which : String) (isFirst : Bool) (name : String) (line : Nat)

@[simp] theorem pick_aboutRepeat :
    pick s (kind which) (aboutRepeat isFirst name line) =
      if (.error = s ∧ "duplicate_element" = which) ∧ isFirst = false ∧ name ∉ repeatable
      then [duplicate name (some line)] else [] := by
  by_cases here : isFirst = false ∧ name ∉ repeatable <;> simp [aboutRepeat, here]

@[simp] theorem pick_aboutUnknown :
    pick s (kind which) (aboutUnknown isFirst name line) =
      if (.notice = s ∧ "unrecognized_element" = which) ∧ isFirst = true ∧ isUnknown name = true
      then [unrecognized name (some line)] else [] := by
  by_cases here : isFirst = true ∧ isUnknown name = true <;> simp [aboutUnknown, here]

@[simp] theorem pick_aboutSpecial :
    pick s (kind which) (aboutSpecial name line) =
      if (.error = s ∧ "hidden" = which) ∧ name = "hidden" then [hidden (some line)]
      else if (.warning = s ∧ "update_url" = which) ∧ (name = "updateURL" ∨ name = "updateKey")
      then [update name (some line)] else [] := by
  by_cases isHidden : name = "hidden"
  · simp [aboutSpecial, isHidden]
  · by_cases isUpdate : name = "updateURL" ∨ name = "updateKey" <;>
      simp [aboutSpecial, isHidden, isUpdate]

end Kinds

/-- The properties whose names stand before them or are given. -/
def again (seen : List String) : List (String × Nat) → List (String × Nat)
  | [] => []
  | p :: rest => (if seen.contains p.1 then [p] else []) ++ again (p.1 :: seen) rest

/-- With one name, all properties but the first stand there again. -/
theorem filter_again (name : String) (seen : List String) (ps : List (String × Nat)) :
    (again seen ps).filter (·.1 = name) =
      if seen.contains name then ps.filter (·.1 = name) else (ps.filter (·.1 = name)).tail := by
  induction ps generalizing seen with
  | nil => simp [again]
  | cons p rest ih =>
      rw [again, List.filter_append, ih, List.contains_cons]
      by_cases same : p.1 = name
      · subst same
        cases seen.contains p.1 <;> simp
      · have other : (name == p.1) = false := by simpa using Ne.symm same
        cases seen.contains p.1 <;> simp [same, other]

theorem pick_aboutAll_duplicate (seen : List String) (ps : List (String × Nat)) :
    pick .error (kind "duplicate_element") (aboutAll seen ps) =
      ((again seen ps).filter (·.1 ∉ repeatable)).map fun p => duplicate p.1 (some p.2) := by
  induction ps generalizing seen with
  | nil => rfl
  | cons p rest ih =>
      rw [aboutAll, pick_append, ih, again, List.filter_append, List.map_append]
      by_cases before : p.1 ∈ seen <;> by_cases listed : p.1 ∈ repeatable <;>
        simp [about, before, listed]

/-- The first item among those that are kept, and what is left of them without it. -/
theorem eraseDups_filter_cons (keep : String → Bool) (a : String) (list : List String) :
    ((a :: list).filter keep).eraseDups =
      (if keep a then [a] else []) ++ ((list.filter keep).filter fun b => !b == a).eraseDups := by
  cases kept : keep a with
  | true =>
      rw [List.filter_cons_of_pos kept, List.eraseDups_cons]
      rfl
  | false =>
      have others : ((list.filter keep).filter fun b => !b == a) = list.filter keep := by
        refine List.filter_eq_self.2 fun b mem => ?_
        obtain ⟨-, here⟩ := List.mem_filter.1 mem
        have ne : b ≠ a := by
          rintro rfl
          simp [kept] at here
        simpa using ne
      rw [List.filter_cons_of_neg (by simp [kept]), others]
      rfl

/-- Each unknown name is reported where it stands first. -/
theorem pick_aboutAll_unrecognized (seen : List String) (ps : List (String × Nat)) :
    pick .notice (kind "unrecognized_element") (aboutAll seen ps) =
      ((ps.map Prod.fst).filter fun name => !seen.contains name && isUnknown name).eraseDups.map
        fun name => unrecognized name ((ps.find? (·.1 = name)).map Prod.snd) := by
  induction ps generalizing seen with
  | nil => rfl
  | cons p rest ih =>
      -- What comes later is about other names, so the first line with its name is in the rest.
      have others :
          ((rest.map Prod.fst).filter fun name => !(p.1 :: seen).contains name && isUnknown name) =
          ((rest.map Prod.fst).filter fun name => !seen.contains name && isUnknown name).filter
            fun name => !name == p.1 := by
        rw [List.filter_filter]
        congr 1
        funext name
        rw [List.contains_cons, Bool.not_or, Bool.and_assoc]
      have later (names : List String) :
          ((names.filter fun name => !name == p.1).eraseDups.map fun name =>
            unrecognized name (((p :: rest).find? (·.1 = name)).map Prod.snd)) =
          (names.filter fun name => !name == p.1).eraseDups.map fun name =>
            unrecognized name ((rest.find? (·.1 = name)).map Prod.snd) := by
        refine List.map_congr_left fun name mem => ?_
        obtain ⟨-, other⟩ := List.mem_filter.1 (List.mem_eraseDups.1 mem)
        have ne : p.1 ≠ name := fun same => by simp [same] at other
        rw [List.find?_cons_of_neg (by simpa using ne)]
      rw [aboutAll, pick_append, ih, others, ← later, List.map_cons, eraseDups_filter_cons,
        List.map_append]
      congr 1
      by_cases here : p.1 ∉ seen ∧ isUnknown p.1 = true <;> simp [about, here]

/-- Findings of a kind that every property makes by itself, whatever stands before it. -/
theorem pick_aboutAll {s : Severity} {which : String} {keep : String × Nat → Bool}
    {made : String × Nat → Finding} (own : ∀ isFirst p,
      pick s (kind which) (about isFirst p.1 p.2) = if keep p then [made p] else [])
    (seen : List String) (ps : List (String × Nat)) :
    pick s (kind which) (aboutAll seen ps) = (ps.filter keep).map made := by
  induction ps generalizing seen with
  | nil => rfl
  | cons p rest ih =>
      rw [aboutAll, pick_append, ih, own, List.filter_cons]
      cases keep p <;> rfl

theorem pick_aboutAll_hidden (seen : List String) (ps : List (String × Nat)) :
    pick .error (kind "hidden") (aboutAll seen ps) =
      (ps.filter (·.1 = "hidden")).map fun p => hidden (some p.2) := by
  refine pick_aboutAll (fun isFirst p => ?_) seen ps
  by_cases here : p.1 = "hidden" <;> simp [about, here]

theorem pick_aboutAll_update (seen : List String) (ps : List (String × Nat)) :
    pick .warning (kind "update_url") (aboutAll seen ps) =
      (ps.filter fun p => p.1 = "updateURL" ∨ p.1 = "updateKey").map fun p =>
        update p.1 (some p.2) := by
  refine pick_aboutAll (fun isFirst p => ?_) seen ps
  by_cases here : p.1 = "updateURL" ∨ p.1 = "updateKey" <;> simp [about, here]

/-- The pass makes findings of four kinds. -/
theorem pick_aboutAll_other {s : Severity} {which : String}
    (other : (s, which) ∉ [(.error, "duplicate_element"), (.notice, "unrecognized_element"),
      (.error, "hidden"), (.warning, "update_url")]) (seen : List String)
        (ps : List (String × Nat)) :
    pick s (kind which) (aboutAll seen ps) = [] := by
  induction ps generalizing seen with
  | nil => rfl
  | cons p rest ih =>
      simp only [List.mem_cons, Prod.mk.injEq, not_or] at other
      rw [aboutAll, pick_append, ih, about, pick_append, pick_append, pick_aboutRepeat,
        pick_aboutUnknown, pick_aboutSpecial]
      grind

/-! ## Counts and first lines -/

theorem again_sublist (seen : List String) (ps : List (String × Nat)) :
    (again seen ps).Sublist ps := by
  induction ps generalizing seen with
  | nil => exact .slnil
  | cons p rest ih =>
      rw [again]
      split
      · exact (ih _).cons_cons p
      · exact (ih _).cons p

/-- How many properties stand there again: for every name that may not, one less than there are. -/
theorem length_again (ps : List (String × Nat)) :
    ((again [] ps).filter (·.1 ∉ repeatable)).length =
      ∑ name ∈ (ps.map Prod.fst).toFinset with name ∉ repeatable,
        ((ps.map Prod.fst).count name - 1) := by
  let repeats : Multiset String := ((again [] ps).filter (·.1 ∉ repeatable)).map Prod.fst
  have counts (name : String) (free : name ∉ repeatable) :
      repeats.count name = (ps.map Prod.fst).count name - 1 := by
    have single (list : List (String × Nat)) :
        (list.map Prod.fst).count name = (list.filter (·.1 = name)).length := by
      rw [List.count_eq_length_filter, List.filter_map, List.length_map]
      congr 1
    have allowed : ((again [] ps).filter (·.1 ∉ repeatable)).filter (·.1 = name) =
        (again [] ps).filter (·.1 = name) := by
      rw [List.filter_filter]
      refine List.filter_congr fun p _ => ?_
      by_cases here : p.1 = name <;> simp [here, free]
    rw [Multiset.coe_count, single, allowed, filter_again, single]
    simp
  have inside : ∀ name ∈ repeats, name ∈ (ps.map Prod.fst).toFinset.filter (· ∉ repeatable) := by
    intro name mem
    obtain ⟨p, kept, rfl⟩ := List.mem_map.1 (Multiset.mem_coe.1 mem)
    obtain ⟨mem, free⟩ := List.mem_filter.1 kept
    have listed : p ∈ ps := (again_sublist [] ps).subset mem
    exact Finset.mem_filter.2
      ⟨List.mem_toFinset.2 (List.mem_map_of_mem listed), by simpa using free⟩
  calc ((again [] ps).filter (·.1 ∉ repeatable)).length
      = repeats.card := by simp [repeats]
    _ = ∑ name ∈ (ps.map Prod.fst).toFinset with name ∉ repeatable, repeats.count name :=
        (Multiset.sum_count_eq_card inside).symm
    _ = _ := Finset.sum_congr rfl fun name mem => counts name (Finset.mem_filter.1 mem).2

/-- The statements that give the add-on a property. -/
theorem filter_about (g : Graph) (name : String) :
    (g.about installRoot).filter (·.predicate = em name) =
      g.filter fun t => t.subject = installRoot ∧ t.predicate = em name := by
  rw [Graph.about, List.filter_filter]
  refine List.filter_congr fun t _ => ?_
  rw [Bool.and_comm, Bool.decide_and]

/-- The lines of the statements that give the add-on a property. -/
def lines (g : Graph) (name : String) : List Nat :=
  (g.filter fun t => t.subject = installRoot ∧ t.predicate = em name).map (·.line)

theorem filter_propertiesOf (ts : List Triple) (name : String) :
    ((propertiesOf ts).filter (·.1 = name)).map Prod.snd =
      (ts.filter (·.predicate = em name)).map (·.line) := by
  induction ts with
  | nil => rfl
  | cons t rest ih =>
      have named : t.predicate = em name ↔ Text.dropText? emUri t.predicate = some name :=
        Text.dropText?_eq_some_iff.symm
      have first : propertiesOf (t :: rest) =
          ((Text.dropText? emUri t.predicate).map fun name => (name, t.line)).toList ++
            propertiesOf rest := by
        rw [propertiesOf, List.filterMap_cons]
        cases Text.dropText? emUri t.predicate <;> rfl
      rw [first, List.filter_append, List.map_append, ih, List.filter_cons]
      cases found : Text.dropText? emUri t.predicate with
      | none => simp [named, found]
      | some other => by_cases same : other = name <;> simp [named, found, same]

/-- The properties with a name stand where the statements do that give it to the add-on. -/
theorem filter_properties (g : Graph) (name : String) :
    ((properties g).filter (·.1 = name)).map Prod.snd = lines g name := by
  rw [properties, filter_propertiesOf, filter_about, lines]

theorem find?_properties (g : Graph) (name : String) :
    ((properties g).find? (·.1 = name)).map Prod.snd = (lines g name).head? := by
  rw [← filter_properties, List.head?_map, List.head?_filter]

/-! ## Required properties -/

/-- The required properties that the add-on does not have: it is not said, or what is said first is
blank. -/
def lacking (g : Graph) (o : Overrides) : List String :=
  ["id", "version", "name", "targetApplication"].filter fun name =>
    ¬(o.ignoreEmptyName ∧ name = "name") ∧
      (g.find? fun t => t.subject = installRoot ∧ t.predicate = em name).all fun t =>
        Text.isBlankText t.object.text

theorem missing_eq (g : Graph) (o : Overrides) : missing g o = lacking g o := by
  have first (name : String) : g.object? installRoot (em name) =
      (g.find? fun t => t.subject = installRoot ∧ t.predicate = em name).map (·.object) := by
    rw [Graph.object?, Graph.objects, filter_about, List.head?_map, List.head?_filter]
  unfold missing lacking
  refine List.filter_congr fun name _ => ?_
  rw [Graph.literal?, first]
  cases g.find? fun t => t.subject = installRoot ∧ t.predicate = em name with
  | none => simp
  | some t => simp [Text.isEmpty_trim]

/-! ## The whole check -/

/-- What is recorded on the way to a later bundle is not about properties. -/
def Elsewhere (b c : Bundle) : Prop :=
  ∃ findings, Recorded findings b c ∧ ∀ entry ∈ findings, ∀ name, entry.2.id ≠ kind name

namespace Elsewhere

variable {b c d : Bundle}

theorem of_recorded (h : Recorded [] b c) : Elsewhere b c :=
  ⟨[], h, by simp⟩

theorem trans (first : Elsewhere b c) (second : Elsewhere c d) : Elsewhere b d := by
  obtain ⟨findings, recorded, free⟩ := first
  obtain ⟨others, recorded', free'⟩ := second
  refine ⟨findings ++ others, recorded.trans recorded', fun entry mem => ?_⟩
  rcases List.mem_append.1 mem with mem | mem
  · exact free entry mem
  · exact free' entry mem

/-- A finding of another test. -/
theorem add {test : String} (other : test ≠ "_test_rdf") (s : Severity) (name message : String)
    (line : Option Nat) (description : List String) (b : Bundle) :
    Elsewhere b (b.add s (finding test name message line description)) :=
  ⟨_, .add rfl s b, by simp [finding, kind, other]⟩

theorem foldl {α : Type} {step : Bundle → α → Bundle} (each : ∀ b a, Elsewhere b (step b a))
    (list : List α) (b : Bundle) : Elsewhere b (list.foldl step b) := by
  induction list generalizing b with
  | nil => exact of_recorded (.refl b)
  | cons a rest ih => exact (each b a).trans (ih (step b a))

end Elsewhere

theorem elsewhere_checkId (g : Graph) (b : Bundle) : Elsewhere b (checkId g b) := by
  unfold checkId
  split
  · exact .of_recorded (.refl b)
  · split
    · exact .of_recorded (.refl b)
    · exact .add (by decide) ..

theorem elsewhere_checkVersion (g : Graph) (b : Bundle) : Elsewhere b (checkVersion g b) := by
  unfold checkVersion
  split
  · exact .of_recorded (.refl b)
  · split
    · exact .of_recorded (.refl b)
    · exact .add (by decide) ..

theorem elsewhere_checkTargets (g : Graph) (o : Overrides) (b : Bundle) :
    Elsewhere b (checkTargets g o b) := by
  have each (b : Bundle) (t : Target) : Elsewhere b (checkTarget b t) := by
    unfold checkTarget
    split
    · split
      · exact .add (by decide) ..
      · exact .of_recorded (.refl b)
    · exact .add (by decide) ..
  have checked := Elsewhere.foldl each (targets g o) b
  rw [checkTargets]
  split
  · exact checked
  · exact checked.trans (.of_recorded (.setMeta ..))

theorem elsewhere_keepTexts (g : Graph) (b : Bundle) : Elsewhere b (keepTexts g b) := by
  refine Elsewhere.foldl (fun b name => ?_) _ b
  split
  · exact .of_recorded (.setMeta ..)
  · exact .of_recorded (.refl b)

theorem elsewhere_keepBootstrap (g : Graph) (b : Bundle) : Elsewhere b (keepBootstrap g b) := by
  unfold keepBootstrap
  split
  · exact .of_recorded (.share ..)
  · exact .of_recorded (.refl b)

/-- The findings about the properties of an add-on. -/
def aboutAddon (g : Graph) (o : Overrides) : List (Severity × Finding) :=
  aboutAll [] (properties g) ++
    if lacking g o = [] then [] else [(.error, incomplete (lacking g o))]

/-- A manifest with a description of the add-on is checked property by property, and what else is
reported is not about properties. -/
theorem recorded_check (g : Graph) (o : Overrides) (b : Bundle)
    (described : ∃ t ∈ g, t.subject = installRoot) :
    ∃ others, Recorded (aboutAddon g o ++ others) b (check g o b).2 ∧
      ∀ entry ∈ others, ∀ name, entry.2.id ≠ kind name := by
  have root : g.hasSubject installRoot = true := by simpa [Graph.hasSubject] using described
  let checked := checkMissing g o (checkProperties [] (g.about installRoot) b)
  have about : Recorded (aboutAddon g o) b checked :=
    (recorded_checkProperties ..).trans (missing_eq g o ▸ recorded_checkMissing ..)
  obtain ⟨others, recorded, free⟩ : Elsewhere checked (check g o b).2 := by
    rw [check, if_neg (by simp [root])]
    exact ((((elsewhere_checkId ..).trans (elsewhere_checkVersion ..)).trans
      (elsewhere_checkTargets ..)).trans (elsewhere_keepTexts ..)).trans
        (elsewhere_keepBootstrap ..)
  exact ⟨others, about.trans recorded, free⟩

/-- What is recorded about the properties of an add-on on the way to a later bundle. -/
structure PropertiesReported (g : Graph) (o : Overrides) (b c : Bundle) : Prop where
  kept : ∀ s, b.records s <+: c.records s
  /-- Of each name that may not stand there again, all properties but one are duplicates. -/
  duplicates : (reported b c .error (kind "duplicate_element")).length =
    ∑ name ∈ (names g).toFinset with name ∉ repeatable, ((names g).count name - 1)
  duplicateLines : ∀ name ∉ repeatable,
    ((reported b c .error (kind "duplicate_element")).map (fun r => (r.message, r.line))).filter
      (·.1 = (duplicate name none).message) =
        (lines g name).tail.map fun line => ((duplicate name none).message, some line)
  /-- Each name that is in no table is reported once, where it stands first. -/
  unrecognized :
    (reported b c .notice (kind "unrecognized_element")).map (fun r => (r.message, r.line)) =
    ((names g).filter isUnknown).eraseDups.map fun name =>
      ("Unrecognized \x60em:" ++ name ++ "\x60 element", (lines g name).head?)
  hidden : (reported b c .error (kind "hidden")).map (·.line) = (lines g "hidden").map some
  update : (reported b c .warning (kind "update_url")).map (fun r => (r.message, r.line)) =
    ((properties g).filter fun p => p.1 = "updateURL" ∨ p.1 = "updateKey").map fun p =>
      ("\x60em:" ++ p.1 ++ "\x60 is not allowed", some p.2)
  /-- What the add-on lacks is listed in one error, which stands there only if it lacks
  something. -/
  missing : (reported b c .error (kind "missing_addon")).map (·.description) =
    if lacking g o = [] then []
    else [["Some elements required by the install manifest are missing.",
      "Missing elements: " ++ ", ".intercalate (lacking g o)]]
  nothingElse : ∀ s name, reported b c s (kind name) ≠ [] →
    (s, name) ∈ [(.error, "missing_addon"), (.error, "duplicate_element"),
      (.notice, "unrecognized_element"), (.error, "hidden"), (.warning, "update_url")]

theorem pick_aboutAddon {s : Severity} {which : String}
    (other : (s, which) ≠ (.error, "missing_addon")) (g : Graph) (o : Overrides) :
    pick s (kind which) (aboutAddon g o) = pick s (kind which) (aboutAll [] (properties g)) := by
  have neither : ¬(.error = s ∧ "missing_addon" = which) :=
    fun ⟨here, there⟩ => other (by rw [← here, ← there])
  rw [aboutAddon, pick_append]
  cases lacking g o <;> simp [neither]

theorem pick_aboutAddon_missing (g : Graph) (o : Overrides) :
    pick .error (kind "missing_addon") (aboutAddon g o) =
      if lacking g o = [] then [] else [incomplete (lacking g o)] := by
  rw [aboutAddon, pick_append, pick_aboutAll_other (by decide)]
  cases lacking g o <;> simp

/-- Of one name, the properties of an add-on that stand there again are all but the first. -/
theorem filter_duplicates (g : Graph) {name : String} (once : name ∉ repeatable) :
    (((again [] (properties g)).filter (·.1 ∉ repeatable)).map fun p =>
        ((duplicate p.1 none).message, some p.2)).filter (·.1 = (duplicate name none).message) =
      (lines g name).tail.map fun line => ((duplicate name none).message, some line) := by
  have ofName : ((again [] (properties g)).filter (·.1 ∉ repeatable)).filter
      (fun p => (duplicate p.1 none).message = (duplicate name none).message) =
      ((properties g).filter (·.1 = name)).tail := by
    have same (p : String × Nat) : (duplicate p.1 none).message = (duplicate name none).message ↔
        p.1 = name := by
      simp [duplicate, finding]
    have again := filter_again name [] (properties g)
    rw [if_neg (by simp)] at again
    rw [List.filter_filter, ← again]
    refine List.filter_congr fun p _ => ?_
    by_cases here : p.1 = name <;> simp [same, here, once]
  rw [List.filter_map, ← filter_properties, ← List.map_tail, List.map_map]
  simp only [Function.comp_def]
  rw [ofName]
  refine List.map_congr_left fun p mem => ?_
  have here : p.1 = name := by simpa using (List.mem_filter.1 (List.mem_of_mem_tail mem)).2
  rw [here]

/-- The check of an install manifest counts each kind of finding about properties by itself,
whatever the order of the statements. -/
theorem check_reports_properties (g : Graph) (o : Overrides) (b : Bundle)
    (described : ∃ t ∈ g, t.subject = installRoot) : PropertiesReported g o b (check g o b).2 := by
  obtain ⟨others, recorded, free⟩ := recorded_check g o b described
  -- Views of the records of one kind are read off the findings about the add-on.
  have view {β : Type} (s : Severity) (which : String) (view : Record → β)
      (numberless : ∀ r, view r.unnumbered = view r) :
      (reported b (check g o b).2 s (kind which)).map view =
        (pick s (kind which) (aboutAddon g o)).map fun f => view (b.stamp s f) := by
    rw [recorded.map_reported s (kind which) view numberless, pick_append,
      pick_eq_nil fun entry mem => free entry mem which, List.append_nil]
  have duplicates : (reported b (check g o b).2 .error (kind "duplicate_element")).map
      (fun r => (r.message, r.line)) =
        ((again [] (properties g)).filter (·.1 ∉ repeatable)).map fun p =>
          ((duplicate p.1 none).message, some p.2) := by
    rw [view _ _ _ fun _ => rfl, pick_aboutAddon (by decide), pick_aboutAll_duplicate, List.map_map]
    rfl
  constructor
  case kept => exact fun s => recorded.isPrefix s
  case duplicates =>
    have counted := congrArg List.length duplicates
    rw [List.length_map, List.length_map, length_again] at counted
    exact counted
  case duplicateLines =>
    intro name once
    rw [duplicates, filter_duplicates g once]
  case unrecognized =>
    rw [view _ _ _ fun _ => rfl, pick_aboutAddon (by decide),
      pick_aboutAll_unrecognized, List.map_map]
    simp only [← find?_properties]
    rfl
  case hidden =>
    rw [view _ _ _ fun _ => rfl, pick_aboutAddon (by decide), pick_aboutAll_hidden,
      ← filter_properties, List.map_map, List.map_map]
    rfl
  case update =>
    rw [view _ _ _ fun _ => rfl, pick_aboutAddon (by decide), pick_aboutAll_update, List.map_map]
    rfl
  case missing =>
    rw [view _ _ _ fun _ => rfl, pick_aboutAddon_missing]
    cases lacking g o <;> rfl
  case nothingElse =>
    intro s which made
    by_contra unlisted
    obtain ⟨here, other⟩ := not_or.1 (mt List.mem_cons.2 unlisted)
    have unreported := view s which (fun _ => ()) fun _ => rfl
    rw [pick_aboutAddon here, pick_aboutAll_other other] at unreported
    exact made (List.map_eq_nil_iff.1 unreported)

/-- Statements with a name that stands there three times, an unknown name, and a blank version. -/
def sample : Graph :=
  let say (name text : String) (line : Nat) : Triple := ⟨installRoot, em name, .literal text, line⟩
  [say "id" "a@b" 2, say "rating" "5" 3, ⟨"_:b1", em "id", .literal "c@d", 4⟩, say "id" "e@f" 5,
    say "hidden" "true" 6, say "version" " " 7, say "rating" "4" 8, say "developer" "x" 9,
    say "developer" "y" 10, say "updateURL" "z" 11, say "id" "" 12]

theorem check_reports_properties_sample :
    PropertiesReported sample { ignoreEmptyName := true } {}
      (check sample { ignoreEmptyName := true } {}).2 ∧
      ∑ name ∈ (names sample).toFinset with name ∉ repeatable, ((names sample).count name - 1) = 3 ∧
      (lines sample "id").tail = [5, 12] ∧
      ((names sample).filter isUnknown).eraseDups = ["rating"] ∧
      (lines sample "rating").head? = some 3 ∧
      lacking sample { ignoreEmptyName := true } = ["version", "targetApplication"] := by
  have named : names sample = ["id", "rating", "id", "hidden", "version", "rating", "developer",
      "developer", "updateURL", "id"] := by
    have own (name : String) : Text.dropText? emUri (em name) = some name :=
      Text.dropText?_eq_some_iff.2 rfl
    simp [names, properties, propertiesOf, Graph.about, sample, installRoot, own]
  refine ⟨check_reports_properties sample _ {} (by decide +kernel), ?_, by decide +kernel, ?_,
    by decide +kernel, by decide +kernel⟩
  · rw [named]
    decide +kernel
  · rw [named]
    decide +kernel

end Install

end AddonAudit
