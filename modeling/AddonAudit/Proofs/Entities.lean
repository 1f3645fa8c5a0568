import AddonAudit.Check.Markup
import Mathlib.Data.List.Infix

/-!
# Entities are decoded once

The entities of a text are replaced one kind after the other, each in the whole text. This is the
same as one pass from left to right that looks at no character twice. No replacement makes a new
entity: what is put in occurs in no name that is looked for later, and the ampersand, with which
every name starts, is put in last. So a text whose special characters are written as entities is
decoded to itself.
-/

namespace AddonAudit.Text

/-- A name with an ampersand in front, and the character that it stands for. -/
abbrev Entity := List Char × Char

variable {old new cs : List Char}

theorem replaceFrom_skip (skip : Nat) (cs : List Char) :
    replaceFrom old new skip cs = replaceFrom old new 0 (cs.drop skip) := by
  induction cs generalizing skip with
  | nil => rw [List.drop_nil, replaceFrom, replaceFrom]
  | cons c cs ih =>
      cases skip with
      | zero => rfl
      | succ skip => exact ih skip

/-- A text at the front is replaced. -/
theorem replaceFrom_append (nonempty : old ≠ []) (rest : List Char) :
    replaceFrom old new 0 (old ++ rest) = new ++ replaceFrom old new 0 rest := by
  cases old with
  | nil => exact absurd rfl nonempty
  | cons c old =>
      have stands : (c :: old).isPrefixOf (c :: (old ++ rest)) = true :=
        List.isPrefixOf_iff_prefix.2 (List.prefix_append (c :: old) rest)
      rw [List.cons_append, replaceFrom, if_pos stands, replaceFrom_skip, List.length_cons,
        Nat.add_sub_cancel, List.drop_left]

/-- A character stays where the text does not stand. -/
theorem replaceFrom_cons {c : Char} {rest : List Char} (absent : ¬old <+: c :: rest) :
    replaceFrom old new 0 (c :: rest) = c :: replaceFrom old new 0 rest := by
  rw [replaceFrom, if_neg (mt List.isPrefixOf_iff_prefix.1 absent)]

/-- A word stays that has no first character of the text in it. -/
theorem replaceFrom_word {c : Char} {word : List Char} (clean : c ∉ word) (rest : List Char) :
    replaceFrom (c :: old) new 0 (word ++ rest) = word ++ replaceFrom (c :: old) new 0 rest := by
  induction word with
  | nil => rfl
  | cons d word ih =>
      have absent : ¬c :: old <+: d :: (word ++ rest) := fun stands =>
        clean ((List.cons_prefix_cons.1 stands).1 ▸ List.mem_cons_self)
      rw [List.cons_append, replaceFrom_cons absent,
        ih (fun mem => clean (List.mem_cons_of_mem d mem)), List.cons_append]

/-- A word stands at the front after a replacement only if it stood there before, unless it has
something in it that is put in. -/
theorem prefix_of_prefix_replaceFrom {x : Char} {word rest : List Char} (clean : x ∉ word)
    (stands : word <+: replaceFrom old [x] 0 rest) : word <+: rest := by
  induction word generalizing rest with
  | nil => exact List.nil_prefix
  | cons d word ih =>
      cases rest with
      | nil =>
          rw [replaceFrom] at stands
          exact stands
      | cons c rest =>
          rw [replaceFrom] at stands
          split at stands
          · -- the front was put in
            rw [List.singleton_append] at stands
            exact absurd (List.cons_prefix_cons.1 stands).1
              (fun same => clean (same ▸ List.mem_cons_self))
          · obtain ⟨rfl, later⟩ := List.cons_prefix_cons.1 stands
            exact List.cons_prefix_cons.2
              ⟨rfl, ih (fun mem => clean (List.mem_cons_of_mem d mem)) later⟩

end AddonAudit.Text

namespace AddonAudit.Markup

open Text

/-- The entities that are known. -/
def entities : List Entity :=
  [("&quot;".toList, '"'), ("&apos;".toList, '\''), ("&lt;".toList, '<'), ("&gt;".toList, '>'),
    ("&amp;".toList, '&')]

/-- One pass over a text. Where an entity stands its character is put in, and the pass goes on
behind it. -/
def decodeOnce (table : List Entity) (cs : List Char) : List Char :=
  match cs with
  | [] => []
  | c :: rest =>
    match table.find? fun e => e.1.isPrefixOf (c :: rest) with
    | some e => e.2 :: decodeOnce table (rest.drop (e.1.length - 1))
    | none => c :: decodeOnce table rest
termination_by cs.length
decreasing_by
  all_goals
    simp only [List.length_drop, List.length_cons]
    omega

/-- Replace the entities of a table one kind after the other. -/
def decodeEach (table : List Entity) (cs : List Char) : List Char :=
  table.foldl (fun cs e => replaceFrom e.1 [e.2] 0 cs) cs

theorem decodeEach_nil (table : List Entity) : decodeEach table [] = [] := by
  induction table with
  | nil => rfl
  | cons e table ih => exact ih

theorem decodeEntities_eq_decodeEach (cs : List Char) :
    decodeEntities cs = decodeEach entities cs := rfl

/-- A name starts with an ampersand and has no other one. -/
def IsName (name : List Char) : Prop :=
  name.head? = some '&' ∧ '&' ∉ name.tail

/-- Two entities do not start alike, and what is put in for the first is not in the second. -/
def Apart (e f : Entity) : Prop :=
  ¬e.1 <+: f.1 ∧ ¬f.1 <+: e.1 ∧ e.2 ∉ f.1

/-- A table whose entities do not get in each other's way. -/
structure Separate (table : List Entity) : Prop where
  names : ∀ e ∈ table, IsName e.1
  apart : table.Pairwise Apart

instance (name : List Char) : Decidable (IsName name) :=
  inferInstanceAs (Decidable (_ ∧ _))

instance (e f : Entity) : Decidable (Apart e f) :=
  inferInstanceAs (Decidable (_ ∧ _ ∧ _))

theorem entities_separate : Separate entities where
  names := by decide
  apart := by decide

theorem IsName.exists_eq {name : List Char} (h : IsName name) :
    ∃ word, name = '&' :: word ∧ '&' ∉ word := by
  obtain ⟨word, rfl⟩ := List.head?_eq_some_iff.1 h.1
  exact ⟨word, rfl, h.2⟩

/-- Another entity stays at the front. -/
theorem replaceFrom_of_apart {e f : Entity} (isName : IsName e.1) (other : IsName f.1)
    (apart : ¬e.1 <+: f.1 ∧ ¬f.1 <+: e.1) (new rest : List Char) :
    replaceFrom e.1 new 0 (f.1 ++ rest) = f.1 ++ replaceFrom e.1 new 0 rest := by
  obtain ⟨word, same, -⟩ := isName.exists_eq
  obtain ⟨word', same', clean⟩ := other.exists_eq
  have absent : ¬e.1 <+: '&' :: (word' ++ rest) := by
    intro stands
    have both : f.1 <+: '&' :: (word' ++ rest) := by
      rw [same', ← List.cons_append]
      exact List.prefix_append _ _
    rcases List.prefix_or_prefix_of_prefix stands both with inside | inside
    · exact apart.1 inside
    · exact apart.2 inside
  rw [same', List.cons_append, replaceFrom_cons absent, same, replaceFrom_word clean,
    List.cons_append]

namespace Separate

variable {table : List Entity} {e : Entity}

theorem tail (h : Separate (e :: table)) : Separate table :=
  ⟨fun f mem => h.names f (List.mem_cons_of_mem e mem), (List.pairwise_cons.1 h.apart).2⟩

theorem head (h : Separate (e :: table)) : ∀ f ∈ table, Apart e f :=
  (List.pairwise_cons.1 h.apart).1

/-- Where no entity stands the front is kept. -/
theorem decodeEach_cons (h : Separate table) {c : Char} {rest : List Char}
    (nowhere : ∀ e ∈ table, ¬e.1 <+: c :: rest) :
    decodeEach table (c :: rest) = c :: decodeEach table rest := by
  induction table generalizing rest with
  | nil => rfl
  | cons e table ih =>
      have absent : ¬e.1 <+: c :: rest := nowhere e List.mem_cons_self
      have still : ∀ f ∈ table, ¬f.1 <+: c :: replaceFrom e.1 [e.2] 0 rest := by
        intro f mem stands
        obtain ⟨word, same, -⟩ := (h.names f (List.mem_cons_of_mem e mem)).exists_eq
        have clean := (h.head f mem).2.2
        rw [same] at stands clean
        obtain ⟨first, later⟩ := List.cons_prefix_cons.1 stands
        refine nowhere f (List.mem_cons_of_mem e mem) ?_
        rw [same]
        exact List.cons_prefix_cons.2
          ⟨first,
            prefix_of_prefix_replaceFrom (fun mem => clean (List.mem_cons_of_mem _ mem)) later⟩
      rw [decodeEach, List.foldl_cons, replaceFrom_cons absent]
      exact ih h.tail still

/-- Where an entity stands its character is put in. -/
theorem decodeEach_append (h : Separate table) (mem : e ∈ table) (rest : List Char) :
    decodeEach table (e.1 ++ rest) = e.2 :: decodeEach table rest := by
  induction table generalizing rest with
  | nil => cases mem
  | cons f table ih =>
      have isName := h.names f List.mem_cons_self
      rw [decodeEach, List.foldl_cons]
      rcases List.mem_cons.1 mem with rfl | later
      · obtain ⟨word, same, -⟩ := isName.exists_eq
        have absent : ∀ g ∈ table, ¬g.1 <+: e.2 :: replaceFrom e.1 [e.2] 0 rest := by
          intro g mem stands
          obtain ⟨word', same', -⟩ := (h.names g (List.mem_cons_of_mem e mem)).exists_eq
          rw [same'] at stands
          refine (h.head g mem).2.2 ?_
          rw [same', ← (List.cons_prefix_cons.1 stands).1]
          exact List.mem_cons_self
        rw [replaceFrom_append (by rw [same]; exact List.cons_ne_nil _ _)]
        exact h.tail.decodeEach_cons absent
      · have apart := h.head e later
        rw [replaceFrom_of_apart isName (h.names e mem) ⟨apart.1, apart.2.1⟩]
        exact ih h.tail later _

/-- Replacing one kind of entity after the other is one pass over the text. -/
theorem decodeEach_eq_decodeOnce (h : Separate table) (cs : List Char) :
    decodeEach table cs = decodeOnce table cs := by
  fun_induction decodeOnce table cs with
  | case1 => exact decodeEach_nil table
  | case2 c rest e found ih =>
      have mem := List.mem_of_find?_eq_some found
      have atFront := List.find?_some found
      obtain ⟨word, same, -⟩ := (h.names e mem).exists_eq
      obtain ⟨behind, whole⟩ := List.isPrefixOf_iff_prefix.1 atFront
      have rest_eq : rest.drop (e.1.length - 1) = behind := by
        rw [same, List.cons_append] at whole
        rw [← (List.cons.inj whole).2, same, List.length_cons, Nat.add_sub_cancel, List.drop_left]
      rw [← ih, rest_eq, ← whole]
      exact h.decodeEach_append mem behind
  | case3 c rest found ih =>
      have absent : ∀ e ∈ table, ¬e.1 <+: c :: rest := fun e mem stands =>
        List.find?_eq_none.1 found e mem (List.isPrefixOf_iff_prefix.2 stands)
      rw [h.decodeEach_cons absent, ih]

end Separate

/-- A character as it is written in a text with entities. -/
def escapedChar (c : Char) : List Char :=
  ((entities.find? (·.2 = c)).map Prod.fst).getD [c]

/-- A text with its special characters written as entities. -/
def escaped (cs : List Char) : List Char :=
  cs.flatMap escapedChar

theorem escapedChar_cases (c : Char) :
    (∃ e ∈ entities, e.2 = c ∧ escapedChar c = e.1) ∨ c ≠ '&' ∧ escapedChar c = [c] := by
  rw [escapedChar]
  cases found : entities.find? (·.2 = c) with
  | some e =>
      refine .inl ⟨e, List.mem_of_find?_eq_some found, ?_, rfl⟩
      simpa using List.find?_some found
  | none =>
      refine .inr ⟨?_, rfl⟩
      rintro rfl
      cases found

/-- Escaped text is decoded to what it was. -/
theorem decodeEach_escaped (cs : List Char) : decodeEach entities (escaped cs) = cs := by
  induction cs with
  | nil => exact decodeEach_nil entities
  | cons c cs ih =>
      rw [escaped, List.flatMap_cons, ← escaped]
      rcases escapedChar_cases c with ⟨e, mem, stands, name⟩ | ⟨other, plain⟩
      · rw [name, entities_separate.decodeEach_append mem, ih, stands]
      · have absent : ∀ e ∈ entities, ¬e.1 <+: c :: escaped cs := by
          intro e mem stands
          obtain ⟨word, same, -⟩ := (entities_separate.names e mem).exists_eq
          rw [same] at stands
          exact other (List.cons_prefix_cons.1 stands).1.symm
        rw [plain, List.singleton_append, entities_separate.decodeEach_cons absent, ih]

/-- Decoding the entities one kind after the other is one pass over the text that never looks at
what it has put in, and it undoes the escaping of the special characters. -/
theorem entities_decoded_once :
    (∀ cs, decodeEntities cs = decodeOnce entities cs) ∧
    ∀ cs, decodeEntities (escaped cs) = cs := by
  refine ⟨fun cs => ?_, fun cs => ?_⟩
  · rw [decodeEntities_eq_decodeEach, entities_separate.decodeEach_eq_decodeOnce]
  · rw [decodeEntities_eq_decodeEach, decodeEach_escaped]

example : decodeEntities "&amp;lt;&lt&amp;amp;".toList = "&lt;&lt&amp;".toList := by decide

end AddonAudit.Markup
