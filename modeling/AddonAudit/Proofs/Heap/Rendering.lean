import AddonAudit.Proofs.Heap
import Mathlib.Data.Finset.Card
import Mathlib.Data.Finset.Range

/-!
# Rendering objects that contain themselves

A rendering marks the objects that it is inside of and clears the marks on its way out. Here the
texts are described without marks: a rendering that is given the set of the objects on the path to a
value, and passes a larger set to the values inside. An object on its own path is cut, while an
object that is reached on several paths has its text in each place. There is no text if a handle on
the way belongs to no object.

In a heap that was built step by step there always is a text, the marked rendering finds it however
the objects refer to each other, and all marks are clear again at the end.
-/

namespace AddonAudit.Script

/-- Whether a value is null or undefined. -/
def Value.isNullish (v : Value) : Bool :=
  match v.content with
  | .literal l => l.isNullish
  | _ => false

namespace Heap

/-- How many objects are not on a path. -/
def offPath (h : Heap) (path : Finset ObjectId) : Nat :=
  (Finset.range h.size \ path).card

/-- Entering an object leaves fewer objects to enter. -/
theorem offPath_insert_lt {h : Heap} {path : Finset ObjectId} {id : ObjectId} (inside : id < h.size)
    (fresh : id ∉ path) : h.offPath (insert id path) < h.offPath path := by
  have mem : id ∈ Finset.range h.size \ path :=
    Finset.mem_sdiff.2 ⟨Finset.mem_range.2 inside, fresh⟩
  rw [offPath, Finset.sdiff_insert]
  exact Finset.card_erase_lt_of_mem mem

/-- The text of a value. Elements that are null or undefined leave a gap, and so does an array that
is met inside of itself. -/
def textOn? (h : Heap) (path : Finset ObjectId) (v : Value) : Option String :=
  match v.content with
  | .literal l => some l.toText
  | .unknown => some "[object Object]"
  | .object id =>
    if _ : id < h.size then
      match (h.get id).elements with
      | none => some "[object Object]"
      | some elements =>
        if _ : id ∈ path then some ""
        else do
          let texts ← elements.toList.mapM fun e =>
            if e.isNullish then some "" else h.textOn? (insert id path) e
          return ",".intercalate texts
    else none
termination_by h.offPath path
decreasing_by exact offPath_insert_lt ‹_› ‹_›

/-- A value in full. -/
def displayOn? (h : Heap) (path : Finset ObjectId) (v : Value) : Option String :=
  match v.content with
  | .unknown => some "<dirty>"
  | .literal (.string s) => some (Text.quoted s)
  | .literal l => some l.toText
  | .object id =>
    if _ : id < h.size then
      if _ : id ∈ path then some "<recursion>"
      else do
        let o := h.get id
        let items ← (o.elements.getD #[]).toList.mapM fun e => h.displayOn? (insert id path) e
        let properties ← o.properties.mapM fun entry => do
          return entry.1 ++ ": " ++ (← h.displayOn? (insert id path) entry.2)
        let body := ", ".intercalate (items ++ properties)
        return if o.elements.isSome then "[" ++ body ++ "]" else "\x7b" ++ body ++ "\x7d"
    else none
termination_by h.offPath path
decreasing_by all_goals exact offPath_insert_lt ‹_› ‹_›

end Heap

theorem Marks.clear_cons {id : ObjectId} {marks : Marks} (fresh : id ∉ marks) :
    Marks.clear id (id :: marks) = marks := by
  have others : ∀ other ∈ marks, decide (other ≠ id) = true := by
    rintro other mem
    exact decide_eq_true fun same => fresh (same ▸ mem)
  rw [Marks.clear, List.filter_cons_of_neg (by simp), List.filter_eq_self.2 others]

/-- Steps that leave the marks as they find them render every item by itself. -/
theorem renderAll_eq {α : Type} {step : Marks → α → String × Marks} {text? : α → Option String}
    {items : List α} {marks : Marks}
    (each : ∀ a ∈ items, ∃ text, text? a = some text ∧ step marks a = (text, marks)) :
    ∃ texts, items.mapM text? = some texts ∧ renderAll step items marks = (texts, marks) := by
  induction items with
  | nil => exact ⟨[], rfl, rfl⟩
  | cons a rest ih =>
      obtain ⟨⟨text, own, stepped⟩, tail⟩ := List.forall_mem_cons.1 each
      obtain ⟨texts, others, rendered⟩ := ih tail
      refine ⟨text :: texts, ?_, ?_⟩
      · rw [List.mapM_cons, own, others]
        rfl
      · simp only [renderAll, stepped, rendered]

/-- The same for items with names in front. -/
theorem renderAll_named {step : Marks → Value → String × Marks} {text? : Value → Option String}
    {entries : Properties} {marks : Marks}
    (each : ∀ entry ∈ entries, ∃ text,
      text? entry.2 = some text ∧ step marks entry.2 = (text, marks)) :
    ∃ texts, (entries.mapM fun entry => do return entry.1 ++ ": " ++ (← text? entry.2)) =
      some texts ∧
      renderAll (fun marks entry => (entry.1 ++ ": " ++ (step marks entry.2).1,
        (step marks entry.2).2)) entries marks = (texts, marks) := by
  refine renderAll_eq fun entry mem => ?_
  obtain ⟨text, own, stepped⟩ := each entry mem
  exact ⟨entry.1 ++ ": " ++ text, by rw [own]; rfl, by rw [stepped]⟩

namespace Heap

variable {h : Heap} {v : Value} {id : ObjectId} {marks : Marks} {fuel : Nat}

/-- Entering an object of the heap uses up fuel, and there is some left. -/
theorem offPath_mark (inside : id < h.size) (fresh : id ∉ marks)
    (enough : h.offPath marks.toFinset ≤ fuel) :
    ∃ left, fuel = left + 1 ∧ h.offPath (List.toFinset (id :: marks)) ≤ left := by
  have fewer := offPath_insert_lt inside (fresh ∘ List.mem_toFinset.1)
  rw [List.toFinset_cons]
  exact ⟨fuel - 1, by omega, by omega⟩

/-- With as much fuel as there are objects off the path, joining finds the text of the path and
leaves the marks as they were. -/
theorem joinText_eq (every : h.Every h.Knows) (known : h.Knows v)
    (enough : h.offPath marks.toFinset ≤ fuel) :
    ∃ text, (if v.isNullish then some "" else h.textOn? marks.toFinset v) = some text ∧
      h.joinText fuel marks v = (text, marks) := by
  -- Only an array off the path is entered, so that is the only place where there must be fuel left.
  induction fuel using Nat.strongRecOn generalizing marks v with
  | _ fuel ih =>
      unfold Value.isNullish joinText textOn?
      cases content : v.content with
      | unknown => exact ⟨_, rfl, rfl⟩
      | literal l => cases l <;> exact ⟨_, rfl, rfl⟩
      | object id =>
          have inside : id < h.size := known.inside content
          simp only [dif_pos inside, Bool.false_eq_true, if_false, List.contains_eq_mem,
            decide_eq_true_eq]
          cases array : (h.get id).elements with
          | none => exact ⟨_, rfl, rfl⟩
          | some elements =>
              by_cases met : id ∈ marks
              · exact ⟨"", dif_pos (List.mem_toFinset.2 met), if_pos met⟩
              · obtain ⟨left, rfl, deepEnough⟩ := offPath_mark inside met enough
                have each : ∀ e ∈ elements.toList, ∃ text,
                    (if e.isNullish then some "" else h.textOn? (insert id marks.toFinset) e) =
                        some text ∧
                      h.joinText left (id :: marks) e = (text, id :: marks) := by
                  intro e mem
                  have known :=
                    (every.get id).elements elements array e (Array.mem_toList_iff.1 mem)
                  rw [← List.toFinset_cons]
                  exact ih left (Nat.lt_succ_self left) known deepEnough
                obtain ⟨texts, mapped, rendered⟩ := renderAll_eq each
                simp only [dif_neg (met ∘ List.mem_toFinset.1), mapped, if_neg met, rendered,
                  Marks.clear_cons met]
                exact ⟨_, rfl, rfl⟩

/-- The same for a value in full. -/
theorem displayText_eq (every : h.Every h.Knows) (known : h.Knows v)
    (enough : h.offPath marks.toFinset ≤ fuel) :
    ∃ text, h.displayOn? marks.toFinset v = some text ∧
      h.displayText fuel marks v = (text, marks) := by
  induction fuel using Nat.strongRecOn generalizing marks v with
  | _ fuel ih =>
      unfold displayText displayOn?
      cases content : v.content with
      | unknown => exact ⟨_, rfl, rfl⟩
      | literal l => cases l <;> exact ⟨_, rfl, rfl⟩
      | object id =>
          have inside : id < h.size := known.inside content
          simp only [dif_pos inside, List.contains_eq_mem, decide_eq_true_eq]
          by_cases met : id ∈ marks
          · exact ⟨"<recursion>", dif_pos (List.mem_toFinset.2 met), if_pos met⟩
          · obtain ⟨left, rfl, deepEnough⟩ := offPath_mark inside met enough
            have deeper : ∀ e, h.Knows e → ∃ text,
                h.displayOn? (insert id marks.toFinset) e = some text ∧
                  h.displayText left (id :: marks) e = (text, id :: marks) := by
              intro e known
              rw [← List.toFinset_cons]
              exact ih left (Nat.lt_succ_self left) known deepEnough
            have object := every.get id
            -- Every step gives the marks back, so the properties start from the marks of the items.
            obtain ⟨items, itemTexts, itemsRendered⟩ :=
              renderAll_eq fun e mem => deeper e (object.items e mem)
            obtain ⟨entries, entryTexts, entriesRendered⟩ :=
              renderAll_named fun entry mem => deeper entry.2 (object.properties entry mem)
            simp only [dif_neg (met ∘ List.mem_toFinset.1), itemTexts, entryTexts, if_neg met,
              itemsRendered, entriesRendered, Marks.clear_cons met]
            exact ⟨_, rfl, rfl⟩

/-- On the empty path, as much fuel is enough as there are objects. -/
theorem offPath_nil (enough : h.size ≤ fuel) : h.offPath ([] : Marks).toFinset ≤ fuel := by
  rw [List.toFinset_nil, offPath, Finset.sdiff_empty, Finset.card_range]
  exact enough

theorem textOn?_toText (every : h.Every h.Knows) (known : h.Knows v) :
    h.textOn? ∅ v = some (h.toText v) := by
  cases content : v.content with
  | literal l => rw [textOn?, toText, content]
  | object _ | unknown =>
      obtain ⟨text, found, joined⟩ := joinText_eq every known (offPath_nil (Nat.le_succ h.size))
      rw [Value.isNullish, content] at found
      rw [toText, content]
      exact found.trans (congrArg (some ·.1) joined.symm)

theorem displayOn?_display (every : h.Every h.Knows) (known : h.Knows v) :
    h.displayOn? ∅ v = some (h.display v) := by
  obtain ⟨text, found, displayed⟩ := displayText_eq every known (offPath_nil (Nat.le_succ h.size))
  exact found.trans (congrArg (some ·.1) displayed.symm)

/-- In a heap that was built step by step, every value has a text and can be displayed, whatever
cycles there are and however objects are shared. The texts are those of the renderings that carry
the path. They are found with every amount of fuel that is not below the number of objects, and no
object is marked at the end. -/
theorem rendering_by_path (h : Heap) (v : Value) (fuel : Nat) (reached : h.Reached)
    (known : h.Knows v) (enough : h.size ≤ fuel) :
    h.textOn? ∅ v = some (h.toText v) ∧ h.displayOn? ∅ v = some (h.display v) ∧
      h.joinText fuel [] v = (if v.isNullish then "" else h.toText v, []) ∧
      h.displayText fuel [] v = (h.display v, []) := by
  have every := reached.every
  have text := textOn?_toText every known
  have full := displayOn?_display every known
  refine ⟨text, full, ?_, ?_⟩
  · obtain ⟨joined, found, joins⟩ := joinText_eq every known (offPath_nil enough)
    rw [List.toFinset_nil, text, ← apply_ite some] at found
    rw [joins, Option.some.inj found]
  · obtain ⟨displayed, found, displays⟩ := displayText_eq every known (offPath_nil enough)
    rw [displays, Option.some.inj (found.symm.trans full)]

/-- An array that holds another array twice, itself, and an object that leads back to it. -/
def knotted : Heap :=
  let h := ({} : Heap).newArray #[.string "a"] |>.2
  let h := h.newArray #[.object 0, .object 0] |>.2
  let h := h.newObject.2
  let h := h.set 1 "2" (.object 1)
  let h := h.set 2 "up" (.object 1)
  h.set 1 "3" (.object 2)

theorem knotted_reached : knotted.Reached := by
  have pair :
      Reached ((({} : Heap).newArray #[.string "a"]).2.newArray #[.object 0, .object 0]).2 :=
    .newArray (.newArray .empty (by decide)) (by decide)
  refine ((pair.newObject.set "2" ?_ ?_).set "up" ?_ ?_).set "3" ?_ ?_
  all_goals decide +kernel

theorem rendering_by_path_knotted :
    knotted.Reached ∧ knotted.Knows (.object 1) ∧ knotted.size ≤ 3 ∧
      knotted.textOn? ∅ (.object 1) = some "a,a,,[object Object]" ∧
      knotted.displayOn? ∅ (.object 1) =
        some "[[\"a\"], [\"a\"], <recursion>, \x7bup: <recursion>\x7d]" ∧
      knotted.joinText 3 [] (.object 1) = ("a,a,,[object Object]", []) ∧
      (knotted.displayText 3 [] (.object 1)).2 = [] := by
  have known : knotted.Knows (.object 1) := .object (by decide +kernel)
  have enough : knotted.size ≤ 3 := by decide +kernel
  have text : knotted.toText (.object 1) = "a,a,,[object Object]" := by decide +kernel
  have full : knotted.display (.object 1) =
      "[[\"a\"], [\"a\"], <recursion>, \x7bup: <recursion>\x7d]" := by decide +kernel
  obtain ⟨texts, displays, joins, clear⟩ :=
    rendering_by_path knotted (.object 1) 3 knotted_reached known enough
  rw [text] at texts joins
  rw [full] at displays clear
  exact ⟨knotted_reached, known, enough, texts, displays, joins, congrArg Prod.snd clear⟩

end Heap

end AddonAudit.Script
