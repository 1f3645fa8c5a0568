import AddonAudit.Proofs.Heap
import AddonAudit.Proofs.Numeral
import Mathlib.Data.List.Nodup

/-!
# Reading what was written

An array keeps some names apart: `length` and the names that stand for an index belong to its
elements, all others to its properties. A store may cut the elements, fill them up with undefined
values, or be ignored. One equation on the elements says which of this happens, position by
position, and what is read after a store follows from it, for every heap that operations build and
for all names.
-/

namespace AddonAudit

namespace Script

/-- The text of a number that fits stands for the number. -/
theorem arrayIndex?_toString {index : Nat} (fits : index < Number.twoTo 64) :
    arrayIndex? (toString index) = some index := by
  have text : (toString index).toList = Nat.toDigits 10 index := by simp
  have digits : ∀ c ∈ Nat.toDigits 10 index, c.isDigit = true := fun c mem =>
    Nat.isDigit_of_mem_toDigits (by decide) (by decide) mem
  have read : Number.natural? 10 (Number.twoTo 64) (Nat.toDigits 10 index) = some index := by
    have numeral := Number.isNumeral_toDigits (by decide : 1 < 10) (by decide) index
    rw [numeral.natural? (by decide) (by decide), if_pos fits]
  rw [arrayIndex?, text]
  unfold Number.signedNatural?
  split
  next plus => exact absurd (digits '+' (plus ▸ List.mem_cons_self)) (by decide)
  · exact read

theorem arrayIndex?_length : arrayIndex? "length" = none := by
  decide +kernel

/-- The names that belong to the elements of an array. -/
def Reserved (name : String) : Prop :=
  name = "length" ∨ (arrayIndex? name).isSome = true

theorem Reserved.index {name : String} {index : Nat} (parsed : arrayIndex? name = some index) :
    Reserved name :=
  .inr (parsed ▸ rfl)

theorem ne_length_of_arrayIndex? {name : String} {index : Nat}
    (parsed : arrayIndex? name = some index) : name ≠ "length" := by
  rintro rfl
  rw [arrayIndex?_length] at parsed
  cases parsed

theorem Properties.isSome_find?_of_mem_names {name : String} {l : Properties}
    (mem : name ∈ l.names) : (l.find? name).isSome = true := by
  induction l with
  | nil => cases mem
  | cons entry rest ih =>
      rw [Properties.find?]
      split
      · rfl
      next different =>
        exact ih ((List.mem_cons.1 mem).resolve_left fun same => different same.symm)

theorem size_resize (elements : Array Value) (size : Nat) : (resize elements size).size = size := by
  unfold resize
  split
  next cut => simp [cut]
  · rw [Array.size_append, Array.size_replicate]
    omega

theorem getElem?_resize (elements : Array Value) (size i : Nat) :
    (resize elements size)[i]? =
      if i < size then some (elements[i]?.getD .undefined) else none := by
  unfold resize
  split
  next cut =>
      have taken : (elements.take size)[i]? = if i < size then elements[i]? else none := by
        simp [Array.getElem?_extract, cut]
      rw [taken]
      refine ite_congr rfl (fun inside => ?_) fun _ => rfl
      rw [Array.getElem?_eq_getElem (Nat.lt_of_lt_of_le inside cut), Option.getD_some]
  next grow =>
      rw [Array.getElem?_append]
      split
      next old => rw [if_pos (by omega), Array.getElem?_eq_getElem old, Option.getD_some]
      next new =>
          rw [Array.getElem?_replicate, Array.getElem?_eq_none (by omega), Option.getD_none]
          exact if_congr (by omega) rfl rfl

/-- An array that has the length already is not changed. -/
theorem resize_size (elements : Array Value) : resize elements elements.size = elements := by
  simp [resize]

namespace Object

/-- The name is that of an ordinary property: it does not belong to the elements of an array. -/
def IsProperty (o : Object) (name : String) : Prop :=
  o.elements.isSome = true → ¬Reserved name

/-- The elements are not too many, and the names of the properties are distinct and none of them
belongs to the elements. -/
structure Sound (o : Object) : Prop where
  bounded : ∀ elements, o.elements = some elements → elements.size ≤ maxArrayLength
  property : ∀ name ∈ o.properties.names, o.IsProperty name
  distinct : o.properties.names.Nodup

/-- The length that a value gives to an array: its integer part within the bounds, if it is
known. -/
def lengthFrom (elements : Array Value) (v : Value) : Nat :=
  match v.content with
  | .literal l => min (Number.toInt64 l.toNumber).toNat maxArrayLength
  | _ => elements.size

/-- The number of elements of an array after a value is stored in it. -/
def lengthAfter (elements : Array Value) (name : String) (v : Value) : Nat :=
  if name = "length" then lengthFrom elements v
  else match arrayIndex? name with
    | some index => if index < maxArrayLength then max elements.size (index + 1) else elements.size
    | none => elements.size

/-- The elements of an array after a value is stored in it. -/
def elementsAfter (elements : Array Value) (name : String) (v : Value) : Array Value :=
  if name = "length" then setLength elements v
  else match arrayIndex? name with
    | some index => setElement elements index v
    | none => elements

variable {o : Object} {elements : Array Value} {name other : String} {v : Value} {index : Nat}

/-! ## Names of elements and names of properties -/

theorem get?_length (array : o.elements = some elements) :
    o.get? "length" = some (.number (Float.ofNat elements.size)) := by
  rw [get?, array]
  exact if_pos rfl

theorem get?_index (array : o.elements = some elements) (parsed : arrayIndex? name = some index) :
    o.get? name = some (elements[index]?.getD {}) := by
  simp only [get?, array, if_neg (ne_length_of_arrayIndex? parsed), parsed]

theorem get?_property (property : o.IsProperty name) : o.get? name = o.properties.find? name := by
  cases array : o.elements with
  | none => rw [get?, array]
  | some elements =>
      obtain ⟨noLength, noIndex⟩ := not_or.1 (property (array ▸ rfl))
      have parsed : arrayIndex? name = none := by simpa using noIndex
      simp only [get?, array, if_neg noLength, parsed]

theorem set_property (property : o.IsProperty name) :
    o.set name v = { o with properties := o.properties.store name v } := by
  cases array : o.elements with
  | none => rw [set, array]
  | some elements =>
      obtain ⟨noLength, noIndex⟩ := not_or.1 (property (array ▸ rfl))
      have parsed : arrayIndex? name = none := by simpa using noIndex
      simp only [set, array, if_neg noLength, parsed]

theorem set_reserved (array : o.elements = some elements) (reserved : Reserved name) :
    o.set name v = { o with elements := some (elementsAfter elements name v) } := by
  rcases reserved with rfl | parsed
  · simp only [set, array, elementsAfter, if_true]
  · obtain ⟨index, parsed⟩ := Option.isSome_iff_exists.1 parsed
    simp only [set, array, elementsAfter, if_neg (ne_length_of_arrayIndex? parsed), parsed]

theorem elements_set (array : o.elements = some elements) :
    (o.set name v).elements = some (elementsAfter elements name v) := by
  by_cases reserved : Reserved name
  · rw [set_reserved array reserved]
  · obtain ⟨noLength, noIndex⟩ := not_or.1 reserved
    have parsed : arrayIndex? name = none := by simpa using noIndex
    rw [set_property fun _ => reserved]
    simp only [elementsAfter, if_neg noLength, parsed, array]

theorem isSome_elements_set : (o.set name v).elements.isSome = o.elements.isSome := by
  cases array : o.elements with
  | none => rw [set_property fun isArray => by simp [array] at isArray, array]
  | some elements => rw [elements_set array]; rfl

/-- Storing does not change which names are those of properties. -/
theorem isProperty_set : (o.set name v).IsProperty other ↔ o.IsProperty other := by
  rw [IsProperty, IsProperty, isSome_elements_set]

/-! ## The elements after a store -/

theorem setLength_eq : setLength elements v = resize elements (lengthFrom elements v) := by
  unfold setLength lengthFrom
  cases v.content with
  | literal l => rfl
  | unknown => exact (resize_size elements).symm
  | object id => exact (resize_size elements).symm

theorem setElement_of_lt (small : index < maxArrayLength) :
    setElement elements index v =
      (resize elements (max elements.size (index + 1))).setIfInBounds index v := by
  rw [setElement, if_neg (Nat.not_le.2 small)]
  split
  next outside => rw [Nat.max_eq_right (Nat.le_succ_of_le outside)]
  next inside => rw [Nat.max_eq_left (Nat.lt_of_not_le inside), resize_size]

theorem setElement_of_le (large : maxArrayLength ≤ index) :
    setElement elements index v = elements :=
  if_pos large

theorem size_elementsAfter :
    (elementsAfter elements name v).size = lengthAfter elements name v := by
  unfold elementsAfter lengthAfter
  split
  · rw [setLength_eq, size_resize]
  · split
    next index _ =>
        split
        next small => rw [setElement_of_lt small, Array.size_setIfInBounds, size_resize]
        next large => rw [setElement_of_le (Nat.le_of_not_lt large)]
    · rfl

/-- Every element is the value that is stored under its index, or else what was there; where nothing
was, it is undefined. -/
theorem getElem?_elementsAfter (bounded : elements.size ≤ maxArrayLength) (i : Nat) :
    (elementsAfter elements name v)[i]? =
      if i < lengthAfter elements name v then
        some (if arrayIndex? name = some i then v else elements[i]?.getD .undefined)
      else none := by
  unfold elementsAfter lengthAfter
  split
  next length =>
      rw [setLength_eq, getElem?_resize, length, arrayIndex?_length,
        if_neg (by simp : ¬none = some i)]
  · split
    next index parsed =>
        rw [parsed]
        split
        next small =>
            rw [setElement_of_lt small, Array.getElem?_setIfInBounds, size_resize, getElem?_resize]
            by_cases here : index = i
            · subst here
              rw [if_pos rfl, if_pos rfl]
            · rw [if_neg here, if_neg fun same => here (Option.some.inj same)]
        next large =>
            have outside : i < elements.size → ¬some index = some i := by
              rintro inside ⟨⟩
              omega
            rw [setElement_of_le (Nat.le_of_not_lt large)]
            split
            next inside =>
                rw [if_neg (outside inside), Array.getElem?_eq_getElem inside, Option.getD_some]
            next beyond => exact Array.getElem?_eq_none (Nat.le_of_not_lt beyond)
    next parsed =>
        rw [parsed, if_neg (by simp : ¬none = some i), ← getElem?_resize, resize_size]

/-! ## What every store keeps -/

theorem Sound.empty : Sound {} where
  bounded _ array := absurd array (by simp)
  property _ mem := absurd mem List.not_mem_nil
  distinct := List.nodup_nil

/-- A new array, cut at the greatest length. -/
theorem Sound.ofArray (elements : Array Value) :
    Sound { elements := some (elements.take maxArrayLength) } where
  bounded taken same := by
    cases same
    rw [Array.take_eq_extract, Array.size_extract]
    omega
  property _ mem := absurd mem List.not_mem_nil
  distinct := List.nodup_nil

theorem lengthAfter_le (bounded : elements.size ≤ maxArrayLength) :
    lengthAfter elements name v ≤ maxArrayLength := by
  unfold lengthAfter lengthFrom
  split
  · split
    · exact Nat.min_le_right _ _
    · exact bounded
  · split
    · split
      next small => exact Nat.max_le.2 ⟨bounded, small⟩
      · exact bounded
    · exact bounded

theorem Sound.set (sound : o.Sound) : (o.set name v).Sound := by
  by_cases property : o.IsProperty name
  · have names : (o.set name v).properties.names = addName name o.properties.names := by
      rw [set_property property, Properties.names_store]
    refine ⟨?_, fun other mem => ?_, ?_⟩
    · rw [set_property property]
      exact sound.bounded
    · rw [isProperty_set]
      rw [names, addName] at mem
      split at mem
      · exact sound.property other mem
      · rcases List.mem_append.1 mem with old | new
        · exact sound.property other old
        · exact List.mem_singleton.1 new ▸ property
    · rw [names, addName]
      split
      · exact sound.distinct
      next absent =>
          exact List.nodup_append'.2 ⟨sound.distinct, List.nodup_singleton name,
            List.disjoint_singleton.2 absent⟩
  · obtain ⟨array, reserved⟩ := Classical.not_imp.1 property
    obtain ⟨elements, array⟩ := Option.isSome_iff_exists.1 array
    refine ⟨fun after same => ?_, fun other mem => isProperty_set.2 ?_, ?_⟩
    · rw [elements_set array] at same
      cases same
      rw [size_elementsAfter]
      exact lengthAfter_le (sound.bounded elements array)
    · rw [set_reserved array (not_not.1 reserved)] at mem
      exact sound.property other mem
    · rw [set_reserved array (not_not.1 reserved)]
      exact sound.distinct

/-! ## The listed names -/

theorem bound_lt_twoTo : maxArrayLength < Number.twoTo 64 := by
  decide

theorem Sound.arrayIndex?_toString (sound : o.Sound) (array : o.elements = some elements)
    (inside : index < elements.size) : arrayIndex? (toString index) = some index :=
  Script.arrayIndex?_toString
    (Nat.lt_trans (Nat.lt_of_lt_of_le inside (sound.bounded elements array)) bound_lt_twoTo)

theorem Sound.keys_nodup (sound : o.Sound) : o.keys.Nodup := by
  unfold keys
  cases array : o.elements with
  | none => exact sound.distinct
  | some elements =>
      have parsed : ∀ i ∈ List.range elements.size, Script.arrayIndex? (toString i) = some i :=
        fun i mem => sound.arrayIndex?_toString array (List.mem_range.1 mem)
      refine List.nodup_append'.2 ⟨?_, sound.distinct, fun name index property => ?_⟩
      · refine List.Nodup.map_on (fun i mem j mem' same => ?_) List.nodup_range
        exact Option.some.inj ((parsed i mem).symm.trans ((congrArg _ same).trans (parsed j mem')))
      · obtain ⟨i, mem, rfl⟩ := List.mem_map.1 index
        exact sound.property _ property (array ▸ rfl) (.index (parsed i mem))

theorem Sound.isSome_get?_of_mem_keys (sound : o.Sound) (mem : name ∈ o.keys) :
    (o.get? name).isSome = true := by
  rcases List.mem_append.1 mem with index | property
  · cases array : o.elements with
    | none =>
        rw [array] at index
        cases index
    | some elements =>
        rw [array] at index
        obtain ⟨i, inside, rfl⟩ := List.mem_map.1 index
        rw [get?_index array (sound.arrayIndex?_toString array (List.mem_range.1 inside))]
        rfl
  · rw [get?_property (sound.property name property)]
    exact Properties.isSome_find?_of_mem_names property

/-! ## Reading after a store -/

/-- An array does not take a value under its length, or under an index that it cannot have. -/
def Refuses (o : Object) (name : String) : Prop :=
  o.elements.isSome = true ∧
    (name = "length" ∨ ∃ index, arrayIndex? name = some index ∧ maxArrayLength ≤ index)

/-- What is read in an object after a value is stored in it, by what was read before. -/
structure Stored (before after : Object) (name : String) (v : Value) : Prop where
  /-- The value is read back under its name. -/
  value : ¬before.Refuses name → after.get? name = some v
  /-- An index that is too large changes nothing. -/
  ignored : ∀ index, before.elements.isSome = true → arrayIndex? name = some index →
    maxArrayLength ≤ index → after = before
  /-- The length is that of the elements. -/
  length : ∀ elements, before.elements = some elements →
    after.get? "length" = some (.number (Float.ofNat (lengthAfter elements name v)))
  /-- All names of one index are names of one element. -/
  sameIndex : ∀ index other, before.elements.isSome = true → arrayIndex? name = some index →
    index < maxArrayLength → arrayIndex? other = some index → after.get? other = some v
  /-- Where the elements were filled up they are undefined. -/
  filled : ∀ elements index other, before.elements = some elements →
    arrayIndex? other = some index →
    elements.size ≤ index → index < lengthAfter elements name v → arrayIndex? name ≠ some index →
    after.get? other = some .undefined
  /-- Where the elements were cut nothing is known. -/
  cut : ∀ elements index other, before.elements = some elements → arrayIndex? other = some index →
    lengthAfter elements name v ≤ index → after.get? other = some {}
  /-- All other names read as before: in an array those that are not its length and whose index is
  not the one that is written, and is in both arrays or in none. -/
  others : ∀ other, other ≠ name →
    (∀ elements, before.elements = some elements → other ≠ "length" ∧
      ∀ index, arrayIndex? other = some index → arrayIndex? name ≠ some index ∧
        (index < elements.size ↔ index < lengthAfter elements name v)) →
    after.get? other = before.get? other

theorem Sound.stored (sound : o.Sound) (name : String) (v : Value) :
    o.Stored (o.set name v) name v := by
  -- what an index reads after the store, by the equation on the elements
  have read : ∀ elements index other, o.elements = some elements → arrayIndex? other = some index →
      (o.set name v).get? other = some (if index < lengthAfter elements name v then
        (if arrayIndex? name = some index then v else elements[index]?.getD .undefined)
          else {}) := by
    intro elements index other array parsed
    rw [get?_index (elements_set array) parsed,
      getElem?_elementsAfter (sound.bounded elements array)]
    split <;> rfl
  have within : ∀ elements index, arrayIndex? name = some index → index < maxArrayLength →
      index < lengthAfter elements name v := by
    intro elements index parsed small
    rw [lengthAfter, if_neg (ne_length_of_arrayIndex? parsed), parsed]
    simp only [if_pos small]
    omega
  have sameIndex : ∀ index other, o.elements.isSome = true → arrayIndex? name = some index →
      index < maxArrayLength → arrayIndex? other = some index →
      (o.set name v).get? other = some v := by
    intro index other array parsed small same
    obtain ⟨elements, array⟩ := Option.isSome_iff_exists.1 array
    rw [read elements index other array same, if_pos (within elements index parsed small),
      if_pos parsed]
  refine ⟨fun taken => ?_, fun index array parsed large => ?_, fun elements array => ?_, sameIndex,
    fun elements index other array parsed outside inside different => ?_,
    fun elements index other array parsed beyond => ?_, fun other different apart => ?_⟩
  · by_cases property : o.IsProperty name
    · rw [get?_property (isProperty_set.2 property), set_property property]
      exact Properties.find?_store_self name v o.properties
    · obtain ⟨array, reserved⟩ := Classical.not_imp.1 property
      have fits := fun refused => taken ⟨array, refused⟩
      obtain ⟨noLength, small⟩ := not_or.1 fits
      obtain ⟨index, parsed⟩ :=
        Option.isSome_iff_exists.1 ((not_not.1 reserved).resolve_left noLength)
      exact sameIndex index name array parsed
        (Nat.lt_of_not_le fun large => small ⟨index, parsed, large⟩) parsed
  · obtain ⟨elements, array⟩ := Option.isSome_iff_exists.1 array
    rw [set_reserved array (.index parsed), elementsAfter,
      if_neg (ne_length_of_arrayIndex? parsed), parsed]
    simp only [setElement_of_le large, ← array]
  · rw [get?_length (elements_set array), size_elementsAfter]
  · rw [read elements index other array parsed, if_pos inside, if_neg different,
      Array.getElem?_eq_none outside, Option.getD_none]
  · rw [read elements index other array parsed, if_neg (Nat.not_lt.2 beyond)]
  · by_cases property : o.IsProperty other
    · rw [get?_property (isProperty_set.2 property), get?_property property]
      by_cases here : o.IsProperty name
      · rw [set_property here]
        exact Properties.find?_store_of_ne different v o.properties
      · obtain ⟨array, reserved⟩ := Classical.not_imp.1 here
        obtain ⟨elements, array⟩ := Option.isSome_iff_exists.1 array
        rw [set_reserved array (not_not.1 reserved)]
    · obtain ⟨array, reserved⟩ := Classical.not_imp.1 property
      obtain ⟨elements, array⟩ := Option.isSome_iff_exists.1 array
      obtain ⟨noLength, unmoved⟩ := apart elements array
      obtain ⟨index, parsed⟩ :=
        Option.isSome_iff_exists.1 ((not_not.1 reserved).resolve_left noLength)
      obtain ⟨elsewhere, sides⟩ := unmoved index parsed
      rw [read elements index other array parsed, get?_index array parsed, if_neg elsewhere]
      split
      next inside =>
        rw [Array.getElem?_eq_getElem (sides.2 inside), Option.getD_some, Option.getD_some]
      next beyond =>
          rw [Array.getElem?_eq_none (Nat.le_of_not_lt fun inside => beyond (sides.1 inside)),
            Option.getD_none]

end Object

namespace Heap

/-- The ways to change a heap. -/
inductive Operation where
  | newObject
  | newArray (elements : Array Value)
  | set (id : ObjectId) (name : String) (v : Value)

/-- The heap after an operation. -/
def apply (h : Heap) : Operation → Heap
  | .newObject => h.newObject.2
  | .newArray elements => (h.newArray elements).2
  | .set id name v => h.set id name v

/-- The heap that operations build, from the first to the last. -/
def built (operations : List Operation) : Heap :=
  operations.foldl apply {}

theorem get_alloc (h : Heap) (o : Object) (id : ObjectId) :
    (h.alloc o).2.get id = if id = h.size then o else h.get id := by
  unfold alloc get
  rw [Array.getElem?_push]
  exact apply_ite (fun found : Option Object => found.getD {}) (id = h.size) (some o) h.objects[id]?

theorem get_set_self {h : Heap} {id : ObjectId} (inside : id < h.size) (name : String) (v : Value) :
    (h.set id name v).get id = (h.get id).set name v := by
  unfold set get
  rw [Array.getElem?_modify, if_pos rfl, Array.getElem?_eq_getElem inside]
  rfl

theorem get_set_of_ne {id other : ObjectId} (different : other ≠ id) (h : Heap) (name : String)
    (v : Value) : (h.set id name v).get other = h.get other := by
  unfold set get
  rw [Array.getElem?_modify, if_neg different.symm]

theorem set_of_le {h : Heap} {id : ObjectId} (outside : h.size ≤ id) (name : String) (v : Value) :
    h.set id name v = h := by
  refine congrArg mk (Array.ext_getElem? fun i => ?_)
  rw [Array.getElem?_modify]
  split
  next here => rw [← here, Array.getElem?_eq_none outside, Option.map_none]
  · rfl

/-- One operation keeps all objects sound. -/
theorem sound_apply {h : Heap} (sound : ∀ id, (h.get id).Sound) (operation : Operation)
    (id : ObjectId) : ((h.apply operation).get id).Sound := by
  cases operation with
  | newObject =>
      change ((h.alloc {}).2.get id).Sound
      rw [get_alloc]
      split
      · exact .empty
      · exact sound id
  | newArray elements =>
      change ((h.alloc _).2.get id).Sound
      rw [get_alloc]
      split
      · exact .ofArray elements
      · exact sound id
  | set target name v =>
      change ((h.set target name v).get id).Sound
      by_cases here : id = target
      · subst here
        by_cases inside : id < h.size
        · rw [get_set_self inside]
          exact (sound id).set
        · rw [set_of_le (Nat.le_of_not_lt inside)]
          exact sound id
      · rw [get_set_of_ne here]
        exact sound id

theorem sound_built (operations : List Operation) (id : ObjectId) :
    ((built operations).get id).Sound := by
  suffices run : ∀ h : Heap, (∀ id, (h.get id).Sound) →
      ∀ id, ((operations.foldl apply h).get id).Sound from
    run {} (fun _ => .empty) id
  induction operations with
  | nil => exact fun _ sound => sound
  | cons operation rest ih =>
      exact fun h sound => ih (h.apply operation) (sound_apply sound operation)

/-- In a heap that operations build, arrays are within their bounds and have no properties under the
names of elements, the listed names are distinct and all of them have a value, and what is read
after a store is the value under its name, and what was read before under other names and in other
objects. -/
theorem store_reads_back (operations : List Operation) (id : ObjectId) :
    (∀ elements, ((built operations).get id).elements = some elements →
      elements.size ≤ maxArrayLength ∧
      ∀ name ∈ ((built operations).get id).properties.names,
        name ≠ "length" ∧ arrayIndex? name = none) ∧
    ((built operations).get id).keys.Nodup ∧
    (∀ name ∈ ((built operations).get id).keys, ((built operations).get? id name).isSome = true) ∧
    (id < (built operations).size → ∀ name v,
      ((built operations).get id).Stored (((built operations).set id name v).get id) name v ∧
      ((built operations).set id name v).size = (built operations).size ∧
      ∀ other, other ≠ id → ((built operations).set id name v).get other =
        (built operations).get other) := by
  have sound := sound_built operations id
  refine ⟨fun elements array => ⟨sound.bounded elements array, fun name mem => ?_⟩,
    sound.keys_nodup, fun name => sound.isSome_get?_of_mem_keys, fun inside name v =>
      ⟨?_, size_set _ id name v, ?_⟩⟩
  · obtain ⟨noLength, noIndex⟩ := not_or.1 (sound.property name mem (array ▸ rfl))
    exact ⟨noLength, by simpa using noIndex⟩
  · rw [get_set_self inside]
    exact sound.stored name v
  · exact fun other different => get_set_of_ne different _ name v

/-- An array grows by a store under `+5`: another name of that index reads the value, and an index
below it is undefined. -/
theorem store_reads_back_grown :
    0 < (built [.newArray #[], .newObject]).size ∧
    ((built [.newArray #[], .newObject]).set 0 "+5" (.string "x")).get? 0 "05" =
      some (.string "x") ∧
    ((built [.newArray #[], .newObject]).set 0 "+5" (.string "x")).get? 0 "3" = some .undefined ∧
    ((built [.newArray #[], .newObject]).set 0 "+5" (.string "x")).get 1 = {} :=
  have stored :=
    (store_reads_back [.newArray #[], .newObject] 0).2.2.2 (by decide) "+5" (.string "x")
  ⟨by decide, stored.1.sameIndex 5 "05" rfl (by decide +kernel) (by decide) (by decide +kernel),
    stored.1.filled #[] 3 "3" rfl (by decide +kernel) (by decide) (by decide +kernel)
      (by decide +kernel),
    stored.2.2 1 (by decide)⟩

end Heap

end Script

end AddonAudit
