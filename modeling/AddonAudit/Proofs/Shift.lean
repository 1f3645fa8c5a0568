import AddonAudit.Proofs.Alike
import AddonAudit.Proofs.Scope

/-!
# Values with other numbers

A value may carry the number of a record. Where all numbers are moved up by the same amount,
look-ups find the moved values and stores store them: moving commutes with every operation on names,
objects and states.
-/

namespace AddonAudit.Script

variable {k : Nat} {v : Value} {name : String}

/-- A value with the number of its record moved up. -/
def Value.shift (k : Nat) (v : Value) : Value :=
  { v with provisional := v.provisional.map (· + k) }

theorem Value.alike_shift (k : Nat) (v : Value) : v.Alike (v.shift k) := ⟨_, rfl⟩

theorem Value.IsPlain.shift (h : v.IsPlain) (k : Nat) : v.shift k = v := by
  obtain ⟨content, isConst, dirty, callable, entity, setter, inferred, unwrapped, provisional⟩ := v
  obtain rfl : provisional = none := h.provisional
  rfl

namespace Properties

/-- Named values with other numbers. -/
def shift (k : Nat) (l : Properties) : Properties :=
  l.map fun entry => (entry.1, entry.2.shift k)

theorem find?_shift (name : String) (l : Properties) :
    find? name (shift k l) = (find? name l).map (Value.shift k) := by
  induction l with
  | nil => rfl
  | cons entry rest ih =>
      rw [shift, List.map_cons, find?, find?]
      split
      · rfl
      · exact ih

theorem store_shift (name : String) (v : Value) (l : Properties) :
    store name (v.shift k) (shift k l) = shift k (store name v l) := by
  induction l with
  | nil => rfl
  | cons entry rest ih =>
      rw [shift, List.map_cons, store, store]
      split
      · rfl
      · exact congrArg (_ :: ·) ih

end Properties

namespace Object

/-- An object whose values have other numbers. -/
def shift (k : Nat) (o : Object) : Object :=
  ⟨o.elements.map fun elements => elements.map (Value.shift k), Properties.shift k o.properties⟩

theorem get?_shift (o : Object) (name : String) :
    (o.shift k).get? name = (o.get? name).map (Value.shift k) := by
  obtain ⟨_ | elements, properties⟩ := o
  · exact Properties.find?_shift name properties
  · simp only [get?, shift, Option.map_some, Array.size_map]
    split
    · rfl
    · split
      next index _ =>
        rw [Array.getElem?_map]
        cases elements[index]? with
        | none => rfl
        | some v => rfl
      · exact Properties.find?_shift name properties

theorem resize_shift (elements : Array Value) (size : Nat) :
    resize (elements.map (Value.shift k)) size = (resize elements size).map (Value.shift k) := by
  unfold resize
  rw [Array.size_map]
  split
  · simp
  · simp [Value.IsPlain.undefined.shift]

theorem setLength_shift (elements : Array Value) (v : Value) :
    setLength (elements.map (Value.shift k)) (v.shift k) =
      (setLength elements v).map (Value.shift k) := by
  show setLength (elements.map (Value.shift k)) v = _
  unfold setLength
  split
  · exact resize_shift ..
  · rfl

theorem setElement_shift (elements : Array Value) (index : Nat) (v : Value) :
    setElement (elements.map (Value.shift k)) index (v.shift k) =
      (setElement elements index v).map (Value.shift k) := by
  unfold setElement
  rw [Array.size_map]
  split
  · rfl
  · split
    · rw [resize_shift, Array.map_setIfInBounds]
    · rw [Array.map_setIfInBounds]

theorem set_shift (o : Object) (name : String) (v : Value) :
    (o.shift k).set name (v.shift k) = (o.set name v).shift k := by
  obtain ⟨_ | elements, properties⟩ := o
  · simp only [set, shift, Option.map_none, Properties.store_shift]
  · simp only [set, shift, Option.map_some]
    split
    · rw [setLength_shift]
      rfl
    · split
      · rw [setElement_shift]
        rfl
      · rw [Properties.store_shift]
        rfl

end Object

namespace Heap

/-- A heap whose values have other numbers. -/
def shift (k : Nat) (h : Heap) : Heap :=
  ⟨h.objects.map (Object.shift k)⟩

variable (h : Heap) (id : ObjectId)

theorem get_shift : (h.shift k).get id = (h.get id).shift k := by
  unfold get shift
  rw [Array.getElem?_map]
  cases h.objects[id]? with
  | none => rfl
  | some o => rfl

theorem get?_shift (name : String) :
    (h.shift k).get? id name = (h.get? id name).map (Value.shift k) := by
  rw [get?, get_shift, Object.get?_shift]
  rfl

theorem set_shift (name : String) (v : Value) :
    (h.shift k).set id name (v.shift k) = (h.set id name v).shift k := by
  have same : ∀ o : Object, (o.shift k).set name (v.shift k) = (o.set name v).shift k :=
    fun o => o.set_shift name v
  unfold set shift
  congr 1
  apply Array.ext_getElem?
  intro i
  simp only [Array.getElem?_modify, Array.getElem?_map]
  split
  · cases h.objects[i]? with
    | none => rfl
    | some o => exact congrArg some (same o)
  · rfl

theorem alloc_shift (o : Object) :
    (h.shift k).alloc (o.shift k) = ((h.alloc o).1, (h.alloc o).2.shift k) := by
  simp [alloc, shift]

theorem newArray_shift (vs : List Value) :
    (h.shift k).newArray (vs.map (Value.shift k)).toArray =
      ((h.newArray vs.toArray).1, (h.newArray vs.toArray).2.shift k) := by
  rw [newArray, newArray, ← alloc_shift]
  congr 1
  simp [Object.shift, Properties.shift]

/-- Objects whose values have other numbers look alike. -/
theorem alike_shift : h.Alike (h.shift k) where
  size := Array.size_map.symm
  elements id := by
    rw [get_shift]
    show Option.Rel _ (h.get id).elements ((h.get id).elements.map _)
    cases (h.get id).elements with
    | none => exact .none
    | some elements =>
        refine .some ?_
        rw [Array.toList_map, List.forall₂_map_right_iff]
        exact List.forall₂_same.2 fun v _ => v.alike_shift k

end Heap

/-- A scope whose values have other numbers. -/
def Scope.shift (k : Nat) (scope : Scope) : Scope :=
  { scope with names := Properties.shift k scope.names }

section Names

variable (globals : Properties) (scopes : List Scope)

theorem lookup?_shift (name : String) :
    lookup? name (Properties.shift k globals) (scopes.map (Scope.shift k)) =
      (lookup? name globals scopes).map (Value.shift k) := by
  induction scopes with
  | nil => exact Properties.find?_shift name globals
  | cons scope rest ih =>
      rw [List.map_cons, lookup?, lookup?, ih, Scope.shift, Properties.find?_shift]
      cases Properties.find? name scope.names with
      | none => rfl
      | some v => rfl

theorem storeIn_shift {into : Scope → Bool}
    (blind : ∀ scope : Scope, into (scope.shift k) = into scope) (name : String) (v : Value) :
    storeIn into name (v.shift k) (Properties.shift k globals) (scopes.map (Scope.shift k)) =
      (Properties.shift k (storeIn into name v globals scopes).1,
        (storeIn into name v globals scopes).2.map (Scope.shift k)) := by
  induction scopes with
  | nil => simp [storeIn, Properties.store_shift]
  | cons scope rest ih =>
      rw [List.map_cons, storeIn, storeIn, blind]
      split
      · simp [Scope.shift, Properties.store_shift]
      · rw [ih]
        rfl

theorem replace?_shift {f g : Value → Value} (same : ∀ v, g (v.shift k) = (f v).shift k)
    (name : String) :
    replace? name g (Properties.shift k globals) (scopes.map (Scope.shift k)) =
      (replace? name f globals scopes).map fun found =>
        (found.1.shift k, Properties.shift k found.2.1, found.2.2.map (Scope.shift k)) := by
  induction scopes with
  | nil =>
      rw [List.map_nil, replace?, replace?, Properties.find?_shift]
      cases Properties.find? name globals with
      | none => rfl
      | some old => simp [same, Properties.store_shift]
  | cons scope rest ih =>
      rw [List.map_cons, replace?, replace?, Scope.shift, Properties.find?_shift]
      cases Properties.find? name scope.names with
      | none =>
          simp only [Option.map_none, ih]
          cases replace? name f globals rest with
          | none => rfl
          | some found => rfl
      | some old => simp [same, Properties.store_shift, Scope.shift]

end Names

namespace State

/-- A state whose values have other numbers, with another bundle. -/
def shift (k : Nat) (d : Bundle) (s : State) : State :=
  { s with
    bundle := d
    heap := s.heap.shift k
    globals := Properties.shift k s.globals
    scopes := s.scopes.map (Scope.shift k)
    window := s.window.shift k
    receivers := s.receivers.map (Value.shift k)
    results := s.results.map fun kept => kept.map (Value.shift k) }

variable (d : Bundle) (s : State)

theorem find?_shift (name : String) :
    (s.shift k d).find? name = (s.find? name).map (Value.shift k) :=
  lookup?_shift ..

theorem receiver_shift : (s.shift k d).receiver = s.receiver.shift k := by
  show (s.receivers.map (Value.shift k)).headD (s.window.shift k) = _
  unfold receiver
  cases s.receivers with
  | nil => rfl
  | cons v rest => rfl

theorem kept?_shift (id : Nat) : (s.shift k d).kept? id = (s.kept? id).map (Value.shift k) := by
  show (s.results.map _)[id]?.join = _
  rw [Array.getElem?_map, kept?]
  rcases s.results[id]? with _ | _ | v
  · rfl
  · rfl
  · rfl

theorem storeGlobal_shift (name : String) (v : Value) :
    (s.shift k d).storeGlobal name (v.shift k) = (s.storeGlobal name v).shift k d := by
  simp only [storeGlobal, shift, Properties.store_shift]

theorem declare_shift (name : String) (v : Value) (how : Declaration) :
    (s.shift k d).declare name (v.shift k) how = (s.declare name v how).shift k d := by
  have blind : ∀ scope : Scope, how.goesTo (scope.shift k) = how.goesTo scope := by
    intro scope
    cases how <;> rfl
  have stored : storeIn how.goesTo name (how.holds (v.shift k)) (s.shift k d).globals
      (s.shift k d).scopes = _ := storeIn_shift s.globals s.scopes blind name (how.holds v)
  have unfolded : ∀ t : State, ∀ w, t.declare name w how = { t with
      globals := (storeIn how.goesTo name (how.holds w) t.globals t.scopes).1
      scopes := (storeIn how.goesTo name (how.holds w) t.globals t.scopes).2 } := fun _ _ => rfl
  rw [unfolded, unfolded, stored]
  rfl

theorem overwrite?_shift (name : String) (v : Value) :
    (s.shift k d).overwrite? name (v.shift k) =
      (s.overwrite? name v).map fun found => (found.1.shift k, found.2.shift k d) := by
  have replaced := replace?_shift (k := k) s.globals s.scopes (f := fun old => v.named old.isConst)
    (g := fun old => (v.shift k).named old.isConst) (fun _ => rfl) name
  unfold overwrite?
  show (replace? name _ (Properties.shift k s.globals) (s.scopes.map (Scope.shift k))).map _ = _
  rw [replaced]
  cases replace? name (fun old => v.named old.isConst) s.globals s.scopes with
  | none => rfl
  | some found => rfl

theorem setProperty_shift (id : ObjectId) (name : String) (v : Value) :
    (s.shift k d).setProperty id name (v.shift k) = (s.setProperty id name v).shift k d := by
  simp only [setProperty, shift, Heap.set_shift]

theorem onHeap_shift {f g : Heap → ObjectId × Heap}
    (same : g (s.heap.shift k) = ((f s.heap).1, (f s.heap).2.shift k)) :
    (s.shift k d).onHeap g = ((s.onHeap f).1, (s.onHeap f).2.shift k d) := by
  show ((g (s.heap.shift k)).1, { s.shift k d with heap := (g (s.heap.shift k)).2 }) = _
  rw [same]
  rfl

theorem keep_shift (id : Nat) (v : Value) :
    (s.shift k d).keep id (v.shift k) = (s.keep id v).shift k d := by
  simp [keep, shift, Array.map_setIfInBounds]

theorem variableScope_shift : (s.shift k d).variableScope = Properties.shift k s.variableScope := by
  have found : (s.scopes.map (Scope.shift k)).find? Declaration.variable.goesTo =
      (s.scopes.find? Declaration.variable.goesTo).map (Scope.shift k) := List.find?_map ..
  unfold variableScope
  rw [show (s.shift k d).scopes = s.scopes.map (Scope.shift k) from rfl, found]
  cases s.scopes.find? Declaration.variable.goesTo with
  | none => rfl
  | some scope => rfl

end State

end AddonAudit.Script
