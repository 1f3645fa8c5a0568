import AddonAudit.Proofs.Engine.Invariant
import AddonAudit.Proofs.Scope

/-!
# The values that a state holds

A state holds values in its scopes, its objects, its receivers and the kept results. A property of
all of them survives every operation, as long as the values that the operation stores have it.
-/

namespace AddonAudit.Script

variable {P Q : Value → Prop}

namespace Properties

/-- Every value has a property. -/
def Every (P : Value → Prop) (l : Properties) : Prop :=
  ∀ entry ∈ l, P entry.2

theorem Every.imp {l : Properties} (h : Every P l) (weaker : ∀ v, P v → Q v) : Every Q l :=
  fun entry mem => weaker _ (h entry mem)

/-- What is found has the property. -/
theorem Every.find? {l : Properties} {name : String} {v : Value} (h : Every P l)
    (found : Properties.find? name l = some v) : P v := by
  induction l with
  | nil => cases found
  | cons entry rest ih =>
      obtain ⟨head, tail⟩ := List.forall_mem_cons.1 h
      rw [Properties.find?] at found
      split at found
      · cases found
        exact head
      · exact ih tail found

theorem Every.store {l : Properties} {name : String} {v : Value} (h : Every P l) (value : P v) :
    Every P (l.store name v) := by
  induction l with
  | nil => exact List.forall_mem_singleton.2 value
  | cons entry rest ih =>
      obtain ⟨head, tail⟩ := List.forall_mem_cons.1 h
      rw [Properties.store]
      split
      · exact List.forall_mem_cons.2 ⟨value, tail⟩
      · exact List.forall_mem_cons.2 ⟨head, ih tail⟩

end Properties

namespace Object

/-- Every element and every property of an object has a property. -/
structure Every (P : Value → Prop) (o : Object) : Prop where
  elements : ∀ a, o.elements = some a → ∀ v ∈ a, P v
  properties : Properties.Every P o.properties

theorem Every.imp {o : Object} (h : o.Every P) (weaker : ∀ v, P v → Q v) : o.Every Q where
  elements a same v mem := weaker v (h.elements a same v mem)
  properties := h.properties.imp weaker

theorem Every.empty : Every P {} :=
  ⟨fun _ isArray => absurd isArray nofun, fun _ mem => absurd mem List.not_mem_nil⟩

/-- An array of values, cut at the greatest length. -/
theorem Every.ofList {vs : List Value} (new : ∀ v ∈ vs, P v) :
    Every P { elements := some (vs.toArray.take maxArrayLength) } := by
  refine ⟨fun a same v mem => ?_, fun _ mem => absurd mem List.not_mem_nil⟩
  cases same
  obtain ⟨k, bound, rfl⟩ := Array.mem_extract_iff_getElem.1 mem
  exact new _ (List.mem_toArray.1 (Array.getElem_mem _))

theorem Every.items {o : Object} (every : o.Every P) :
    ∀ v ∈ (o.elements.getD #[]).toList, P v := by
  intro v mem
  cases array : o.elements with
  | none =>
      rw [array] at mem
      cases mem
  | some elements =>
      rw [array] at mem
      exact every.elements elements array v (Array.mem_toList_iff.1 mem)

variable (bare : ∀ v : Value, v.IsBare → P v)

include bare

/-- What is read is an element, a property or a bare value. -/
theorem Every.get? {o : Object} {name : String} {v : Value} (h : o.Every P)
    (found : o.get? name = some v) : P v := by
  unfold Object.get? at found
  split at found
  · exact h.properties.find? found
  next a elements =>
      split at found
      · cases found
        exact bare _ (.number _)
      · split at found
        next index _ =>
            cases found
            cases present : a[index]? with
            | none => exact bare _ (.ofUnknown _ _)
            | some v => exact h.elements a elements v (Array.mem_of_getElem? present)
        · exact h.properties.find? found

/-- An array is filled up with bare values. -/
theorem resize_every {a : Array Value} {size : Nat} (h : ∀ v ∈ a, P v) :
    ∀ v ∈ resize a size, P v := by
  intro v mem
  unfold resize at mem
  split at mem
  · obtain ⟨k, bound, rfl⟩ := Array.mem_extract_iff_getElem.1 mem
    exact h _ (Array.getElem_mem _)
  · rcases Array.mem_append.1 mem with mem | mem
    · exact h v mem
    · rw [(Array.mem_replicate.1 mem).2]
      exact bare _ .undefined

theorem setLength_every {a : Array Value} {length : Value} (h : ∀ v ∈ a, P v) :
    ∀ v ∈ setLength a length, P v := by
  unfold setLength
  split
  · exact resize_every bare h
  · exact h

theorem setElement_every {a : Array Value} {index : Nat} {value : Value} (h : ∀ v ∈ a, P v)
    (stored : P value) : ∀ v ∈ setElement a index value, P v := by
  unfold setElement
  split
  · exact h
  · intro v mem
    rcases Array.mem_or_eq_of_mem_setIfInBounds mem with mem | rfl
    · split at mem
      · exact resize_every bare h v mem
      · exact h v mem
    · exact stored

theorem Every.set {o : Object} {name : String} {value : Value} (h : o.Every P)
    (stored : P value) : (o.set name value).Every P := by
  unfold Object.set
  split
  · exact ⟨h.elements, h.properties.store stored⟩
  next a elements =>
      have old := h.elements a elements
      split
      · refine ⟨fun b same => ?_, h.properties⟩
        cases same
        exact setLength_every bare old
      · split
        · refine ⟨fun b same => ?_, h.properties⟩
          cases same
          exact setElement_every bare old stored
        · exact ⟨h.elements, h.properties.store stored⟩

end Object

namespace Heap

/-- Every value in an object of the heap has a property. -/
def Every (P : Value → Prop) (h : Heap) : Prop :=
  ∀ o ∈ h.objects, o.Every P

variable {h : Heap} {id : ObjectId}

theorem Every.imp (old : h.Every P) (weaker : ∀ v, P v → Q v) : h.Every Q :=
  fun o mem => (old o mem).imp weaker

/-- The object of a handle, also of one that is not there. -/
theorem Every.get (every : h.Every P) (id : ObjectId) : (h.get id).Every P := by
  unfold Heap.get
  cases present : h.objects[id]? with
  | none => exact .empty
  | some o => exact every o (Array.mem_of_getElem? present)

theorem Every.alloc {o : Object} (old : h.Every P) (new : o.Every P) : (h.alloc o).2.Every P := by
  intro x mem
  rcases Array.mem_push.1 mem with mem | rfl
  · exact old x mem
  · exact new

theorem Every.newArray {vs : List Value} (old : h.Every P) (new : ∀ v ∈ vs, P v) :
    (h.newArray vs.toArray).2.Every P :=
  old.alloc (.ofList new)

variable (bare : ∀ v : Value, v.IsBare → P v)

include bare

theorem Every.get? {name : String} {v : Value} (every : h.Every P)
    (found : h.get? id name = some v) : P v :=
  (every.get id).get? bare found

theorem Every.set {name : String} {v : Value} (every : h.Every P) (stored : P v) :
    (h.set id name v).Every P := by
  intro o mem
  obtain ⟨i, present⟩ := Array.mem_iff_getElem?.1 mem
  rw [Heap.set, Array.getElem?_modify] at present
  split at present
  · obtain ⟨old, found, rfl⟩ := Option.map_eq_some_iff.1 present
    exact (every old (Array.mem_of_getElem? found)).set bare stored
  · exact every o (Array.mem_of_getElem? present)

end Heap

/-- Every scope holds only values with a property. -/
def Scope.EveryIn (P : Value → Prop) (scopes : List Scope) : Prop :=
  ∀ scope ∈ scopes, Properties.Every P scope.names

section Names

variable {globals : Properties} {scopes : List Scope} {name : String} {v : Value}

/-- A name is found in one of the scopes or among the globals. -/
theorem lookup?_every (top : Properties.Every P globals) (inner : Scope.EveryIn P scopes)
    (found : lookup? name globals scopes = some v) : P v := by
  induction scopes with
  | nil => exact top.find? found
  | cons scope rest ih =>
      obtain ⟨head, tail⟩ := List.forall_mem_cons.1 inner
      rw [lookup?] at found
      cases here : Properties.find? name scope.names with
      | some w =>
          rw [here] at found
          cases found
          exact head.find? here
      | none =>
          rw [here] at found
          exact ih tail found

theorem storeIn_every (into : Scope → Bool) (name : String) (top : Properties.Every P globals)
    (inner : Scope.EveryIn P scopes) (value : P v) :
    Properties.Every P (storeIn into name v globals scopes).1 ∧
      Scope.EveryIn P (storeIn into name v globals scopes).2 := by
  induction scopes with
  | nil => exact ⟨top.store value, List.forall_mem_nil _⟩
  | cons scope rest ih =>
      obtain ⟨head, tail⟩ := List.forall_mem_cons.1 inner
      rw [storeIn]
      split
      · exact ⟨top, List.forall_mem_cons.2 ⟨head.store value, tail⟩⟩
      · obtain ⟨outer, stored⟩ := ih tail
        exact ⟨outer, List.forall_mem_cons.2 ⟨head, stored⟩⟩

theorem replace?_every {f : Value → Value} {old : Value} {globals' : Properties}
    {scopes' : List Scope} (top : Properties.Every P globals) (inner : Scope.EveryIn P scopes)
    (value : ∀ x, P (f x))
    (found : replace? name f globals scopes = some (old, globals', scopes')) :
    Properties.Every P globals' ∧ Scope.EveryIn P scopes' := by
  rcases replace?_cases found with ⟨rfl, -, rfl⟩ | ⟨rfl, within, scope, around, rfl, -, rfl⟩
  · exact ⟨top.store (value old), inner⟩
  · obtain ⟨before, after⟩ := List.forall_mem_append.1 inner
    obtain ⟨head, tail⟩ := List.forall_mem_cons.1 after
    refine ⟨top, List.forall_mem_append.2 ⟨before, ?_⟩⟩
    exact List.forall_mem_cons.2 ⟨head.store (value old), tail⟩

end Names

namespace State

/-- Every value that a state holds has a property. -/
structure Every (P : Value → Prop) (s : State) : Prop where
  heap : s.heap.Every P
  globals : Properties.Every P s.globals
  scopes : Scope.EveryIn P s.scopes
  window : P s.window
  receivers : ∀ v ∈ s.receivers, P v
  results : ∀ v, some v ∈ s.results → P v

variable {s t : State} {v : Value} {name : String}

theorem Every.imp (h : s.Every P) (weaker : ∀ v, P v → Q v) : s.Every Q where
  heap := h.heap.imp weaker
  globals := h.globals.imp weaker
  scopes scope mem := (h.scopes scope mem).imp weaker
  window := weaker _ h.window
  receivers v mem := weaker v (h.receivers v mem)
  results v mem := weaker v (h.results v mem)

theorem Every.find? (h : s.Every P) (found : s.find? name = some v) : P v :=
  lookup?_every h.globals h.scopes found

theorem Every.receiver (h : s.Every P) : P s.receiver := by
  unfold State.receiver
  cases receivers : s.receivers with
  | nil => exact h.window
  | cons v rest => exact h.receivers v (receivers ▸ List.mem_cons_self)

theorem Every.kept? {id : Nat} (h : s.Every P) (found : s.kept? id = some v) : P v := by
  unfold State.kept? at found
  exact h.results v (Array.mem_of_getElem? (Option.join_eq_some_iff.1 found))

theorem Every.storeGlobal (h : s.Every P) (value : P v) : (s.storeGlobal name v).Every P :=
  { h with globals := h.globals.store value }

theorem Every.declare {d : Declaration} (h : s.Every P) (value : P (d.holds v)) :
    (s.declare name v d).Every P :=
  { h with
    globals := (storeIn_every d.goesTo name h.globals h.scopes value).1
    scopes := (storeIn_every d.goesTo name h.globals h.scopes value).2 }

theorem Every.overwrite? {old : Value} (h : s.Every P) (value : ∀ isConst, P (v.named isConst))
    (found : s.overwrite? name v = some (old, t)) : t.Every P := by
  obtain ⟨⟨_, _, _⟩, replaced, same⟩ := Option.map_eq_some_iff.1 found
  cases same
  have every := replace?_every h.globals h.scopes (fun x => value x.isConst) replaced
  exact { h with globals := every.1, scopes := every.2 }

theorem Every.keep (id : Nat) (h : s.Every P) (value : P v) : (s.keep id v).Every P := by
  refine { h with results := fun w mem => ?_ }
  rcases Array.mem_or_eq_of_mem_setIfInBounds mem with mem | same
  · exact h.results w mem
  · cases same
    exact value

/-- A bracket brings in nothing but an empty scope and an unknown receiver. -/
theorem Every.enter (unknown : P .unknown) (b : Bracket) (h : s.Every P) : (b.enter s).Every P := by
  cases b with
  | scope kind =>
      exact { h with scopes := List.forall_mem_cons.2 ⟨List.forall_mem_nil _, h.scopes⟩ }
  | receiver => exact { h with receivers := List.forall_mem_cons.2 ⟨unknown, h.receivers⟩ }
  | level => exact { h with }

theorem Every.leave (b : Bracket) (h : s.Every P) : (b.leave s).Every P := by
  cases b with
  | scope kind =>
      exact { h with scopes := fun scope mem => h.scopes scope (List.mem_of_mem_tail mem) }
  | receiver => exact { h with receivers := fun v mem => h.receivers v (List.mem_of_mem_tail mem) }
  | level => exact { h with }

/-- At the start of an analysis the state holds nothing but the global object. -/
theorem Every.initial {r : Registry} (t : Tree) (clock : Clock) (b : Bundle) (unknown : P .unknown)
    (window : ∀ id, r.global? "window" = some id → P (.ofEntity id)) :
    (Engine.initial r t clock b).Every P where
  heap _ mem := absurd mem (Array.not_mem_empty _)
  globals _ mem := absurd mem List.not_mem_nil
  scopes _ mem := absurd mem List.not_mem_nil
  receivers _ mem := absurd mem List.not_mem_nil
  window := by
    unfold Engine.initial
    split
    next id found => exact window id found
    · exact unknown
  results v mem := absurd (Array.mem_replicate.1 mem).2 nofun

end State

end AddonAudit.Script
