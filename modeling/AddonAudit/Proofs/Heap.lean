import AddonAudit.Proofs.Engine.Held

/-!
# Heaps that are built step by step

A heap starts empty. Objects and arrays are added to it, and values are stored in the objects that
are there. The values may refer to any objects of the heap, the one they are stored in included, so
objects may be shared and may contain themselves. Every handle in such a heap belongs to one of its
objects.
-/

namespace AddonAudit.Script.Heap

/-- If a value is an object, then it is one of the heap. -/
def Knows (h : Heap) (v : Value) : Prop :=
  ∀ id, v.object? = some id → id < h.size

instance (h : Heap) (v : Value) : Decidable (h.Knows v) :=
  inferInstanceAs (Decidable (∀ id ∈ v.object?, id < h.size))

/-- The heaps that new objects, new arrays and stored values lead to. -/
inductive Reached : Heap → Prop where
  | empty : Reached {}
  | newObject {h : Heap} (before : Reached h) : Reached h.newObject.2
  | newArray {h : Heap} {elements : Array Value} (before : Reached h)
      (known : ∀ v ∈ elements, h.Knows v) : Reached (h.newArray elements).2
  | set {h : Heap} {id : ObjectId} {v : Value} (before : Reached h) (name : String)
      (inside : id < h.size) (known : h.Knows v) : Reached (h.set id name v)

variable {h k : Heap} {v : Value}

theorem Knows.ofBare (bare : v.IsBare) : h.Knows v := by
  intro id held
  rw [bare.object?] at held
  cases held

theorem Knows.object {id : ObjectId} (inside : id < h.size) : h.Knows (.object id) := by
  intro _ held
  cases held
  exact inside

theorem Knows.larger (known : h.Knows v) (le : h.size ≤ k.size) : k.Knows v := fun id held =>
  Nat.lt_of_lt_of_le (known id held) le

theorem Knows.inside {id : ObjectId} (known : h.Knows v) (content : v.content = .object id) :
    id < h.size :=
  known id (by rw [Value.object?, content])

theorem size_alloc (h : Heap) (o : Object) : (h.alloc o).2.size = h.size + 1 :=
  Array.size_push o

theorem size_set (h : Heap) (id : ObjectId) (name : String) (v : Value) :
    (h.set id name v).size = h.size :=
  Array.size_modify

/-- Whatever objects a heap refers to are its own. -/
theorem Reached.every (reached : h.Reached) : h.Every h.Knows := by
  induction reached with
  | empty => exact fun o mem => absurd mem (Array.not_mem_empty o)
  | @newObject h _ ih =>
      have grows : h.size ≤ h.newObject.2.size :=
        Nat.le_of_lt (h.size_alloc {} ▸ Nat.lt_succ_self _)
      exact .alloc (ih.imp fun _ known => known.larger grows) .empty
  | @newArray h elements _ known ih =>
      have grows : h.size ≤ (h.newArray elements).2.size :=
        Nat.le_of_lt (h.size_alloc _ ▸ Nat.lt_succ_self _)
      refine .alloc (ih.imp fun _ known => known.larger grows) (.ofList fun v mem => ?_)
      exact (known v (Array.mem_toList_iff.1 mem)).larger grows
  | @set h id v _ name _ known ih =>
      have same : h.size ≤ (h.set id name v).size := Nat.le_of_eq (h.size_set id name v).symm
      exact .set (fun _ => .ofBare) (ih.imp fun _ known => known.larger same) (known.larger same)

end AddonAudit.Script.Heap
