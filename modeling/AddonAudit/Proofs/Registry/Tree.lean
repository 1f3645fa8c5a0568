import AddonAudit.Proofs.Registry
import Mathlib.Data.List.Induction

/-!
# The tree of entities

An entity links to its children by name, and it holds its own name and the number of the entity
around it. In a registry that is formed the two agree: under a name there is the one child that says
so of itself, and the entity around has a smaller number. So the way up from an entity ends, and the
names on it spell the only path that leads down to the entity.
-/

namespace AddonAudit.Script.Registry

variable {r : Registry} {id parent : EntityId} {name : String} {path : List String}

/-- Follow a path from an entity. A star is a name like any other here. -/
def follow? (r : Registry) : EntityId → List String → Option EntityId
  | current, [] => some current
  | current, name :: rest => ((r.get current).slot? name).bind fun next => follow? r next rest

theorem follow?_append (start : EntityId) (front back : List String) :
    r.follow? start (front ++ back) =
      (r.follow? start front).bind fun next => r.follow? next back := by
  induction front generalizing start with
  | nil => rfl
  | cons name rest ih =>
      rw [List.cons_append, follow?, follow?, Option.bind_assoc]
      exact congrArg _ (funext ih)

/-- The last step of a path. -/
theorem follow?_concat_eq_some_iff {start : EntityId} :
    r.follow? start (path ++ [name]) = some id ↔
      ∃ parent, r.follow? start path = some parent ∧ (r.get parent).slot? name = some id := by
  rw [follow?_append, Option.bind_eq_some_iff]
  refine exists_congr fun parent => and_congr_right fun _ => ?_
  rw [follow?, Option.bind_eq_some_iff]
  simp only [follow?, Option.some.injEq, exists_eq_right]

/-- The way from an entity up to one that nothing is around. -/
inductive Ascends (r : Registry) : EntityId → List EntityId → Prop where
  | top {id : EntityId} (free : (r.get id).parent = none) : Ascends r id [id]
  | up {id parent : EntityId} {rest : List EntityId} (around : (r.get id).parent = some parent)
      (above : Ascends r parent rest) : Ascends r id (id :: rest)

theorem Ascends.unique {way other : List EntityId} (h : r.Ascends id way)
    (h' : r.Ascends id other) : way = other := by
  induction h generalizing other with
  | top free =>
      cases h' with
      | top => rfl
      | up around => cases free.symm.trans around
  | up around _ ih =>
      cases h' with
      | top free => cases free.symm.trans around
      | up around' above' =>
          cases around.symm.trans around'
          rw [ih above']

/-- The links down are the inverse of the names and numbers of the entities around. -/
structure Formed (r : Registry) : Prop where
  root : root < r.size
  slot : ∀ {parent name id}, (r.get parent).slot? name = some id ↔
    (r.get id).parent = some parent ∧ (r.get id).name = name
  /-- The child for all other names is not also a child with the name of a star. -/
  star : ∀ id, (r.get id).children.find? "*" = none
  above : ∀ {id parent}, (r.get id).parent = some parent → parent < id
  reached : ∀ {id}, id < r.size →
    (∃ path, r.follow? Registry.root path = some id) ∨ ∃ entry ∈ r.deep, entry.2 = id

/-- A number that no entity has is that of an entity without anything. -/
theorem get_of_size_le (beyond : r.size ≤ id) : r.get id = {} := by
  unfold get
  rw [Array.getElem?_eq_none beyond]
  rfl

theorem lt_size_of_parent (around : (r.get id).parent = some parent) : id < r.size := by
  refine Nat.lt_of_not_le fun beyond => ?_
  rw [get_of_size_le beyond] at around
  cases around

/-- Fuel beyond the number of an entity is enough to get to the top. -/
theorem ascends_chainFrom (above : ∀ {id parent}, (r.get id).parent = some parent → parent < id)
    {fuel : Nat} (enough : id < fuel) : r.Ascends id (r.chainFrom fuel id) := by
  induction fuel generalizing id with
  | zero => exact absurd enough (Nat.not_lt_zero id)
  | succ fuel ih =>
      rw [chainFrom]
      cases around : (r.get id).parent with
      | none => exact .top around
      | some parent =>
          exact .up around (ih (Nat.lt_of_lt_of_le (above around) (Nat.le_of_lt_succ enough)))

namespace Formed

/-- The chain of an entity is the whole way up. -/
theorem ascends_chain (h : r.Formed) (here : id < r.size) : r.Ascends id (r.chain id) :=
  ascends_chainFrom h.above (Nat.lt_succ_of_lt here)

theorem parent_root (h : r.Formed) : (r.get Registry.root).parent = none := by
  cases around : (r.get Registry.root).parent with
  | none => rfl
  | some parent => exact absurd (h.above around) (Nat.not_lt_zero parent)

theorem chain_root (h : r.Formed) : r.chain Registry.root = [Registry.root] :=
  (h.ascends_chain h.root).unique (.top h.parent_root)

theorem chain_of_parent (h : r.Formed) (around : (r.get id).parent = some parent) :
    r.chain id = id :: r.chain parent := by
  have here := lt_size_of_parent around
  have inside : parent < r.size := Nat.lt_trans (h.above around) here
  exact (h.ascends_chain here).unique (.up around (h.ascends_chain inside))

theorem segments_root (h : r.Formed) : r.segments Registry.root = [] := by
  unfold segments
  rw [h.chain_root]
  rfl

theorem segments_of_parent (h : r.Formed) (around : (r.get id).parent = some parent) :
    r.segments id = r.segments parent ++ [(r.get id).name] := by
  have inner : id ≠ Registry.root := Nat.ne_of_gt (Nat.zero_lt_of_lt (h.above around))
  unfold segments
  rw [h.chain_of_parent around, List.takeWhile_cons, if_pos (decide_eq_true inner), List.map_cons,
    List.reverse_cons]

/-- The names around an entity spell the path that leads to it. -/
theorem segments_of_follow? (h : r.Formed) (found : r.follow? Registry.root path = some id) :
    r.segments id = path := by
  induction path using List.reverseRecOn generalizing id with
  | nil =>
      cases found
      exact h.segments_root
  | append_singleton path name ih =>
      obtain ⟨parent, before, last⟩ := follow?_concat_eq_some_iff.1 found
      obtain ⟨around, rfl⟩ := h.slot.1 last
      rw [h.segments_of_parent around, ih before]

/-- Two paths never lead to the same entity. -/
theorem follow?_inj (h : r.Formed) {other : List String}
    (found : r.follow? Registry.root path = some id)
    (found' : r.follow? Registry.root other = some id) : path = other :=
  (h.segments_of_follow? found).symm.trans (h.segments_of_follow? found')

theorem lt_size_of_follow? (h : r.Formed) (found : r.follow? Registry.root path = some id) :
    id < r.size := by
  cases path using List.reverseRecOn with
  | nil =>
      cases found
      exact h.root
  | append_singleton path name =>
      obtain ⟨parent, -, last⟩ := follow?_concat_eq_some_iff.1 found
      exact lt_size_of_parent (h.slot.1 last).1

/-- A child under exactly a name is found under the name, a star included. -/
theorem child?_of_slot? (h : r.Formed) (found : (r.get parent).slot? name = some id) :
    r.child? parent name = some id := by
  unfold Entity.slot? at found
  simp only [child?, Option.orElse_eq_orElse, Option.orElse_eq_or]
  split at found
  next star =>
    rw [star, h.star, found]
    rfl
  · rw [found]
    rfl

theorem lookupFrom?_of_follow? (h : r.Formed) {start : EntityId}
    (found : r.follow? start path = some id) : r.lookupFrom? start path = some id := by
  induction path generalizing start with
  | nil => exact found
  | cons name rest ih =>
      obtain ⟨next, here, below⟩ := Option.bind_eq_some_iff.1 found
      exact Option.bind_eq_some_iff.2 ⟨next, h.child?_of_slot? here, ih below⟩

end Formed

end AddonAudit.Script.Registry
