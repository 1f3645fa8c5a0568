import AddonAudit.Script.Node
import Mathlib.Data.List.Flatten
import Mathlib.Data.List.Nodup
import Mathlib.Data.List.Pairwise

/-!
# Nodes inside of nodes

The nodes of a numbered tree have different numbers, so that the numbers inside of two children of a
node never meet.
-/

namespace AddonAudit.Script.Node

/-- A node is inside of another one: it is that node, or inside of one of its children. -/
inductive Within : Node → Node → Prop where
  | self (n : Node) : Within n n
  | child {k m n : Node} : m ∈ n.children → Within k m → Within k n

variable {k m n : Node}

theorem Within.ofChild (h : m ∈ n.children) : m.Within n := .child h (.self m)

theorem Within.trans (inner : k.Within m) (outer : m.Within n) : k.Within n := by
  induction outer with
  | self => exact inner
  | child mem _ ih => exact .child mem ih

theorem mem_of_child? {role : Role} (h : n.child? role = some m) : m ∈ n.children :=
  List.mem_of_find?_eq_some h

theorem mem_of_parts (h : m ∈ n.parts) : m ∈ n.children :=
  (List.mem_filter.1 h).1

theorem mem_of_childrenAs {role : Role} (h : m ∈ n.childrenAs role) : m ∈ n.children :=
  mem_of_parts (List.mem_filter.1 h).1

mutual

/-- The numbers of the nodes inside of a node, parents first. -/
def ids : Node → List Nat
  | ⟨_, _, id, _, _, _, children⟩ => id :: idsAll children

/-- The numbers of the nodes inside of a list of nodes. -/
def idsAll : List Node → List Nat
  | [] => []
  | n :: rest => ids n ++ idsAll rest

end

theorem idsAll_eq (nodes : List Node) : idsAll nodes = nodes.flatMap ids := by
  induction nodes with
  | nil => rfl
  | cons n rest ih => rw [idsAll, ih, List.flatMap_cons]

theorem ids_eq (n : Node) : n.ids = n.id :: n.children.flatMap ids := by
  rw [← idsAll_eq]
  cases n
  rfl

theorem idsAll_append (first second : List Node) :
    idsAll (first ++ second) = idsAll first ++ idsAll second := by
  rw [idsAll_eq, idsAll_eq, idsAll_eq, List.flatMap_append]

theorem idsAll_sublist {nodes more : List Node} (h : nodes.Sublist more) :
    (idsAll nodes).Sublist (idsAll more) := by
  rw [idsAll_eq, idsAll_eq]
  exact h.flatMap ids

theorem idsAll_children_sublist (n : Node) : (idsAll n.children).Sublist n.ids := by
  rw [ids_eq, idsAll_eq]
  exact List.sublist_cons_self ..

theorem ids_sublist_of_child (h : m ∈ n.children) : m.ids.Sublist (idsAll n.children) := by
  have single := idsAll_sublist (List.singleton_sublist.2 h)
  rw [idsAll_eq, List.flatMap_singleton] at single
  exact single

theorem Within.ids_sublist (h : m.Within n) : m.ids.Sublist n.ids := by
  induction h with
  | self => exact .refl _
  | child mem _ ih => exact ih.trans ((ids_sublist_of_child mem).trans (idsAll_children_sublist _))

theorem Within.ids_subset (h : m.Within n) : m.ids ⊆ n.ids :=
  h.ids_sublist.subset

theorem ids_subset_of_child (h : m ∈ n.children) : m.ids ⊆ n.ids :=
  (Within.ofChild h).ids_subset

theorem Within.mem_ids (h : m.Within n) : m.id ∈ n.ids := by
  refine h.ids_subset ?_
  rw [ids_eq]
  exact List.mem_cons_self

/-- All nodes inside of a node have different numbers. -/
def Distinct (n : Node) : Prop :=
  n.ids.Nodup

theorem Distinct.child (h : n.Distinct) (mem : m ∈ n.children) : m.Distinct := by
  rw [Distinct, ids_eq, List.nodup_cons, List.nodup_flatMap] at h
  exact h.2.1 m mem

theorem Distinct.inside (h : n.Distinct) (inside : m.Within n) : m.Distinct := by
  induction inside with
  | self => exact h
  | child mem _ ih => exact ih (h.child mem)

/-- Different children have no number in common. -/
theorem Distinct.disjoint (h : n.Distinct) (left : k ∈ n.children) (right : m ∈ n.children)
    (ne : k ≠ m) : List.Disjoint k.ids m.ids := by
  rw [Distinct, ids_eq, List.nodup_cons, List.nodup_flatMap] at h
  have symmetric : Std.Symm (Function.onFun List.Disjoint ids) := ⟨fun _ _ => List.disjoint_symm⟩
  exact h.2.2.forall left right ne

theorem Distinct.id_notMem (h : n.Distinct) (mem : m ∈ n.children) : n.id ∉ m.ids := by
  rw [Distinct, ids_eq, List.nodup_cons] at h
  exact fun inside => h.1 (List.mem_flatMap.2 ⟨m, mem, inside⟩)

/-- A number stands for one node. -/
theorem Distinct.eq_of_id (h : n.Distinct) (left : k.Within n) (right : m.Within n)
    (same : k.id = m.id) : k = m := by
  induction left generalizing m with
  | self =>
      cases right with
      | self => rfl
      | child mem inside => exact absurd (same ▸ inside.mem_ids) (h.id_notMem mem)
  | @child c n mem inside ih =>
      cases right with
      | self => exact absurd (same ▸ inside.mem_ids) (h.id_notMem mem)
      | @child d _ mem' inside' =>
          by_cases one : c = d
          · subst one
            exact ih (h.child mem) inside' same
          · exact absurd (same ▸ inside'.mem_ids) (h.disjoint mem mem' one inside.mem_ids)

/-- Nodes that have no number in common. -/
def Apart (nodes : List Node) : Prop :=
  nodes.Pairwise fun a b => List.Disjoint a.ids b.ids

theorem mem_idsAll {id : Nat} {nodes : List Node} :
    id ∈ idsAll nodes ↔ ∃ c ∈ nodes, id ∈ c.ids := by
  rw [idsAll_eq, List.mem_flatMap]

theorem idsAll_subset {nodes more : List Node} (h : nodes ⊆ more) : idsAll nodes ⊆ idsAll more := by
  intro id mem
  obtain ⟨c, found, inside⟩ := mem_idsAll.1 mem
  exact mem_idsAll.2 ⟨c, h found, inside⟩

theorem idsAll_children_subset (n : Node) : idsAll n.children ⊆ n.ids :=
  (idsAll_children_sublist n).subset

theorem Apart.cons {nodes : List Node} (h : Apart (n :: nodes)) :
    n.ids.Disjoint (idsAll nodes) ∧ Apart nodes := by
  obtain ⟨head, tail⟩ := List.pairwise_cons.1 h
  refine ⟨fun id mem others => ?_, tail⟩
  obtain ⟨c, found, inside⟩ := mem_idsAll.1 others
  exact head c found mem inside

theorem Distinct.apart (h : n.Distinct) : Apart n.children := by
  rw [Distinct, ids_eq, List.nodup_cons, List.nodup_flatMap] at h
  exact h.2.2

/-- The numbers inside of the nodes in a role. -/
def idsAs (role : Role) (nodes : List Node) : List Nat :=
  idsAll (nodes.filter fun c => c.role = some role)

/-- The numbers inside of the nodes that are not in some roles. -/
def idsExcept (roles : List Role) (nodes : List Node) : List Nat :=
  idsAll (nodes.filter fun c => ∀ role ∈ roles, c.role ≠ some role)

variable {role : Role} {roles : List Role} {nodes : List Node}

theorem mem_idsAs {id : Nat} :
    id ∈ idsAs role nodes ↔ ∃ c ∈ nodes, c.role = some role ∧ id ∈ c.ids := by
  simp only [idsAs, mem_idsAll, List.mem_filter, decide_eq_true_eq, and_assoc]

theorem mem_idsExcept {id : Nat} :
    id ∈ idsExcept roles nodes ↔
      ∃ c ∈ nodes, (∀ role ∈ roles, c.role ≠ some role) ∧ id ∈ c.ids := by
  simp only [idsExcept, mem_idsAll, List.mem_filter, decide_eq_true_eq, and_assoc]

theorem idsAs_subset_idsAll : idsAs role nodes ⊆ idsAll nodes :=
  idsAll_subset List.filter_sublist.subset

theorem idsExcept_subset_idsAll : idsExcept roles nodes ⊆ idsAll nodes :=
  idsAll_subset List.filter_sublist.subset

theorem idsAs_subset_idsExcept (new : role ∉ roles) : idsAs role nodes ⊆ idsExcept roles nodes := by
  intro id mem
  obtain ⟨c, found, inRole, inside⟩ := mem_idsAs.1 mem
  refine mem_idsExcept.2 ⟨c, found, fun other named same => ?_, inside⟩
  have eq : role = other := Option.some.inj (inRole.symm.trans same)
  exact new (eq ▸ named)

theorem idsExcept_cons_subset : idsExcept (role :: roles) nodes ⊆ idsExcept roles nodes := by
  intro id mem
  obtain ⟨c, found, others, inside⟩ := mem_idsExcept.1 mem
  exact mem_idsExcept.2
    ⟨c, found, fun other named => others other (List.mem_cons_of_mem role named), inside⟩

theorem role_of_child? (h : n.child? role = some m) : m.role = some role := by
  simpa using List.find?_some h

theorem ids_subset_idsAs (h : n.child? role = some m) : m.ids ⊆ idsAs role n.children := by
  intro id mem
  exact mem_idsAs.2 ⟨m, mem_of_child? h, role_of_child? h, mem⟩

/-- The children in two roles have no number in common. -/
theorem Distinct.disjoint_of_roles (h : n.Distinct) {other : Role} (left : n.child? role = some k)
    (right : n.child? other = some m) (ne : role ≠ other) : List.Disjoint k.ids m.ids := by
  refine h.disjoint (mem_of_child? left) (mem_of_child? right) ?_
  rintro rfl
  exact ne (Option.some.inj ((role_of_child? left).symm.trans (role_of_child? right)))

/-- A child in a role has no number in common with children that are not in the role. -/
theorem Distinct.idsAs_disjoint (h : n.Distinct) :
    (idsAs role n.children).Disjoint (idsExcept (role :: roles) n.children) := by
  intro id mem mem'
  obtain ⟨c, child, inRole, inside⟩ := mem_idsAs.1 mem
  obtain ⟨d, child', others, inside'⟩ := mem_idsExcept.1 mem'
  have ne : c ≠ d := by
    rintro rfl
    exact others role List.mem_cons_self inRole
  exact h.disjoint child child' ne inside inside'

mutual

/-- Numbering gives out numbers without a gap. -/
theorem ids_number : ∀ (n : Node) (next : Nat), ∃ count,
    (number next n).1 = next + count ∧ (number next n).2.ids = List.range' next count
  | ⟨kind, role, _, start, text, missing, children⟩, next => by
      obtain ⟨count, last, ids⟩ := idsAll_numberAll children (next + 1)
      refine ⟨count + 1, ?_, ?_⟩
      · rw [number, last]
        omega
      · rw [number, Node.ids, List.range'_succ]
        exact congrArg (next :: ·) ids

theorem idsAll_numberAll : ∀ (nodes : List Node) (next : Nat), ∃ count,
    (numberAll next nodes).1 = next + count ∧
      idsAll (numberAll next nodes).2 = List.range' next count
  | [], next => ⟨0, rfl, rfl⟩
  | n :: rest, next => by
      obtain ⟨first, last, ids⟩ := ids_number n next
      obtain ⟨others, last', ids'⟩ := idsAll_numberAll rest (number next n).1
      refine ⟨first + others, ?_, ?_⟩
      · calc (numberAll next (n :: rest)).1
            = (number next n).1 + others := last'
          _ = next + (first + others) := by rw [last, Nat.add_assoc]
      · calc idsAll (numberAll next (n :: rest)).2
            = (number next n).2.ids ++ idsAll (numberAll (number next n).1 rest).2 := rfl
          _ = List.range' next first ++ List.range' (next + first) others := by rw [ids, ids', last]
          _ = List.range' next (first + others) := List.range'_append_1 ..

end

/-- Nodes that come last do not change the numbers of those before. -/
theorem numberAll_append (first second : List Node) (next : Nat) :
    numberAll next (first ++ second) =
      ((numberAll (numberAll next first).1 second).1,
        (numberAll next first).2 ++ (numberAll (numberAll next first).1 second).2) := by
  induction first generalizing next with
  | nil => rfl
  | cons n rest ih =>
      rw [List.cons_append, numberAll, numberAll]
      simp only [ih, List.cons_append]

theorem le_numberAll (nodes : List Node) (next : Nat) : next ≤ (numberAll next nodes).1 := by
  obtain ⟨count, last, -⟩ := idsAll_numberAll nodes next
  omega

/-- The numbers that are given out are below the next free one. -/
theorem lt_of_mem_numberAll {nodes : List Node} {next id : Nat}
    (mem : id ∈ idsAll (numberAll next nodes).2) : id < (numberAll next nodes).1 := by
  obtain ⟨count, last, ids⟩ := idsAll_numberAll nodes next
  rw [ids, List.mem_range'_1] at mem
  omega

/-- The nodes of a tree are numbered in the order of the source. -/
theorem pairwise_ids_ofRoot (root : Node) : (Tree.ofRoot root).root.ids.Pairwise (· < ·) := by
  obtain ⟨count, -, ids⟩ := ids_number root 0
  have sorted : (number 0 root).2.ids.Pairwise (· < ·) := ids ▸ List.pairwise_lt_range'
  exact sorted

theorem distinct_ofRoot (root : Node) : (Tree.ofRoot root).root.Distinct :=
  (pairwise_ids_ofRoot root).imp Nat.ne_of_lt

end AddonAudit.Script.Node
