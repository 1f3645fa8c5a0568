import AddonAudit.Proofs.MessageTree

/-!
# Adding message trees

A tree is determined by what it says under each identifier: whether there is a node, and which
counters and records the node has. A merged tree says under an identifier what the two trees say
there, taken together. So the laws of merging whole trees are those of taking single nodes together.
-/

namespace AddonAudit

namespace Counts

@[simp] theorem empty_plus (c : Counts) : plus {} c = c := by
  apply ext_get
  simp

theorem plus_assoc (c d e : Counts) : (c.plus d).plus e = c.plus (d.plus e) := by
  apply ext_get
  intro s
  simp [Nat.add_assoc]

end Counts

namespace MessageTree

variable {ι : Type}

/-! ## What a tree says -/

/-- What a node says apart from its children. -/
@[ext] structure Summary (ι : Type) where
  counts : Counts
  messages : List ι

/-- Two summaries taken together. -/
def Summary.plus (s t : Summary ι) : Summary ι :=
  ⟨s.counts.plus t.counts, s.messages ++ t.messages⟩

instance Summary.plus_associative :
    Std.Associative (Summary.plus : Summary ι → Summary ι → Summary ι) where
  assoc s t u := by
    ext1
    · exact Counts.plus_assoc ..
    · exact List.append_assoc ..

/-- The summary of a node. -/
def summaryOf (node : MessageNode ι) : Summary ι :=
  ⟨node.counts, node.messages⟩

/-- What a tree says under an identifier; nothing if there is no node. -/
def summary? (id : List String) (tree : MessageTree ι) : Option (Summary ι) :=
  (get? id tree).map summaryOf

/-- The records under an identifier. -/
def messages (id : List String) (tree : MessageTree ι) : List ι :=
  ((get? id tree).map (·.messages)).getD []

/-- The children of the node with a name; there are none if there is no node. -/
def childrenAt (name : String) (tree : MessageTree ι) : MessageTree ι :=
  ((Dict.find? name tree).getD {}).children

theorem summary?_nil (id : List String) : summary? id ([] : MessageTree ι) = none := by
  cases id with
  | nil => rfl
  | cons name id => cases id <;> rfl

theorem summary?_singleton (name : String) (tree : MessageTree ι) :
    summary? [name] tree = (Dict.find? name tree).map summaryOf := rfl

/-- Below a name a tree says what the children of the node say. -/
theorem summary?_cons {id : List String} (nonempty : id ≠ []) (name : String)
    (tree : MessageTree ι) : summary? (name :: id) tree = summary? id (childrenAt name tree) := by
  cases id with
  | nil => exact absurd rfl nonempty
  | cons next id =>
      simp only [summary?, get?, childrenAt]
      cases Dict.find? name tree with
      | none => exact (summary?_nil (next :: id)).symm
      | some node => rfl

theorem counts_eq_summary? (id : List String) (tree : MessageTree ι) :
    counts id tree = ((summary? id tree).map Summary.counts).getD {} := by
  rw [counts, summary?]
  cases get? id tree <;> rfl

theorem messages_eq_summary? (id : List String) (tree : MessageTree ι) :
    messages id tree = ((summary? id tree).map Summary.messages).getD [] := by
  rw [messages, summary?]
  cases get? id tree <;> rfl

theorem isSome_summary? (id : List String) (tree : MessageTree ι) :
    (summary? id tree).isSome = (get? id tree).isSome :=
  Option.isSome_map

variable {a b c : MessageTree ι}

/-- Two trees that say the same under each identifier are equal. -/
theorem Ordered.ext (ha : Ordered a) (hb : Ordered b) (same : ∀ id, summary? id a = summary? id b) :
    a = b := by
  induction ha generalizing b with
  | @intro a sorted _ ih =>
      refine sorted.ext hb.sorted fun name => ?_
      have here := same [name]
      rw [summary?_singleton, summary?_singleton] at here
      cases left : Dict.find? name a with
      | none =>
          rw [left, Option.map_none, eq_comm, Option.map_eq_none_iff] at here
          exact here.symm
      | some node =>
          rw [left, Option.map_some, eq_comm, Option.map_eq_some_iff] at here
          obtain ⟨other, right, level⟩ := here
          obtain ⟨counts, messages⟩ := Summary.mk.inj level
          have ordered : Ordered (childrenAt name b) := hb.children name
          -- below the name the two trees go on with the children of their nodes
          have deeper (id : List String) :
              summary? id (childrenAt name a) = summary? id (childrenAt name b) := by
            cases id with
            | nil => rfl
            | cons next id =>
                have below := same (name :: next :: id)
                rwa [summary?_cons (List.cons_ne_nil _ _),
                  summary?_cons (List.cons_ne_nil _ _)] at below
          simp only [childrenAt, left, right, Option.getD_some] at ordered deeper
          have children := ih name node left ordered deeper
          cases node
          cases other
          simp only at counts messages children
          rw [right, counts, messages, children]

/-! ## Merging -/

theorem merge_nil (a : MessageTree ι) : a.merge [] = a := by
  rw [merge]

theorem childrenAt_merge (ha : Dict.Sorted a) (hb : Dict.Sorted b) (name : String) :
    childrenAt name (a.merge b) = (childrenAt name a).merge (childrenAt name b) := by
  rw [childrenAt, find?_merge ha hb]
  cases found : Dict.find? name b with
  | none => simp [childrenAt, found, merge_nil]
  | some node => simp [childrenAt, found, mergeNode_eq]

/-- Merging keeps the names increasing at every level. -/
theorem Ordered.merge (ha : Ordered a) (hb : Ordered b) : Ordered (a.merge b) := by
  induction hb generalizing a with
  | @intro b sorted _ ih =>
      refine .intro (sorted_merge ha.sorted) fun name node found => ?_
      have below : node.children = childrenAt name (a.merge b) := by
        rw [childrenAt, found, Option.getD_some]
      rw [below, childrenAt_merge ha.sorted sorted]
      have first : Ordered (childrenAt name a) := ha.children name
      cases other : Dict.find? name b with
      | none =>
          have nothing : childrenAt name b = [] := by rw [childrenAt, other]; rfl
          rwa [nothing, merge_nil]
      | some second =>
          have children : childrenAt name b = second.children := by rw [childrenAt, other]; rfl
          rw [children]
          exact ih name second other first

/-- Under each identifier a merged tree says what the two trees say there, taken together. -/
theorem summary?_merge (ha : Ordered a) (hb : Ordered b) (id : List String) :
    summary? id (a.merge b) = Option.merge Summary.plus (summary? id a) (summary? id b) := by
  induction id generalizing a b with
  | nil => rfl
  | cons name id ih =>
      by_cases last : id = []
      · subst last
        simp only [summary?_singleton, find?_merge ha.sorted hb.sorted]
        cases Dict.find? name b with
        | none => simp
        | some node => cases Dict.find? name a <;> simp [mergeNode_eq, summaryOf, Summary.plus]
      · simp only [summary?_cons last, childrenAt_merge ha.sorted hb.sorted]
        exact ih (ha.children name) (hb.children name)

theorem merge_assoc (ha : Ordered a) (hb : Ordered b) (hc : Ordered c) :
    (a.merge b).merge c = a.merge (b.merge c) := by
  refine ((ha.merge hb).merge hc).ext (ha.merge (hb.merge hc)) fun id => ?_
  rw [summary?_merge (ha.merge hb) hc, summary?_merge ha hb, summary?_merge ha (hb.merge hc),
    summary?_merge hb hc]
  exact Std.Associative.assoc ..

theorem nil_merge (ha : Ordered a) : merge [] a = a := by
  refine (Ordered.nil.merge ha).ext ha fun id => ?_
  rw [summary?_merge .nil ha, summary?_nil, Option.merge_none_left]

/-- A merged tree has a node under an identifier exactly if one of the two trees has one. Its
counters are the sums of theirs, and its records are those of the first tree followed by those of
the second one. Merging is associative, the empty tree makes no difference on either side, and a
record can be inserted into the second tree before they are merged, or into the merged tree. -/
theorem merge_adds_trees (ha : Ordered a) (hb : Ordered b) (hc : Ordered c) :
    Ordered (a.merge b) ∧
    (∀ id,
      ((get? id (a.merge b)).isSome = true ↔ (get? id a).isSome = true ∨
        (get? id b).isSome = true) ∧
      counts id (a.merge b) = (counts id a).plus (counts id b) ∧
      messages id (a.merge b) = messages id a ++ messages id b) ∧
    (a.merge b).merge c = a.merge (b.merge c) ∧
    merge [] a = a ∧ a.merge [] = a ∧
    ∀ uid severity id, a.merge (b.insert uid severity id) = (a.merge b).insert uid severity id := by
  refine ⟨ha.merge hb, fun id => ⟨?_, ?_, ?_⟩, merge_assoc ha hb hc, nil_merge ha, merge_nil a,
    merge_insert ha hb⟩
  · rw [← isSome_summary?, summary?_merge ha hb, Option.isSome_merge, Bool.or_eq_true,
      isSome_summary?, isSome_summary?]
  · simp only [counts_eq_summary?, summary?_merge ha hb]
    cases summary? id a <;> cases summary? id b <;> simp [Summary.plus]
  · simp only [messages_eq_summary?, summary?_merge ha hb]
    cases summary? id a <;> cases summary? id b <;> simp [Summary.plus]

/-- A tree with a node that counts nothing, above one that does; insertions do not make such a
tree. -/
theorem merge_adds_trees_hollow :
    ∃ a b : MessageTree Nat, Ordered a ∧ Ordered b ∧
      a = ofEntries [⟨1, .error, ["x", "z"]⟩] ∧
      b = [("x", ⟨{}, [], [("y", ⟨{ notices := 1 }, [2], []⟩)]⟩)] ∧
      counts ["x"] (a.merge b) = { errors := 1 } ∧ messages ["x", "y"] (a.merge b) = [2] ∧
      (a.merge b).merge a = a.merge (b.merge a) ∧
      a.merge (b.insert 3 .warning ["x", "y"]) = (a.merge b).insert 3 .warning ["x", "y"] := by
  have one {name : String} {node : MessageNode Nat} (below : Ordered node.children) :
      Ordered [(name, node)] := by
    refine .intro (List.pairwise_singleton ..) fun key other found => ?_
    rw [Dict.find?_cons] at found
    split at found
    · cases found
      exact below
    · cases found
  have ha : Ordered (ofEntries [(⟨1, .error, ["x", "z"]⟩ : Entry Nat)]) := Ordered.ofEntries _
  have hb : Ordered [("x", (⟨{}, [], [("y", ⟨{ notices := 1 }, [2], []⟩)]⟩ : MessageNode Nat))] :=
    one (one .nil)
  obtain ⟨-, nodes, assoc, -, -, insert⟩ := merge_adds_trees ha hb ha
  exact ⟨_, _, ha, hb, rfl, rfl, (nodes ["x"]).2.1, (nodes ["x", "y"]).2.2, assoc,
    insert 3 .warning ["x", "y"]⟩

end MessageTree

end AddonAudit
