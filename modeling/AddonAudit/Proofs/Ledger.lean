import AddonAudit.Proofs.Bundle

/-!
# The ledger of a run

A ledger notes, beside a run of operations on a bundle, which records belong to which package: a
record belongs to the package that was open when it was made, and when a package is left its records
pass to the one around it. Taking a record back is not noted; whether a record is live is read off
the bundle.

The message tree is maintained step by step along four different paths. The main result says that it
is nevertheless always the tree that is built from scratch out of the live records of the open
package.
-/

namespace AddonAudit

namespace Bundle

/-- An operation on a bundle. -/
inductive Operation where
  | push (severity : Severity) (finding : Finding)
  | drop (uid : Nat)
  | enter (name : String)
  | leave
  | setTier (tier : Nat)
  | setMeta (name : String) (value : Json)
  | saveResource (name : String) (value : Json) (inPackage : Bool)

/-- The bundle after an operation. -/
def Operation.apply (b : Bundle) : Operation → Bundle
  | .push severity finding => (b.push severity finding).2
  | .drop uid => (b.drop uid).2
  | .enter name => b.enter name
  | .leave => b.leave.2
  | .setTier tier => b.setTier tier
  | .setMeta name value => b.setMeta name value
  | .saveResource name value inPackage => b.saveResource name value inPackage

/-- The numbers of the records of the open package and of each package around it, innermost first,
in the order in which they were made. -/
structure Ledger where
  own : List Nat := []
  outer : List (List Nat) := []

namespace Ledger

/-- The ledger after an operation on a bundle. -/
def after (l : Ledger) (b : Bundle) : Operation → Ledger
  | .push severity finding => { l with own := l.own ++ (b.push severity finding).1.toList }
  | .enter _ => ⟨[], l.own :: l.outer⟩
  | .leave =>
    match l.outer with
    | [] => l
    | own :: outer => ⟨own ++ l.own, outer⟩
  | .drop _ | .setTier _ | .setMeta _ _ | .saveResource _ _ _ => l

/-- All numbers, from the outermost package inwards. -/
def all (l : Ledger) : List Nat :=
  l.outer.reverse.flatten ++ l.own

end Ledger

/-- A number that is taken back is unknown, or it belongs to the open package. -/
def Operation.Allowed (b : Bundle) (l : Ledger) : Operation → Prop
  | .drop uid => (∀ r ∈ b.messages, r.uid ≠ uid) ∨ uid ∈ l.own
  | _ => True

/-- A bundle and the ledger of a run that leads to it from an empty bundle. -/
inductive Reached : Bundle → Ledger → Prop
  | start (versions : Option AppVersions) : Reached (ofSupported versions) {}
  | step {b : Bundle} {l : Ledger} (reached : Reached b l) (op : Operation)
      (allowed : op.Allowed b l) : Reached (op.apply b) (l.after b op)

/-- The records with some numbers that the bundle still keeps. -/
def live (b : Bundle) (uids : List Nat) : List Record :=
  uids.filterMap fun uid => b.messages.find? (·.uid = uid)

/-- The tree that is built from records. -/
def treeOf (records : List Record) : MessageTree Nat :=
  records.foldl (fun tree r => tree.insert r.uid r.severity r.id) []

theorem treeOf_eq (records : List Record) :
    treeOf records = MessageTree.ofEntries (records.map Record.entry) := by
  simp only [treeOf, MessageTree.ofEntries, MessageTree.insertAll, List.foldl_map, Record.entry]

theorem treeOf_concat (records : List Record) (r : Record) :
    treeOf (records ++ [r]) = (treeOf records).insert r.uid r.severity r.id :=
  List.foldl_append ..

theorem live_append (b : Bundle) (xs ys : List Nat) :
    b.live (xs ++ ys) = b.live xs ++ b.live ys :=
  List.filterMap_append ..

/-- What a ledger says about the bundle it was kept beside. -/
structure Kept (b : Bundle) (l : Ledger) : Prop where
  numbered : Numbered b
  sorted : Sorted b
  below : ∀ uid ∈ l.all, uid < b.next
  increasing : l.all.Pairwise (· < ·)
  tree : b.tree = treeOf (b.live l.own)
  outer : b.outer.map (·.tree) = l.outer.map fun uids => treeOf (b.live uids)

variable {b c : Bundle} {l : Ledger} {r : Record} {uid : Nat} {uids : List Nat}

theorem Numbered.find?_eq_some_iff (h : Numbered b) :
    b.messages.find? (·.uid = uid) = some r ↔ r ∈ b.messages ∧ r.uid = uid := by
  constructor
  · intro found
    exact ⟨List.mem_of_find?_eq_some found, by simpa using List.find?_some found⟩
  · rintro ⟨mem, same⟩
    cases found : b.messages.find? (·.uid = uid) with
    | none => simpa [same] using List.find?_eq_none.1 found r mem
    | some x =>
        have hx := List.mem_of_find?_eq_some found
        have same' : x.uid = uid := by simpa using List.find?_some found
        rw [h.eq_of_uid hx mem (same'.trans same.symm)]

/-- Two bundles that agree on the records with some numbers have the same ones of them live. -/
theorem live_congr (hb : Numbered b) (hc : Numbered c)
    (same : ∀ r, r.uid ∈ uids → (r ∈ c.messages ↔ r ∈ b.messages)) : c.live uids = b.live uids := by
  refine List.filterMap_congr fun uid mem => Option.ext fun r => ?_
  rw [hc.find?_eq_some_iff, hb.find?_eq_some_iff]
  constructor
  · rintro ⟨here, rfl⟩
    exact ⟨(same r mem).1 here, rfl⟩
  · rintro ⟨here, rfl⟩
    exact ⟨(same r mem).2 here, rfl⟩

theorem mem_live (h : Numbered b) : r ∈ b.live uids ↔ r ∈ b.messages ∧ r.uid ∈ uids := by
  simp only [live, List.mem_filterMap, h.find?_eq_some_iff]
  constructor
  · rintro ⟨uid, mem, here, rfl⟩
    exact ⟨here, mem⟩
  · rintro ⟨here, mem⟩
    exact ⟨r.uid, mem, here, rfl⟩

/-- The live records keep the order of their numbers. -/
theorem live_uids_sublist (b : Bundle) (uids : List Nat) :
    ((b.live uids).map (·.uid)).Sublist uids := by
  induction uids with
  | nil => exact .slnil
  | cons uid rest ih =>
      cases found : b.messages.find? (·.uid = uid) with
      | none => simpa [live, found] using ih.cons uid
      | some r =>
          have same : r.uid = uid := by simpa using List.find?_some found
          simpa [live, found, same] using ih.cons_cons uid

/-- A new record is live, and no other record comes or goes. -/
theorem live_push (h : Numbered b) (fresh : ∀ uid ∈ uids, uid < b.next) (s : Severity)
    (f : Finding) :
    (b.append (b.stamp s f)).live uids = b.live uids ∧
      (b.append (b.stamp s f)).live [b.next] = [b.stamp s f] := by
  have numbered : Numbered (b.append (b.stamp s f)) := h.append (Nat.le_refl _)
  constructor
  · refine live_congr h numbered fun r mem => ?_
    have lt := fresh r.uid mem
    rw [mem_append_messages]
    constructor
    · rintro (here | rfl)
      · exact here
      · exact absurd lt (Nat.lt_irrefl _)
    · exact .inl
  · have found : (b.append (b.stamp s f)).messages.find? (·.uid = b.next) = some (b.stamp s f) :=
      numbered.find?_eq_some_iff.2 ⟨mem_append_messages.2 (.inr rfl), rfl⟩
    simp [live, found]

/-- Of the live records exactly the one that is taken back goes. -/
theorem live_retract (h : Numbered b) {s : Severity} (mem : r ∈ b.records s) (uids : List Nat) :
    (b.retract r s).live uids = (b.live uids).filter (·.uid ≠ r.uid) := by
  rw [live, live, List.filter_filterMap]
  refine List.filterMap_congr fun uid _ => Option.ext fun x => ?_
  rw [h.retract.find?_eq_some_iff, h.mem_retract mem, Option.filter_eq_some_iff,
    h.find?_eq_some_iff]
  constructor
  · rintro ⟨⟨here, ne⟩, same⟩
    exact ⟨⟨here, same⟩, by simpa using ne⟩
  · rintro ⟨⟨here, same⟩, ne⟩
    exact ⟨⟨here, by simpa using ne⟩, same⟩

namespace Kept

theorem start (versions : Option AppVersions) : Kept (ofSupported versions) {} where
  numbered := ⟨List.nodup_nil, fun _ mem => absurd mem List.not_mem_nil⟩
  sorted s := by cases s <;> exact fun _ mem => absurd mem List.not_mem_nil
  below _ mem := absurd mem List.not_mem_nil
  increasing := .nil
  tree := rfl
  outer := rfl

/-- Whatever keeps records, trees and numbering keeps a ledger. -/
theorem congr (h : Kept b l) (records : ∀ s, c.records s = b.records s) (next : c.next = b.next)
    (tree : c.tree = b.tree) (outer : c.outer = b.outer) : Kept c l := by
  have messages : c.messages = b.messages :=
    congrArg₂ (· ++ ·) (congrArg₂ (· ++ ·) (records .error) (records .warning)) (records .notice)
  have live (uids : List Nat) : c.live uids = b.live uids := by
    simp only [Bundle.live, messages]
  exact {
    numbered := ⟨messages ▸ h.numbered.distinct, messages ▸ next ▸ h.numbered.below⟩
    sorted := fun s r mem => h.sorted s r (records s ▸ mem)
    below := next ▸ h.below
    increasing := h.increasing
    tree := by rw [tree, h.tree, live]
    outer := by simp only [outer, h.outer, live] }

theorem push (h : Kept b l) (s : Severity) (f : Finding) :
    Kept (b.push s f).2 { l with own := l.own ++ (b.push s f).1.toList } := by
  rcases push_cases s f b with skipped | pushed
  · simpa [skipped] using h
  · have own : ∀ uid ∈ l.own, uid < b.next := fun uid mem =>
      h.below uid (List.mem_append_right _ mem)
    have outer : ∀ uids ∈ l.outer, ∀ uid ∈ uids, uid < b.next := fun uids here uid mem =>
      h.below uid (List.mem_append_left _
        (List.mem_flatten.2 ⟨uids, List.mem_reverse.2 here, mem⟩))
    have all : Ledger.all { l with own := l.own ++ [b.next] } = l.all ++ [b.next] := by
      simp [Ledger.all]
    simp only [pushed, Option.toList_some]
    refine ⟨h.numbered.append (Nat.le_refl _), h.sorted.append, ?_, ?_, ?_, ?_⟩
    · intro uid mem
      rw [all, List.mem_append, List.mem_singleton] at mem
      rw [append_next]
      rcases mem with mem | rfl
      · exact Nat.lt_succ_of_lt (h.below uid mem)
      · exact Nat.lt_succ_self _
    · rw [all, List.pairwise_append]
      refine ⟨h.increasing, List.pairwise_singleton .., fun uid mem next here => ?_⟩
      rw [List.mem_singleton.1 here]
      exact h.below uid mem
    · obtain ⟨before, last⟩ := live_push h.numbered own s f
      rw [append_tree, h.tree, live_append, before, last, treeOf_concat]
    · rw [append_sameSetting.outer, h.outer]
      refine List.map_congr_left fun uids here => ?_
      rw [(live_push h.numbered (outer uids here) s f).1]

theorem drop (h : Kept b l) (allowed : Operation.Allowed b l (.drop uid)) :
    Kept (b.drop uid).2 l := by
  rcases drop_cases uid b with ⟨_, missed⟩ | ⟨s, r, mem, rfl, hit⟩
  · rwa [missed]
  · have known := mem_messages.2 ⟨s, mem⟩
    have own : r.uid ∈ l.own := by
      rcases allowed with unknown | own
      · exact absurd rfl (unknown r known)
      · exact own
    obtain ⟨_, ascending, apart⟩ := List.pairwise_append.1 h.increasing
    rw [hit]
    refine ⟨h.numbered.retract, h.sorted.retract, ?_, h.increasing, ?_, ?_⟩
    · rw [retract_next]
      exact h.below
    · -- The tree without the record is built from the records that are left.
      have nodup : (((b.live l.own).map Record.entry).map (·.uid)).Nodup := by
        have increasing := ascending.sublist (live_uids_sublist b l.own)
        rw [List.map_map]
        exact increasing.imp fun lt => Nat.ne_of_lt lt
      have entry : r.entry ∈ (b.live l.own).map Record.entry :=
        List.mem_map_of_mem ((mem_live h.numbered).2 ⟨known, own⟩)
      rw [retract_tree, h.tree, treeOf_eq, treeOf_eq, live_retract h.numbered mem,
        MessageTree.remove_ofEntries nodup entry, MessageTree.without, List.filter_map]
      rfl
    · rw [retract_sameSetting.outer, h.outer]
      refine List.map_congr_left fun uids here => ?_
      rw [live_congr h.numbered h.numbered.retract fun x hx => ?_]
      rw [h.numbered.mem_retract mem]
      have lt := apart x.uid
        (List.mem_flatten.2 ⟨uids, List.mem_reverse.2 here, hx⟩) r.uid own
      exact ⟨And.left, fun kept => ⟨kept, Nat.ne_of_lt lt⟩⟩

theorem enter (h : Kept b l) (name : String) :
    Kept (b.enter name) ⟨[], l.own :: l.outer⟩ := by
  have all : Ledger.all ⟨[], l.own :: l.outer⟩ = l.all := by simp [Ledger.all]
  exact {
    numbered := ⟨h.numbered.distinct, h.numbered.below⟩
    sorted := fun s r mem => h.sorted s r (by cases s <;> exact mem)
    below := all ▸ h.below
    increasing := all ▸ h.increasing
    tree := rfl
    outer := congrArg₂ List.cons h.tree h.outer }

theorem leave (h : Kept b l) : Kept b.leave.2 (l.after b .leave) := by
  have trees := h.outer
  cases packages : b.outer with
  | nil =>
      rw [packages] at trees
      have outermost : l.outer = [] := by simpa using trees.symm
      simpa [Bundle.leave, packages, Ledger.after, outermost] using h
  | cons package rest =>
      rw [packages] at trees
      cases around : l.outer with
      | nil => simp [around] at trees
      | cons own outer =>
          rw [around] at trees
          obtain ⟨tree, trees⟩ := List.cons.inj trees
          have all : Ledger.all ⟨own ++ l.own, outer⟩ = l.all := by
            simp [Ledger.all, around]
          simp only [Bundle.leave, packages, Ledger.after, around]
          exact {
            numbered := ⟨h.numbered.distinct, h.numbered.below⟩
            sorted := fun s r mem => h.sorted s r (by cases s <;> exact mem)
            below := all ▸ h.below
            increasing := all ▸ h.increasing
            tree := by
              have merged : treeOf (b.live (own ++ l.own)) =
                  (treeOf (b.live own)).merge (treeOf (b.live l.own)) := by
                rw [treeOf_eq, treeOf_eq, treeOf_eq, MessageTree.merge_ofEntries_ofEntries,
                  live_append, List.map_append]
              exact (congrArg₂ MessageTree.merge tree h.tree).trans merged.symm
            outer := trees }

end Kept

/-- What one operation preserves, every run preserves. -/
theorem Reached.kept (h : Reached b l) : Kept b l := by
  induction h with
  | start versions => exact .start versions
  | step _ op allowed ih =>
      cases op with
      | push severity finding => exact ih.push severity finding
      | drop uid => exact ih.drop allowed
      | enter name => exact ih.enter name
      | leave => exact ih.leave
      | setTier tier => exact ih.congr (fun s => by cases s <;> rfl) rfl rfl rfl
      | setMeta name value => exact ih.congr (fun s => by cases s <;> rfl) rfl rfl rfl
      | saveResource name value inPackage =>
          cases inPackage <;> exact ih.congr (fun s => by cases s <;> rfl) rfl rfl rfl

/-- After every run the message tree is the one that is built from scratch by inserting, in the
order in which they were made, the live records of the open package. Under every identifier it
counts the live records that start with it and lists their numbers, and no node of it counts
nothing. -/
theorem tree_eq_rebuilt_of_reached (h : Reached b l) :
    b.tree = treeOf (b.live l.own) ∧
      ((b.live l.own).map (·.uid)).Pairwise (· < ·) ∧
      (∀ id ≠ [],
        (∀ s, (b.tree.counts id).get s =
          ((b.live l.own).filter (id.isPrefixOf ·.id)).countP (·.severity = s)) ∧
        ((b.tree.get? id).map (·.messages)).getD [] =
          ((b.live l.own).filter (id.isPrefixOf ·.id)).map (·.uid)) ∧
      ∀ id node, b.tree.get? id = some node → node.counts.total ≠ 0 := by
  have kept := h.kept
  have ascending := (List.pairwise_append.1 kept.increasing).2.1
  refine ⟨kept.tree, ascending.sublist (live_uids_sublist b l.own), fun id nonempty => ⟨?_, ?_⟩, ?_⟩
  · intro s
    rw [kept.tree, treeOf_eq, MessageTree.get_counts_ofEntries nonempty, List.filter_map,
      List.countP_map]
    rfl
  · rw [kept.tree, treeOf_eq, MessageTree.messages_ofEntries nonempty, List.filter_map,
      List.map_map]
    rfl
  · intro id node found
    rw [kept.tree, treeOf_eq] at found
    exact MessageTree.total_ne_zero_of_get? found

/-- A record is made, another one inside an inner package; back outside, the first one is taken back
and only the inner one is left in the tree. -/
theorem tree_eq_rebuilt_after_nested_package :
    ∃ b l, Reached b l ∧ l.own = [0, 1] ∧ b.messages.map (·.uid) = [1] ∧
      b.tree = treeOf (b.live l.own) := by
  have reached := Reached.start none
    |>.step (.push .error { id := ["a", "b"], message := "" }) trivial
    |>.step (.enter "inner") trivial
    |>.step (.push .warning { id := ["a"], message := "" }) trivial
    |>.step .leave trivial
    |>.step (.drop 0) (.inr (by decide))
  exact ⟨_, _, reached, rfl, rfl, (tree_eq_rebuilt_of_reached reached).1⟩

end Bundle

end AddonAudit
