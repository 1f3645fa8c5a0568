import AddonAudit.MessageTree
import AddonAudit.Proofs.Dict
import Mathlib.Data.List.Induction
import Mathlib.Data.List.Nodup

/-!
# Laws of message trees

A tree is compared with the one that is built from scratch: the records are inserted, in order, into
the empty tree. What is found in such a tree under a name depends on the records whose identifier
starts with the name, and on nothing else. Taking a record back gives the tree built without it, and
merging a second tree gives the tree built from the records of both.
-/

namespace AddonAudit

attribute [ext] Counts

namespace Counts

@[simp] theorem get_empty (s : Severity) : ({} : Counts).get s = 0 := by
  cases s <;> rfl

@[simp] theorem get_increment (c : Counts) (s t : Severity) :
    (c.increment s).get t = c.get t + if s = t then 1 else 0 := by
  cases s <;> cases t <;> rfl

@[simp] theorem get_decrement (c : Counts) (s t : Severity) :
    (c.decrement s).get t = c.get t - if s = t then 1 else 0 := by
  cases s <;> cases t <;> rfl

@[simp] theorem get_plus (c d : Counts) (s : Severity) :
    (c.plus d).get s = c.get s + d.get s := by
  cases s <;> rfl

theorem ext_get {c d : Counts} (same : ∀ s, c.get s = d.get s) : c = d :=
  Counts.ext (same .error) (same .warning) (same .notice)

theorem total_eq_zero_iff {c : Counts} : c.total = 0 ↔ ∀ s, c.get s = 0 := by
  constructor
  · intro zero s
    cases s <;> simp only [total, get] at * <;> omega
  · intro zero
    simp [total, show c.errors = 0 from zero .error, show c.warnings = 0 from zero .warning,
      show c.notices = 0 from zero .notice]

@[simp] theorem plus_increment (c d : Counts) (s : Severity) :
    c.plus (d.increment s) = (c.plus d).increment s := by
  apply ext_get
  intro t
  simp [Nat.add_assoc]

@[simp] theorem plus_empty (c : Counts) : c.plus {} = c := by
  apply ext_get
  simp

end Counts

namespace MessageTree

variable {ι : Type}

/-- What a tree is told about a record. -/
structure Entry (ι : Type) where
  uid : ι
  severity : Severity
  id : List String

/-- Insert entries one after the other. -/
def insertAll (tree : MessageTree ι) (entries : List (Entry ι)) : MessageTree ι :=
  entries.foldl (fun t e => t.insert e.uid e.severity e.id) tree

/-- The tree that is built from scratch. -/
def ofEntries (entries : List (Entry ι)) : MessageTree ι :=
  insertAll [] entries

/-- The number of entries of each severity. -/
def tally (entries : List (Entry ι)) : Counts :=
  entries.foldl (fun c e => c.increment e.severity) {}

/-- An entry below a name, with the name taken off its identifier. -/
def Entry.below? (name : String) (e : Entry ι) : Option (Entry ι) :=
  match e.id with
  | [] => none
  | head :: rest => if head = name then some { e with id := rest } else none

/-- The entries below a name. -/
def below (name : String) (entries : List (Entry ι)) : List (Entry ι) :=
  entries.filterMap (Entry.below? name)

/-- The node that stands for some entries; nothing stands for none. -/
def nodeOf? (entries : List (Entry ι)) : Option (MessageNode ι) :=
  match entries with
  | [] => none
  | e :: rest =>
    some ⟨tally (e :: rest), (e :: rest).map (·.uid), ofEntries (e :: rest)⟩

@[simp] theorem ofEntries_nil : ofEntries ([] : List (Entry ι)) = [] := rfl

theorem ofEntries_append (xs ys : List (Entry ι)) :
    ofEntries (xs ++ ys) = insertAll (ofEntries xs) ys :=
  List.foldl_append ..

theorem insertAll_concat (tree : MessageTree ι) (xs : List (Entry ι)) (e : Entry ι) :
    insertAll tree (xs ++ [e]) = (insertAll tree xs).insert e.uid e.severity e.id :=
  List.foldl_append ..

theorem ofEntries_concat (xs : List (Entry ι)) (e : Entry ι) :
    ofEntries (xs ++ [e]) = (ofEntries xs).insert e.uid e.severity e.id :=
  insertAll_concat [] xs e

theorem tally_concat (xs : List (Entry ι)) (e : Entry ι) :
    tally (xs ++ [e]) = (tally xs).increment e.severity :=
  List.foldl_append ..

theorem get_tally (entries : List (Entry ι)) (s : Severity) :
    (tally entries).get s = entries.countP (·.severity = s) := by
  induction entries using List.reverseRecOn with
  | nil => simp [tally]
  | append_singleton xs e ih => simp [tally_concat, ih, List.countP_append, List.countP_cons]

theorem below_cons (name : String) (e : Entry ι) (rest : List (Entry ι)) :
    below name (e :: rest) = (e.below? name).toList ++ below name rest := by
  cases found : e.below? name <;> simp [below, found]

theorem below_concat (name : String) (xs : List (Entry ι)) (e : Entry ι) :
    below name (xs ++ [e]) = below name xs ++ (e.below? name).toList := by
  cases found : e.below? name <;> simp [below, found]

/-- The node of entries that were extended by one is the old node, or an empty one, with the entry
counted. -/
theorem nodeOf?_concat (xs : List (Entry ι)) (e : Entry ι) :
    nodeOf? (xs ++ [e]) =
      some { counts := ((nodeOf? xs).getD {}).counts.increment e.severity
             messages := ((nodeOf? xs).getD {}).messages ++ [e.uid]
             children := insert e.uid e.severity e.id ((nodeOf? xs).getD {}).children } := by
  cases xs with
  | nil => rfl
  | cons x xs =>
      have node := tally_concat (x :: xs) e
      have tree := ofEntries_concat (x :: xs) e
      simp only [List.cons_append] at node tree
      simp [nodeOf?, node, tree]

theorem sorted_insert {tree : MessageTree ι} (h : Dict.Sorted tree) (uid : ι)
    (severity : Severity) (id : List String) : Dict.Sorted (tree.insert uid severity id) := by
  cases id with
  | nil => exact h
  | cons => exact h.alter

theorem sorted_ofEntries (entries : List (Entry ι)) : Dict.Sorted (ofEntries entries) := by
  induction entries using List.reverseRecOn with
  | nil => exact Dict.sorted_nil
  | append_singleton xs e ih =>
      rw [ofEntries_concat]
      exact sorted_insert ih ..

/-- What a tree holds under a name is the node of the entries below that name. -/
theorem find?_ofEntries (name : String) (entries : List (Entry ι)) :
    Dict.find? name (ofEntries entries) = nodeOf? (below name entries) := by
  induction entries using List.reverseRecOn with
  | nil => rfl
  | append_singleton xs e ih =>
      rw [ofEntries_concat, below_concat]
      match same : e.id with
      | [] => simp [insert, Entry.below?, same, ih]
      | head :: rest =>
          by_cases here : head = name
          · subst here
            simp only [insert, Entry.below?, same, if_true, Option.toList_some, nodeOf?_concat,
              Dict.find?_alter_self (sorted_ofEntries xs), ih]
          · simp only [insert, Entry.below?, same, if_neg here, Option.toList_none,
              List.append_nil, Dict.find?_alter_of_ne here, ih]

/-- An entry below a name differs from the whole entry in its identifier only. -/
theorem Entry.eq_of_below? {name : String} {e f : Entry ι} (h : e.below? name = some f) :
    e = { f with id := name :: f.id } := by
  obtain ⟨uid, severity, id⟩ := e
  unfold Entry.below? at h
  split at h
  · cases h
  next head rest same =>
    split at h
    next here =>
      cases h
      cases same
      rw [here]
    · cases h

theorem mem_below_iff {name : String} {entries : List (Entry ι)} {f : Entry ι} :
    f ∈ below name entries ↔ { f with id := name :: f.id } ∈ entries := by
  constructor
  · intro mem
    obtain ⟨e, mem, found⟩ := List.mem_filterMap.1 mem
    exact Entry.eq_of_below? found ▸ mem
  · intro mem
    exact List.mem_filterMap.2 ⟨_, mem, by simp [Entry.below?]⟩

theorem sublist_below (name : String) (entries : List (Entry ι)) :
    ((below name entries).map (·.uid)).Sublist (entries.map (·.uid)) := by
  induction entries with
  | nil => exact .slnil
  | cons e rest ih =>
      rw [below_cons]
      cases found : e.below? name with
      | none => exact ih.cons e.uid
      | some f =>
          have same : e.uid = f.uid := by rw [Entry.eq_of_below? found]
          simpa [same] using ih.cons_cons f.uid

/-- Counters are all zero only where nothing is counted. -/
theorem total_tally_eq_zero_iff {entries : List (Entry ι)} :
    (tally entries).total = 0 ↔ entries = [] := by
  constructor
  · intro zero
    cases entries with
    | nil => rfl
    | cons e rest =>
        have counted := Counts.total_eq_zero_iff.1 zero e.severity
        rw [get_tally, List.countP_eq_zero] at counted
        simpa using counted e (by simp)
  · rintro rfl
    rfl

theorem nodeOf?_of_ne_nil {entries : List (Entry ι)} (h : entries ≠ []) :
    nodeOf? entries = some ⟨tally entries, entries.map (·.uid), ofEntries entries⟩ := by
  cases entries with
  | nil => exact absurd rfl h
  | cons => rfl

/-! ### Taking a record back -/

section Remove

variable [DecidableEq ι] {uid : ι} {severity : Severity} {entries : List (Entry ι)}

/-- The entries of all records but one. -/
def without (uid : ι) (entries : List (Entry ι)) : List (Entry ι) :=
  entries.filter (·.uid ≠ uid)

theorem without_cons (e : Entry ι) :
    without uid (e :: entries) =
      if e.uid = uid then without uid entries else e :: without uid entries := by
  by_cases same : e.uid = uid <;> simp [without, same]

theorem without_eq_self (h : ∀ e ∈ entries, e.uid ≠ uid) : without uid entries = entries :=
  List.filter_eq_self.2 fun e mem => by simpa using h e mem

theorem below_without (name : String) :
    below name (without uid entries) = without uid (below name entries) := by
  induction entries with
  | nil => rfl
  | cons e rest ih =>
      rw [without_cons, below_cons]
      cases found : e.below? name with
      | none =>
          split
          · exact ih
          · rw [below_cons, found]
            exact ih
      | some f =>
          have same : e.uid = f.uid := by rw [Entry.eq_of_below? found]
          rw [Option.toList_some, List.singleton_append, without_cons, same]
          split
          · exact ih
          · rw [below_cons, found, ih]
            rfl

omit [DecidableEq ι] in
theorem eq_of_uid (nodup : (entries.map (·.uid)).Nodup) {e f : Entry ι} (he : e ∈ entries)
    (hf : f ∈ entries) (same : e.uid = f.uid) : e = f :=
  List.inj_on_of_nodup_map nodup he hf same

theorem countP_without (nodup : (entries.map (·.uid)).Nodup) {e : Entry ι} (mem : e ∈ entries)
    (s : Severity) :
    entries.countP (·.severity = s) =
      (without e.uid entries).countP (·.severity = s) + if e.severity = s then 1 else 0 := by
  induction entries with
  | nil => cases mem
  | cons x rest ih =>
      have fresh : ∀ y ∈ rest, y.uid ≠ x.uid := fun y hy same =>
        (List.nodup_cons.1 nodup).1 (List.mem_map.2 ⟨y, hy, same⟩)
      rw [without_cons, List.countP_cons]
      rcases List.mem_cons.1 mem with rfl | mem
      · rw [if_pos rfl, without_eq_self fresh]
        simp
      · rw [if_neg (Ne.symm (fresh e mem)), List.countP_cons, ih nodup.of_cons mem]
        omega

theorem tally_without (nodup : (entries.map (·.uid)).Nodup) {e : Entry ι} (mem : e ∈ entries) :
    (tally entries).decrement e.severity = tally (without e.uid entries) := by
  apply Counts.ext_get
  intro s
  rw [Counts.get_decrement, get_tally, get_tally, countP_without nodup mem, Nat.add_sub_cancel]

theorem map_uid_without :
    (entries.map (·.uid)).filter (· ≠ uid) = (without uid entries).map (·.uid) := by
  simp [without, List.filter_map, Function.comp_def]

/-- Entries without an identifier leave no trace in a tree. -/
theorem ofEntries_without_of_nil (h : ∀ e ∈ entries, e.uid = uid → e.id = []) :
    ofEntries (without uid entries) = ofEntries entries := by
  induction entries using List.reverseRecOn with
  | nil => rfl
  | append_singleton xs e ih =>
      have before := ih fun x mem => h x (by simp [mem])
      by_cases same : e.uid = uid
      · have last : without uid (xs ++ [e]) = without uid xs := by simp [without, same]
        rw [last, before, ofEntries_concat, h e (by simp) same]
        rfl
      · have last : without uid (xs ++ [e]) = without uid xs ++ [e] := by simp [without, same]
        rw [last, ofEntries_concat, ofEntries_concat, before]

/-- Taking a record back gives the tree that is built without it. -/
theorem remove_ofEntries {id : List String} (nodup : (entries.map (·.uid)).Nodup)
    (mem : ⟨uid, severity, id⟩ ∈ entries) :
    remove uid severity id (ofEntries entries) = ofEntries (without uid entries) := by
  induction id generalizing entries with
  | nil =>
      refine (ofEntries_without_of_nil fun e he same => ?_).symm
      rw [eq_of_uid nodup he mem same]
  | cons name rest ih =>
      have mem' : ⟨uid, severity, rest⟩ ∈ below name entries := mem_below_iff.2 mem
      have nodup' := nodup.sublist (sublist_below name entries)
      have found := (find?_ofEntries name entries).trans
        (nodeOf?_of_ne_nil (List.ne_nil_of_mem mem'))
      have sorted := sorted_ofEntries entries
      -- The record stands below its own name only.
      have others (key : String) (ne : name ≠ key) :
          below key (without uid entries) = below key entries := by
        rw [below_without]
        refine without_eq_self fun f hf same => ne ?_
        have whole := eq_of_uid nodup (mem_below_iff.1 hf) mem same
        exact ((List.cons.inj (congrArg Entry.id whole)).1).symm
      rw [remove, found]
      simp only [ih nodup' mem', tally_without nodup' mem', map_uid_without]
      by_cases empty : without uid (below name entries) = []
      · rw [if_pos (total_tally_eq_zero_iff.2 empty)]
        refine sorted.erase.ext (sorted_ofEntries _) fun key => ?_
        by_cases here : name = key
        · subst here
          rw [Dict.find?_erase_self, find?_ofEntries, below_without, empty]
          rfl
        · rw [Dict.find?_erase_of_ne here, find?_ofEntries, find?_ofEntries, others key here]
      · rw [if_neg (mt total_tally_eq_zero_iff.1 empty)]
        refine (sorted.insert _).ext (sorted_ofEntries _) fun key => ?_
        by_cases here : name = key
        · subst here
          rw [Dict.find?_insert_self sorted, find?_ofEntries, below_without,
            nodeOf?_of_ne_nil empty]
        · rw [Dict.find?_insert_of_ne here, find?_ofEntries, find?_ofEntries, others key here]

end Remove

/-! ### Merging -/

/-- The names increase strictly at every level of a tree. -/
inductive Ordered : MessageTree ι → Prop
  | intro {tree : MessageTree ι} (sorted : Dict.Sorted tree)
      (children : ∀ name node, Dict.find? name tree = some node → Ordered node.children) :
      Ordered tree

namespace Ordered

theorem nil : Ordered ([] : MessageTree ι) :=
  .intro Dict.sorted_nil fun _ _ found => by cases found

theorem sorted {tree : MessageTree ι} : Ordered tree → Dict.Sorted tree
  | intro sorted _ => sorted

/-- Also the children of a node that is not there yet are ordered. -/
theorem children {tree : MessageTree ι} (h : Ordered tree) (name : String) :
    Ordered ((Dict.find? name tree).getD {}).children := by
  cases found : Dict.find? name tree with
  | none => exact nil
  | some node =>
      obtain ⟨_, below⟩ := h
      exact below name node found

theorem insert {tree : MessageTree ι} (h : Ordered tree) (uid : ι) (severity : Severity)
    (id : List String) : Ordered (tree.insert uid severity id) := by
  induction id generalizing tree with
  | nil => exact h
  | cons name rest ih =>
      refine .intro h.sorted.alter fun key node found => ?_
      by_cases here : name = key
      · subst here
        rw [MessageTree.insert, Dict.find?_alter_self h.sorted] at found
        cases found
        exact ih (h.children name)
      · rw [MessageTree.insert, Dict.find?_alter_of_ne here] at found
        obtain ⟨_, below⟩ := h
        exact below key node found

theorem insertAll {tree : MessageTree ι} (h : Ordered tree) (entries : List (Entry ι)) :
    Ordered (tree.insertAll entries) := by
  induction entries using List.reverseRecOn with
  | nil => exact h
  | append_singleton xs e ih =>
      rw [insertAll_concat]
      exact ih.insert ..

theorem ofEntries (entries : List (Entry ι)) : Ordered (MessageTree.ofEntries entries) :=
  nil.insertAll entries

end Ordered

theorem mergeNode_eq (node other : MessageNode ι) :
    mergeNode node other =
      ⟨node.counts.plus other.counts, node.messages ++ other.messages,
        merge node.children other.children⟩ := by
  cases other
  rfl

theorem sorted_merge {tree other : MessageTree ι} (h : Dict.Sorted tree) :
    Dict.Sorted (tree.merge other) := by
  induction other generalizing tree with
  | nil => simpa [merge] using h
  | cons entry rest ih =>
      rw [merge]
      exact ih h.alter

/-- What a merged tree holds under a name is what the two trees hold there, taken together. -/
theorem find?_merge {tree other : MessageTree ι} (h : Dict.Sorted tree) (ho : Dict.Sorted other)
    (name : String) :
    Dict.find? name (tree.merge other) =
      match Dict.find? name other with
      | none => Dict.find? name tree
      | some node => some (mergeNode ((Dict.find? name tree).getD {}) node) := by
  induction ho generalizing tree with
  | nil => simp [merge]
  | @cons entry rest below sorted ih =>
      rw [merge, ih h.alter, Dict.find?_cons]
      by_cases here : entry.1 = name
      · subst here
        have last : Dict.find? entry.1 rest = none := Dict.find?_eq_none_of_lt below
        rw [last, if_pos rfl, Dict.find?_alter_self h]
      · rw [if_neg here, Dict.find?_alter_of_ne here]

/-- Inserting a record and then merging is merging and then inserting it. -/
theorem merge_insert {tree other : MessageTree ι} (h : Ordered tree) (ho : Ordered other)
    (uid : ι) (severity : Severity) (id : List String) :
    tree.merge (other.insert uid severity id) = (tree.merge other).insert uid severity id := by
  induction id generalizing tree other with
  | nil => rfl
  | cons name rest ih =>
      have sorted : Dict.Sorted (tree.merge other) := sorted_merge h.sorted
      have sorted' := sorted_insert ho.sorted uid severity (name :: rest)
      refine (sorted_merge h.sorted).ext (sorted_insert sorted ..) fun key => ?_
      rw [find?_merge h.sorted sorted']
      by_cases here : name = key
      · subst here
        -- Both nodes are merged below the name; the record goes to the second one.
        have deeper := ih (h.children name) (ho.children name)
        simp only [insert, Dict.find?_alter_self ho.sorted, Dict.find?_alter_self sorted,
          find?_merge h.sorted ho.sorted]
        cases found : Dict.find? name other with
        | none => simp_all [mergeNode_eq, merge]
        | some node => simp_all [mergeNode_eq]
      · simp only [insert, Dict.find?_alter_of_ne here]
        rw [find?_merge h.sorted ho.sorted]

/-- Merging a tree that was built from scratch inserts its entries. -/
theorem merge_ofEntries {tree : MessageTree ι} (h : Ordered tree) (entries : List (Entry ι)) :
    tree.merge (ofEntries entries) = tree.insertAll entries := by
  induction entries using List.reverseRecOn with
  | nil => simp [insertAll, merge]
  | append_singleton xs e ih =>
      rw [ofEntries_concat, merge_insert h (Ordered.ofEntries xs), ih, insertAll_concat]

/-- The merged tree of two trees that were built from scratch is built from the entries of both. -/
theorem merge_ofEntries_ofEntries (xs ys : List (Entry ι)) :
    (ofEntries xs).merge (ofEntries ys) = ofEntries (xs ++ ys) := by
  rw [merge_ofEntries (Ordered.ofEntries xs), ofEntries_append]

/-! ### What is counted under an identifier -/

/-- The entries below all parts of an identifier. -/
def under : List String → List (Entry ι) → List (Entry ι)
  | [], entries => entries
  | name :: rest, entries => under rest (below name entries)

@[simp] theorem under_nil (id : List String) : under id ([] : List (Entry ι)) = [] := by
  induction id with
  | nil => rfl
  | cons name rest ih => exact ih

/-- The node of an identifier is the node of the entries below it. -/
theorem get?_ofEntries {id : List String} (h : id ≠ []) (entries : List (Entry ι)) :
    get? id (ofEntries entries) = nodeOf? (under id entries) := by
  induction id generalizing entries with
  | nil => exact absurd rfl h
  | cons name rest ih =>
      cases rest with
      | nil => exact find?_ofEntries name entries
      | cons next rest =>
          simp only [get?, find?_ofEntries]
          by_cases empty : below name entries = []
          · rw [under, empty, under_nil]
            rfl
          · rw [nodeOf?_of_ne_nil empty]
            exact ih (by simp) (below name entries)

theorem under_eq (id : List String) (entries : List (Entry ι)) :
    (under id entries).map (fun e => (e.uid, e.severity)) =
      (entries.filter (id.isPrefixOf ·.id)).map fun e => (e.uid, e.severity) := by
  induction id generalizing entries with
  | nil => simp [under]
  | cons name rest ih =>
      rw [under, ih]
      induction entries with
      | nil => rfl
      | cons e entries step =>
          rw [below_cons, List.filter_append, List.map_append, step]
          match same : e.id with
          | [] => simp [Entry.below?, same]
          | head :: tail =>
              by_cases here : head = name
              · by_cases deeper : rest.isPrefixOf tail <;>
                  simp [Entry.below?, same, here, deeper]
              · simp [Entry.below?, same, here, Ne.symm here]

/-- The counters under an identifier are the numbers of entries of each severity that start with
it. -/
theorem get_counts_ofEntries {id : List String} (h : id ≠ []) (entries : List (Entry ι))
    (s : Severity) :
    (counts id (ofEntries entries)).get s =
      (entries.filter (id.isPrefixOf ·.id)).countP (·.severity = s) := by
  have node : counts id (ofEntries entries) = tally (under id entries) := by
    rw [counts, get?_ofEntries h]
    cases under id entries <;> rfl
  have same := congrArg (List.countP fun pair : ι × Severity => pair.2 = s) (under_eq id entries)
  simp only [List.countP_map, Function.comp_def] at same
  rw [node, get_tally, same]

/-- The records under an identifier are those that start with it, in the order of arrival. -/
theorem messages_ofEntries {id : List String} (h : id ≠ []) (entries : List (Entry ι)) :
    ((get? id (ofEntries entries)).map (·.messages)).getD [] =
      (entries.filter (id.isPrefixOf ·.id)).map (·.uid) := by
  have same := congrArg (List.map Prod.fst) (under_eq id entries)
  simp only [List.map_map, Function.comp_def] at same
  rw [get?_ofEntries h, ← same]
  cases under id entries <;> rfl

/-- Every node of a tree that is built from scratch counts something. -/
theorem total_ne_zero_of_get? {id : List String} {entries : List (Entry ι)}
    {node : MessageNode ι} (found : get? id (ofEntries entries) = some node) :
    node.counts.total ≠ 0 := by
  have nonempty : id ≠ [] := by
    rintro rfl
    cases found
  rw [get?_ofEntries nonempty] at found
  cases here : under id entries with
  | nil => simp [here, nodeOf?] at found
  | cons e rest =>
      rw [here, nodeOf?] at found
      cases found
      exact mt total_tally_eq_zero_iff.1 (List.cons_ne_nil e rest)

end MessageTree

end AddonAudit
