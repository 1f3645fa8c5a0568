import AddonAudit.Proofs.Registry.Tree

/-!
# What a call leaves behind

A call walks down its path and adds what is missing before it knows whether the end is free. Main
statement: `Registry.calls_exact`. A path is refused exactly if it is empty, if an earlier call took
it, or if it is no glob where it has to be one; then the registry is as it was before, down to the
last link. A call that succeeds gives its behaviour to the entity at its own path, and it leaves all
other entities where and as they were.
-/

namespace AddonAudit.Script

namespace Entity

/-- An entity without its links to children. -/
def bare (e : Entity) : Entity :=
  { e with children := [], wildcard := none }

variable (e : Entity) (name other : String) (child : EntityId)

theorem bare_link : (e.link name child).bare = e.bare := by
  unfold link
  split <;> rfl

theorem slot?_link :
    (e.link name child).slot? other = if name = other then some child else e.slot? other := by
  unfold link slot?
  by_cases star : name = "*"
  · subst star
    by_cases same : other = "*"
    · rw [if_pos rfl, if_pos same, if_pos same.symm]
    · rw [if_pos rfl, if_neg same, if_neg (Ne.symm same), if_neg same]
  · rw [if_neg star]
    by_cases same : other = "*"
    · rw [if_pos same, if_neg (same ▸ star), if_pos same]
    · rw [if_neg same, if_neg same]
      exact Dict.find?_insert ..

/-- A star is never put among the children with a name. -/
theorem find?_star_link : (e.link name child).children.find? "*" = e.children.find? "*" := by
  unfold link
  split
  · rfl
  next star => exact Dict.find?_insert_of_ne star child

end Entity

namespace Registry

variable {r r' r'' : Registry} {id parent : EntityId} {name : String} {path : List String}

theorem get_push (e : Entity) (deep : List (Glob × EntityId)) (id : EntityId) :
    get ⟨r.entities.push e, deep⟩ id = if id = r.size then e else r.get id := by
  unfold get size
  rw [Array.getElem?_push]
  split <;> rfl

theorem get_modify (f : Entity → Entity) (here : parent < r.size) (id : EntityId) :
    get { r with entities := r.entities.modify parent f } id =
      if id = parent then f (r.get id) else r.get id := by
  unfold get
  rw [Array.getElem?_modify]
  by_cases same : parent = id
  · subst same
    rw [if_pos rfl, if_pos rfl, Array.getElem?_eq_getElem here]
    rfl
  · rw [if_neg same, if_neg (Ne.symm same)]

theorem get_alloc (here : parent < r.size) (id : EntityId) :
    (r.alloc name parent).2.get id =
      if id = parent then (r.get parent).link name r.size
      else if id = r.size then { name, parent := some parent } else r.get id := by
  have there : parent < size ⟨r.entities.push { name, parent := some parent }, r.deep⟩ :=
    (size_push _ _).symm ▸ Nat.lt_succ_of_lt here
  refine (get_modify (fun e => e.link name r.size) there id).trans ?_
  by_cases same : id = parent
  · subst same
    rw [if_pos rfl, if_pos rfl, get_push, if_neg (Nat.ne_of_lt here)]
  · rw [if_neg same, if_neg same, get_push]

theorem size_alloc : (r.alloc name parent).2.size = r.size + 1 :=
  (size_modify (r := ⟨r.entities.push _, r.deep⟩) _).trans (size_push _ _)

theorem bare_alloc (here : parent < r.size) (id : EntityId) :
    ((r.alloc name parent).2.get id).bare =
      if id = r.size then { name, parent := some parent } else (r.get id).bare := by
  rw [get_alloc here]
  by_cases same : id = parent
  · subst same
    rw [if_pos rfl, if_neg (Nat.ne_of_lt here)]
    exact Entity.bare_link ..
  · rw [if_neg same]
    split <;> rfl

theorem parent_alloc (here : parent < r.size) (id : EntityId) :
    ((r.alloc name parent).2.get id).parent =
      if id = r.size then some parent else (r.get id).parent :=
  (congrArg Entity.parent (bare_alloc here id)).trans (apply_ite Entity.parent ..)

theorem name_alloc (here : parent < r.size) (id : EntityId) :
    ((r.alloc name parent).2.get id).name = if id = r.size then name else (r.get id).name :=
  (congrArg Entity.name (bare_alloc here id)).trans (apply_ite Entity.name ..)

theorem slot?_alloc (here : parent < r.size) (owner : EntityId) (key : String) :
    ((r.alloc name parent).2.get owner).slot? key =
      if owner = parent ∧ name = key then some r.size else (r.get owner).slot? key := by
  rw [get_alloc here]
  by_cases same : owner = parent
  · subst same
    rw [if_pos rfl, Entity.slot?_link]
    simp only [true_and]
  · have other : ¬ (owner = parent ∧ name = key) := fun both => same both.1
    rw [if_neg same, if_neg other]
    split
    next last =>
      rw [last, get_of_size_le (Nat.le_refl _)]
      rfl
    · rfl

/-! ## What stays -/

/-- Entities are added that have no behaviour, and the others keep all but their links. -/
structure Adds (r r' : Registry) : Prop where
  size : r.size ≤ r'.size
  deep : r'.deep = r.deep
  old : ∀ {id}, id < r.size → (r'.get id).bare = (r.get id).bare
  new : ∀ {id}, r.size ≤ id → (r'.get id).behavior = {} ∧ (r'.get id).registered = false

namespace Adds

theorem refl (r : Registry) : r.Adds r := by
  refine ⟨Nat.le_refl _, rfl, fun _ => rfl, fun beyond => ?_⟩
  rw [get_of_size_le beyond]
  exact ⟨rfl, rfl⟩

theorem name_eq (h : r.Adds r') (here : id < r.size) : (r'.get id).name = (r.get id).name :=
  congrArg (·.name) (h.old here)

theorem parent_eq (h : r.Adds r') (here : id < r.size) : (r'.get id).parent = (r.get id).parent :=
  congrArg (·.parent) (h.old here)

theorem behavior_eq (h : r.Adds r') (here : id < r.size) :
    (r'.get id).behavior = (r.get id).behavior :=
  congrArg (·.behavior) (h.old here)

theorem registered_eq (h : r.Adds r') (here : id < r.size) :
    (r'.get id).registered = (r.get id).registered :=
  congrArg (·.registered) (h.old here)

theorem trans (h : r.Adds r') (h' : r'.Adds r'') : r.Adds r'' where
  size := Nat.le_trans h.size h'.size
  deep := h'.deep.trans h.deep
  old here := (h'.old (Nat.lt_of_lt_of_le here h.size)).trans (h.old here)
  new {id} beyond := by
    rcases Nat.lt_or_ge id r'.size with here | further
    · rw [h'.behavior_eq here, h'.registered_eq here]
      exact h.new beyond
    · exact h'.new further

theorem alloc (here : parent < r.size) (name : String) : r.Adds (r.alloc name parent).2 where
  size := size_alloc.symm ▸ Nat.le_succ _
  deep := rfl
  old {id} old := (bare_alloc here id).trans (if_neg (Nat.ne_of_lt old))
  new {id} beyond := by
    rw [get_alloc here, if_neg (Nat.ne_of_gt (Nat.lt_of_lt_of_le here beyond))]
    split
    · exact ⟨rfl, rfl⟩
    · rw [get_of_size_le beyond]
      exact ⟨rfl, rfl⟩

end Adds

/-- The same paths lead to the entities that were there. Both registries are formed, so a path is
read off from its end. -/
theorem Adds.follow?_iff (adds : r.Adds r') (h : r.Formed) (h' : r'.Formed) (here : id < r.size) :
    r'.follow? root path = some id ↔ r.follow? root path = some id := by
  induction path using List.reverseRecOn generalizing id with
  | nil => exact Iff.rfl
  | append_singleton path name ih =>
      rw [follow?_concat_eq_some_iff, follow?_concat_eq_some_iff]
      refine exists_congr fun parent => ?_
      rw [h'.slot, h.slot, adds.parent_eq here, adds.name_eq here]
      refine and_congr_left fun last => ih ?_
      exact Nat.lt_trans (h.above last.1) here

/-! ## What is formed stays formed -/

theorem formed_empty : empty.Formed := by
  have plain : ∀ id, ∃ registered, empty.get id = { registered } := by
    intro id
    cases id with
    | zero => exact ⟨true, rfl⟩
    | succ id => exact ⟨false, get_of_size_le (Nat.succ_le_succ (Nat.zero_le id))⟩
  refine ⟨Nat.zero_lt_one, fun {parent name id} => ?_, fun id => ?_, fun {id parent} around => ?_,
    fun {id} here => .inl ⟨[], ?_⟩⟩
  · obtain ⟨_, above⟩ := plain parent
    obtain ⟨_, below⟩ := plain id
    rw [above, below]
    refine iff_of_false (fun found => ?_) fun around => ?_
    · unfold Entity.slot? at found
      split at found <;> cases found
    · cases around.1
  · obtain ⟨_, same⟩ := plain id
    rw [same]
    rfl
  · obtain ⟨_, same⟩ := plain id
    rw [same] at around
    cases around
  · exact congrArg some (Nat.lt_one_iff.1 here).symm

/-- Paths stay, where every child stays under its name. -/
theorem follow?_mono {start : EntityId}
    (more : ∀ {parent name id}, (r.get parent).slot? name = some id →
      (r'.get parent).slot? name = some id)
    (found : r.follow? start path = some id) : r'.follow? start path = some id := by
  induction path generalizing start with
  | nil => exact found
  | cons name rest ih =>
      obtain ⟨next, here, below⟩ := Option.bind_eq_some_iff.1 found
      exact Option.bind_eq_some_iff.2 ⟨next, more here, ih below⟩

/-- The paths stay that were there before a child was added. -/
theorem follow?_alloc (here : parent < r.size) (free : (r.get parent).slot? name = none)
    {start : EntityId} (found : r.follow? start path = some id) :
    (r.alloc name parent).2.follow? start path = some id := by
  refine follow?_mono (fun {owner key child} under => ?_) found
  have other : ¬ (owner = parent ∧ name = key) := by
    rintro ⟨rfl, rfl⟩
    cases free.symm.trans under
  rw [slot?_alloc here, if_neg other]
  exact under

namespace Formed

/-- No link leads beyond the end. -/
theorem slot?_ne_size (h : r.Formed) (owner : EntityId) (key : String) :
    (r.get owner).slot? key ≠ some r.size := fun found =>
  Nat.lt_irrefl _ (lt_size_of_parent (h.slot.1 found).1)

/-- The new child is under its name, and no other child is. -/
theorem slot_alloc (h : r.Formed) (here : parent < r.size)
    (free : (r.get parent).slot? name = none) {owner id : EntityId} {key : String} :
    ((r.alloc name parent).2.get owner).slot? key = some id ↔
      ((r.alloc name parent).2.get id).parent = some owner ∧
        ((r.alloc name parent).2.get id).name = key := by
  rw [slot?_alloc here, parent_alloc here, name_alloc here]
  by_cases last : id = r.size
  · rw [if_pos last, if_pos last, last]
    split
    next both => exact iff_of_true rfl ⟨congrArg some both.1.symm, both.2⟩
    next other =>
      refine iff_of_false (h.slot?_ne_size owner key) fun both => other ⟨?_, both.2⟩
      exact (Option.some.inj both.1).symm
  · rw [if_neg last, if_neg last, ← h.slot]
    split
    next both =>
      rw [both.1, ← both.2, free]
      refine iff_of_false (fun same => last (Option.some.inj same).symm) fun found => ?_
      cases found
    · exact Iff.rfl

/-- A child is added where there was none. -/
theorem alloc (h : r.Formed) (reached : r.follow? Registry.root path = some parent)
    (free : (r.get parent).slot? name = none) : (r.alloc name parent).2.Formed := by
  have here := h.lt_size_of_follow? reached
  refine ⟨size_alloc.symm ▸ Nat.lt_succ_of_lt h.root, h.slot_alloc here free, fun id => ?_,
    fun {id owner} around => ?_, fun {id} inside => ?_⟩
  · rw [get_alloc here]
    split
    · rw [Entity.find?_star_link]
      exact h.star parent
    · split
      · rfl
      · exact h.star id
  · rw [parent_alloc here] at around
    split at around
    next last =>
      cases around
      exact last ▸ here
    · exact h.above around
  · rw [size_alloc] at inside
    rcases Nat.lt_succ_iff_lt_or_eq.1 inside with old | rfl
    · rcases h.reached old with ⟨way, found⟩ | deep
      · exact .inl ⟨way, follow?_alloc here free found⟩
      · exact .inr deep
    · refine .inl ⟨path ++ [name], follow?_concat_eq_some_iff.2 ⟨parent, ?_, ?_⟩⟩
      · exact follow?_alloc here free reached
      · rw [slot?_alloc here, if_pos ⟨rfl, rfl⟩]

end Formed

/-! ## Walking down a path -/

/-- What a walk from a path makes: an entity at the end of the longer path, in a formed registry
that differs only by entities without a behaviour. -/
structure Walked (r : Registry) (path : List String) (made : EntityId × Registry) : Prop where
  formed : made.2.Formed
  adds : r.Adds made.2
  found : made.2.follow? root path = some made.1

theorem Formed.childOrAlloc (h : r.Formed) (reached : r.follow? Registry.root path = some parent)
    (name : String) : r.Walked (path ++ [name]) (r.childOrAlloc parent name) := by
  unfold Registry.childOrAlloc
  split
  next id found => exact ⟨h, .refl r, follow?_concat_eq_some_iff.2 ⟨parent, reached, found⟩⟩
  next free =>
    have here := h.lt_size_of_follow? reached
    refine ⟨h.alloc reached free, .alloc here name, ?_⟩
    refine follow?_concat_eq_some_iff.2 ⟨parent, follow?_alloc here free reached, ?_⟩
    rw [slot?_alloc here, if_pos ⟨rfl, rfl⟩]
    rfl

theorem Formed.walk (h : r.Formed) {before : List String} {start : EntityId}
    (reached : r.follow? Registry.root before = some start) (path : List String) :
    r.Walked (before ++ path) (walk path start r) := by
  induction path generalizing r before start with
  | nil => exact ⟨h, .refl r, (List.append_nil before).symm ▸ reached⟩
  | cons name rest ih =>
      have first := h.childOrAlloc reached name
      have others := ih first.formed first.found
      rw [List.append_assoc, List.singleton_append] at others
      exact ⟨others.formed, first.adds.trans others.adds, others.found⟩

/-- A walk along a path that is there adds nothing. -/
theorem walk_of_follow? {start : EntityId} (found : r.follow? start path = some id) :
    walk path start r = (id, r) := by
  induction path generalizing start with
  | nil =>
      cases found
      rfl
  | cons name rest ih =>
      obtain ⟨next, here, below⟩ := Option.bind_eq_some_iff.1 found
      rw [walk, childOrAlloc, here]
      exact ih below

/-! ## Giving a behaviour -/

/-- No link between entities changes. An entity may be added at the end that is for any object. -/
structure SameLinks (r r' : Registry) : Prop where
  size : r.size ≤ r'.size
  children : ∀ id, (r'.get id).children = (r.get id).children
  wildcard : ∀ id, (r'.get id).wildcard = (r.get id).wildcard
  parent : ∀ id, (r'.get id).parent = (r.get id).parent
  name : ∀ {id}, id < r.size → (r'.get id).name = (r.get id).name
  deep : ∀ {entry}, entry ∈ r.deep → entry ∈ r'.deep
  new : ∀ {id}, r.size ≤ id → id < r'.size → ∃ entry ∈ r'.deep, entry.2 = id

namespace SameLinks

theorem slot?_eq (same : r.SameLinks r') (id : EntityId) (name : String) :
    (r'.get id).slot? name = (r.get id).slot? name := by
  unfold Entity.slot?
  rw [same.children, same.wildcard]

theorem follow?_eq (same : r.SameLinks r') (start : EntityId) (path : List String) :
    r'.follow? start path = r.follow? start path := by
  induction path generalizing start with
  | nil => rfl
  | cons name rest ih =>
      rw [follow?, follow?, same.slot?_eq]
      exact congrArg _ (funext ih)

theorem formed (same : r.SameLinks r') (h : r.Formed) : r'.Formed := by
  refine ⟨Nat.lt_of_lt_of_le h.root same.size, fun {parent name id} => ?_, fun id => ?_,
    fun {id parent} around => h.above ((same.parent id).symm.trans around), fun {id} inside => ?_⟩
  · rw [same.slot?_eq, h.slot, same.parent]
    refine and_congr_right fun around => ?_
    rw [same.name (lt_size_of_parent around)]
  · rw [same.children]
    exact h.star id
  · rcases Nat.lt_or_ge id r.size with old | beyond
    · rcases h.reached old with ⟨way, found⟩ | ⟨entry, mem, rfl⟩
      · exact .inl ⟨way, (same.follow?_eq _ _).trans found⟩
      · exact .inr ⟨entry, same.deep mem, rfl⟩
    · exact .inr (same.new beyond inside)

end SameLinks

theorem get_fill (here : id < r.size) (behavior : Behavior) (other : EntityId) :
    (r.fill id behavior).get other =
      if other = id then { r.get other with behavior, registered := true } else r.get other :=
  get_modify _ here other

theorem sameLinks_fill (here : id < r.size) (behavior : Behavior) :
    r.SameLinks (r.fill id behavior) := by
  have size : (r.fill id behavior).size = r.size := size_modify _
  refine ⟨Nat.le_of_eq size.symm, fun other => ?_, fun other => ?_, fun other => ?_,
    fun {other} _ => ?_, fun mem => mem, fun beyond inside => ?_⟩
  iterate 4
    · rw [get_fill here]
      split <;> rfl
  · exact absurd (size ▸ inside) (Nat.not_lt_of_ge beyond)

theorem get_addDeep (behavior : Behavior) (glob : Glob) (other : EntityId) :
    (r.addDeep path behavior glob).get other =
      if other = r.size then { name := pattern path, behavior, registered := true }
      else r.get other :=
  get_push _ _ other

theorem sameLinks_addDeep (behavior : Behavior) (glob : Glob) :
    r.SameLinks (r.addDeep path behavior glob) := by
  have size : (r.addDeep path behavior glob).size = r.size + 1 := size_push _ _
  refine ⟨size.symm ▸ Nat.le_succ _, fun other => ?_, fun other => ?_, fun other => ?_,
    fun {other} here => ?_, fun mem => List.mem_append_left _ mem, fun {other} beyond inside => ?_⟩
  iterate 3
    · rw [get_addDeep]
      split
      next last =>
        rw [last, get_of_size_le (Nat.le_refl _)]
      · rfl
  · rw [get_addDeep, if_neg (Nat.ne_of_lt here)]
  · rw [size] at inside
    have last : r.size = other := Nat.le_antisymm beyond (Nat.le_of_lt_succ inside)
    exact ⟨(glob, r.size), List.mem_append_right _ List.mem_cons_self, last⟩

/-! ## Paths that are taken -/

/-- A behaviour was given to the entity at the end of a path. -/
def Taken (r : Registry) (path : List String) : Prop :=
  ∃ id, r.follow? root path = some id ∧ (r.get id).registered = true

/-- Filling the end of a path takes this path. -/
theorem taken_fill (h : r.Formed) (found : r.follow? root path = some id) (behavior : Behavior)
    {other : List String} :
    (r.fill id behavior).Taken other ↔ r.Taken other ∨ other = path := by
  have here := h.lt_size_of_follow? found
  unfold Taken
  simp only [(sameLinks_fill here behavior).follow?_eq, get_fill here]
  constructor
  · rintro ⟨last, found', filled⟩
    split at filled
    next own => exact .inr (h.follow?_inj found' (own ▸ found))
    · exact .inl ⟨last, found', filled⟩
  · rintro (⟨last, found', filled⟩ | rfl)
    · refine ⟨last, found', ?_⟩
      split
      · rfl
      · exact filled
    · exact ⟨id, found, by rw [if_pos rfl]⟩

/-- An entity for any object is at the end of no path. -/
theorem taken_addDeep (h : r.Formed) (deep : List String) (behavior : Behavior) (glob : Glob) :
    (r.addDeep deep behavior glob).Taken path ↔ r.Taken path := by
  unfold Taken
  simp only [(sameLinks_addDeep behavior glob).follow?_eq]
  refine exists_congr fun id => and_congr_right fun found => ?_
  rw [get_addDeep, if_neg (Nat.ne_of_lt (h.lt_size_of_follow? found))]

/-- Entities without a behaviour take no path. -/
theorem Adds.taken_iff (adds : r.Adds r') (h : r.Formed) (h' : r'.Formed) :
    r'.Taken path ↔ r.Taken path := by
  constructor
  · rintro ⟨id, found, filled⟩
    have here : id < r.size := by
      refine Nat.lt_of_not_le fun beyond => ?_
      cases filled.symm.trans (adds.new beyond).2
    exact ⟨id, (adds.follow?_iff h h' here).1 found, adds.registered_eq here ▸ filled⟩
  · rintro ⟨id, found, filled⟩
    have here := h.lt_size_of_follow? found
    exact ⟨id, (adds.follow?_iff h h' here).2 found, (adds.registered_eq here).trans filled⟩

/-- A behaviour was given to a path, and every other entity is where and as it was. -/
structure Gives (r : Registry) (path : List String) (behavior : Behavior) (id : EntityId)
    (r' : Registry) : Prop where
  behavior : (r'.get id).behavior = behavior
  place : ¬ IsDeep path → r'.follow? root path = some id ∧ r'.deep = r.deep
  deep : IsDeep path → id = r.size ∧ (r'.get id).name = pattern path ∧ (r'.get id).parent = none ∧
    ∃ glob, Glob.ofText (pattern path) = .ok glob ∧ r'.deep = r.deep ++ [(glob, id)]
  /-- The path of an entity leads to the same number as before. -/
  paths : ∀ {way other}, r.follow? root way = some other → r'.follow? root way = some other
  name : ∀ {other}, other < r.size → (r'.get other).name = (r.get other).name
  parent : ∀ {other}, other < r.size → (r'.get other).parent = (r.get other).parent
  others : ∀ {other}, other < r.size → other ≠ id →
    (r'.get other).behavior = (r.get other).behavior
  /-- What had to be added on the way does nothing. -/
  new : ∀ {other}, r.size ≤ other → other ≠ id → (r'.get other).behavior = {}

/-- A walk to a path that is not for any object, and a behaviour for its end. -/
theorem Walked.gives {grown : Registry} (walked : r.Walked path (id, grown)) (h : r.Formed)
    (plain : ¬ IsDeep path) (behavior : Behavior) :
    r.Gives path behavior id (grown.fill id behavior) := by
  have here : id < grown.size := walked.formed.lt_size_of_follow? walked.found
  have same := sameLinks_fill here behavior
  have size : grown.size = (grown.fill id behavior).size := (size_modify _).symm
  refine ⟨?_, fun _ => ⟨(same.follow?_eq _ _).trans walked.found, walked.adds.deep⟩,
    fun deep => absurd deep plain, fun {way other} found => ?_, fun {other} old => ?_,
    fun {other} old => ?_, fun {other} old away => ?_, fun {other} beyond away => ?_⟩
  · rw [get_fill here, if_pos rfl]
  · rw [same.follow?_eq]
    exact (walked.adds.follow?_iff h walked.formed (h.lt_size_of_follow? found)).2 found
  · rw [same.name (Nat.lt_of_lt_of_le old walked.adds.size)]
    exact walked.adds.name_eq old
  · rw [same.parent]
    exact walked.adds.parent_eq old
  · rw [get_fill here, if_neg away]
    exact walked.adds.behavior_eq old
  · rw [get_fill here, if_neg away]
    exact (walked.adds.new beyond).1

/-- An entity for any object is added. -/
theorem gives_addDeep {glob : Glob} (deep : IsDeep path)
    (read : Glob.ofText (pattern path) = .ok glob) (behavior : Behavior) :
    r.Gives path behavior r.size (r.addDeep path behavior glob) := by
  have same : r.SameLinks (r.addDeep path behavior glob) := sameLinks_addDeep behavior glob
  refine ⟨?_, fun plain => absurd deep plain, fun _ => ⟨rfl, ?_, ?_, glob, read, rfl⟩,
    fun {way other} found => ?_, same.name, fun {other} _ => same.parent other,
    fun {other} old away => ?_, fun {other} beyond away => ?_⟩
  · rw [get_addDeep, if_pos rfl]
  · rw [get_addDeep, if_pos rfl]
  · rw [get_addDeep, if_pos rfl]
  · rw [same.follow?_eq]
    exact found
  · rw [get_addDeep, if_neg away]
  · rw [get_addDeep, if_neg away, get_of_size_le beyond]

theorem IsDeep.ne_nil (deep : IsDeep path) : path ≠ [] := by
  rintro rfl
  obtain ⟨_, _, same⟩ := deep
  cases same

/-- A pattern is there already. -/
def HasPattern (r : Registry) (text : String) : Prop :=
  ∃ entry ∈ r.deep, entry.1.text = text

/-- The ways in which a call can end: its answer, and the registry after it. -/
inductive Ends (r : Registry) (path : List String) (behavior : Behavior) :
    Except RegistryError EntityId × Registry → Prop where
  | empty (emptyPath : path = []) : Ends r path behavior (.error .emptyPath, r)
  | known (deep : IsDeep path) (there : r.HasPattern (pattern path)) :
      Ends r path behavior (.error (.duplicate path), r)
  | noGlob (deep : IsDeep path) (free : ¬ r.HasPattern (pattern path)) {e : Glob.Error}
      (bad : Glob.ofText (pattern path) = .error e) :
      Ends r path behavior (.error (.badPattern (pattern path) e), r)
  | added (deep : IsDeep path) (free : ¬ r.HasPattern (pattern path)) {glob : Glob}
      (read : Glob.ofText (pattern path) = .ok glob) :
      Ends r path behavior (.ok r.size, r.addDeep path behavior glob)
  | taken (nonempty : path ≠ []) (plain : ¬ IsDeep path) (taken : r.Taken path) :
      Ends r path behavior (.error (.duplicate path), r)
  | filled (nonempty : path ≠ []) (plain : ¬ IsDeep path) (free : ¬ r.Taken path) {id : EntityId}
      {grown : Registry} (walked : r.Walked path (id, grown)) :
      Ends r path behavior (.ok id, grown.fill id behavior)

/-- A path that is taken is refused, and then the walk added nothing. Else it ends at an entity
without a behaviour, which is filled. -/
theorem Formed.place_ends (h : r.Formed) (nonempty : path ≠ []) (plain : ¬ IsDeep path)
    (behavior : Behavior) : r.Ends path behavior (r.place path behavior) := by
  unfold place
  by_cases taken : r.Taken path
  · obtain ⟨id, found, filled⟩ := taken
    rw [walk_of_follow? found]
    simp only [if_pos filled]
    exact .taken nonempty plain ⟨id, found, filled⟩
  · have start : r.follow? Registry.root [] = Option.some Registry.root := rfl
    have walked : r.Walked path (Registry.walk path Registry.root r) := h.walk start path
    have vacant : ¬ ((Registry.walk path Registry.root r).2.get
        (Registry.walk path Registry.root r).1).registered = true := fun filled =>
      taken ((walked.adds.taken_iff h walked.formed).1 ⟨_, walked.found, filled⟩)
    simp only [if_neg vacant]
    exact .filled nonempty plain taken walked

theorem Formed.attempt_ends (h : r.Formed) (path : List String) (behavior : Behavior) :
    r.Ends path behavior (r.attempt path behavior) := by
  rcases attempt_cases r path behavior with
    ⟨emptyPath, same⟩ | ⟨deep, same⟩ | ⟨nonempty, plain, same⟩
  · exact same ▸ .empty emptyPath
  · rcases placeDeep_cases r path behavior with
      ⟨there, same'⟩ | ⟨free, ⟨e, bad, same'⟩ | ⟨glob, read, same'⟩⟩
    · exact (same.trans same') ▸ .known deep there
    · exact (same.trans same') ▸ .noGlob deep free bad
    · exact (same.trans same') ▸ .added deep free read
  · exact same ▸ h.place_ends nonempty plain behavior

theorem text_of_ofText {text : String} {glob : Glob} (read : Glob.ofText text = .ok glob) :
    glob.text = text := by
  unfold Glob.ofText at read
  cases parsed : Glob.parse text with
  | error e =>
      rw [parsed] at read
      cases read
  | ok tokens =>
      rw [parsed] at read
      cases read
      rfl

namespace Ends

variable {behavior : Behavior} {made : Except RegistryError EntityId × Registry}

theorem formed (ends : r.Ends path behavior made) (h : r.Formed) : made.2.Formed := by
  cases ends with
  | empty | known | noGlob | taken => exact h
  | added => exact (sameLinks_addDeep behavior _).formed h
  | filled _ _ _ walked =>
      have here := walked.formed.lt_size_of_follow? walked.found
      exact (sameLinks_fill here behavior).formed walked.formed

/-- A call that fails changes nothing. -/
theorem unchanged (ends : r.Ends path behavior made) {e : RegistryError}
    (failed : made.1 = .error e) : made.2 = r := by
  cases ends with
  | empty | known | noGlob | taken => rfl
  | added | filled => cases failed

/-- A call takes no path but its own, and that only if it succeeds. -/
theorem taken_iff (ends : r.Ends path behavior made) (h : r.Formed) {other : List String}
    (plain : ¬ IsDeep other) :
    made.2.Taken other ↔ r.Taken other ∨ other = path ∧ ∃ id, made.1 = .ok id := by
  cases ends with
  | empty | known | noGlob | taken =>
      refine (or_iff_left ?_).symm
      rintro ⟨-, id, done⟩
      cases done
  | added deep =>
      rw [taken_addDeep h]
      refine (or_iff_left ?_).symm
      rintro ⟨rfl, -⟩
      exact plain deep
  | filled _ _ _ walked =>
      rw [taken_fill walked.formed walked.found, walked.adds.taken_iff h walked.formed]
      exact or_congr_right (and_iff_left ⟨_, rfl⟩).symm

/-- A call adds no pattern but its own, and that only if it succeeds. -/
theorem hasPattern_iff (ends : r.Ends path behavior made) {text : String} :
    made.2.HasPattern text ↔
      r.HasPattern text ∨ (IsDeep path ∧ pattern path = text) ∧ ∃ id, made.1 = .ok id := by
  cases ends with
  | empty | known | noGlob | taken =>
      refine (or_iff_left ?_).symm
      rintro ⟨-, id, done⟩
      cases done
  | added deep _ read =>
      unfold HasPattern
      simp only [addDeep, List.mem_append, List.mem_singleton, or_and_right, exists_or,
        exists_eq_left, text_of_ofText read]
      exact or_congr_right ⟨fun same => ⟨⟨deep, same⟩, _, rfl⟩, fun own => own.1.2⟩
  | @filled _ plain _ id grown walked =>
      have same : (grown.fill id behavior).deep = r.deep := walked.adds.deep
      unfold HasPattern
      rw [same]
      refine (or_iff_left ?_).symm
      rintro ⟨⟨deep, -⟩, -⟩
      exact plain deep

/-- Only the empty path is refused as empty. -/
theorem emptyPath_iff (ends : r.Ends path behavior made) :
    made.1 = .error .emptyPath ↔ path = [] := by
  cases ends with
  | empty emptyPath => exact iff_of_true rfl emptyPath
  | known deep | noGlob deep | added deep =>
      refine iff_of_false (fun same => ?_) deep.ne_nil
      cases same
  | taken nonempty | filled nonempty =>
      refine iff_of_false (fun same => ?_) nonempty
      cases same

/-- A path for any object is refused as a duplicate of its pattern. -/
theorem duplicate_iff_hasPattern (ends : r.Ends path behavior made) (deep : IsDeep path) :
    made.1 = .error (.duplicate path) ↔ r.HasPattern (pattern path) := by
  cases ends with
  | empty emptyPath => exact absurd emptyPath deep.ne_nil
  | known _ there => exact iff_of_true rfl there
  | noGlob _ free | added _ free =>
      refine iff_of_false (fun same => ?_) free
      cases same
  | taken _ plain | filled _ plain => exact absurd deep plain

/-- A path for any object whose pattern is new is refused if it is no glob. -/
theorem badPattern_iff (ends : r.Ends path behavior made) (deep : IsDeep path) {e : Glob.Error} :
    made.1 = .error (.badPattern (pattern path) e) ↔
      ¬ r.HasPattern (pattern path) ∧ Glob.ofText (pattern path) = .error e := by
  cases ends with
  | empty emptyPath => exact absurd emptyPath deep.ne_nil
  | known _ there =>
      refine iff_of_false (fun same => ?_) fun both => both.1 there
      cases same
  | noGlob _ free bad =>
      rw [bad]
      constructor
      · intro same
        cases same
        exact ⟨free, rfl⟩
      · rintro ⟨-, same⟩
        cases same
        rfl
  | added _ _ read =>
      rw [read]
      refine iff_of_false (fun same => ?_) fun both => ?_
      · cases same
      · cases both.2
  | taken _ plain | filled _ plain => exact absurd deep plain

/-- Any other path is refused as a duplicate of itself. -/
theorem duplicate_iff_taken (ends : r.Ends path behavior made) (nonempty : path ≠ [])
    (plain : ¬ IsDeep path) : made.1 = .error (.duplicate path) ↔ r.Taken path := by
  cases ends with
  | empty emptyPath => exact absurd emptyPath nonempty
  | known deep | noGlob deep | added deep => exact absurd deep plain
  | taken _ _ taken => exact iff_of_true rfl taken
  | filled _ _ free =>
      refine iff_of_false (fun same => ?_) free
      cases same

theorem error_cases (ends : r.Ends path behavior made) {e : RegistryError}
    (failed : made.1 = .error e) :
    e = .emptyPath ∨ e = .duplicate path ∨
      IsDeep path ∧ ∃ source, e = .badPattern (pattern path) source := by
  cases ends with
  | empty =>
      cases failed
      exact .inl rfl
  | known | taken =>
      cases failed
      exact .inr (.inl rfl)
  | noGlob deep =>
      cases failed
      exact .inr (.inr ⟨deep, _, rfl⟩)
  | added | filled => cases failed

theorem gives (ends : r.Ends path behavior made) (h : r.Formed) (done : made.1 = .ok id) :
    r.Gives path behavior id made.2 := by
  cases ends with
  | empty | known | noGlob | taken => cases done
  | added deep _ read =>
      cases done
      exact gives_addDeep deep read behavior
  | filled _ plain _ walked =>
      cases done
      exact walked.gives h plain behavior

end Ends

/-! ## Calls one after the other -/

theorem attemptAll_append (front back : List (List String × Behavior)) (r : Registry) :
    r.attemptAll (front ++ back) =
      ((r.attemptAll front).1 ++ ((r.attemptAll front).2.attemptAll back).1,
        ((r.attemptAll front).2.attemptAll back).2) := by
  induction front generalizing r with
  | nil => rfl
  | cons call rest ih => simp only [List.cons_append, attemptAll, ih]

theorem length_attemptAll (calls : List (List String × Behavior)) (r : Registry) :
    (r.attemptAll calls).1.length = calls.length := by
  induction calls generalizing r with
  | nil => rfl
  | cons call rest ih => exact congrArg (· + 1) (ih _)

/-- The registry that calls make, those that fail among them. -/
def madeBy (calls : List (List String × Behavior)) : Registry :=
  (empty.attemptAll calls).2

/-- One of the calls gave a behaviour to a path. -/
def Took (calls : List (List String × Behavior)) (path : List String) : Prop :=
  ∃ behavior id, ((path, behavior), .ok id) ∈ calls.zip (empty.attemptAll calls).1

section Calls

variable {calls : List (List String × Behavior)} {behavior : Behavior}

theorem madeBy_concat (call : List String × Behavior) :
    madeBy (calls ++ [call]) = ((madeBy calls).attempt call.1 call.2).2 := by
  unfold madeBy
  rw [attemptAll_append]
  rfl

theorem took_concat {call : List String × Behavior} :
    Took (calls ++ [call]) path ↔ Took calls path ∨
      path = call.1 ∧ ∃ id, ((madeBy calls).attempt call.1 call.2).1 = .ok id := by
  have zipped : (calls ++ [call]).zip (empty.attemptAll (calls ++ [call])).1 =
      calls.zip (empty.attemptAll calls).1 ++
        [(call, ((madeBy calls).attempt call.1 call.2).1)] := by
    rw [attemptAll_append, List.zip_append (length_attemptAll calls empty).symm]
    rfl
  unfold Took
  simp only [zipped, List.mem_append, List.mem_singleton, exists_or]
  refine or_congr_right ⟨?_, ?_⟩
  · rintro ⟨behavior, id, same⟩
    obtain ⟨rfl, done⟩ := Prod.mk.inj same
    exact ⟨rfl, id, done.symm⟩
  · rintro ⟨rfl, id, done⟩
    exact ⟨call.2, id, Prod.ext rfl done.symm⟩

/-- A registry tells which paths and patterns were taken by the calls that made it. -/
structure Tells (r : Registry) (calls : List (List String × Behavior)) : Prop where
  formed : r.Formed
  taken : ∀ {path}, path ≠ [] → ¬ IsDeep path → (r.Taken path ↔ Took calls path)
  deep : ∀ {text}, r.HasPattern text ↔ ∃ path, Took calls path ∧ IsDeep path ∧ pattern path = text

/-- Whichever way a call ends, the registry after it tells of this call too. -/
theorem Tells.concat (tells : (madeBy calls).Tells calls) (call : List String × Behavior) :
    (madeBy (calls ++ [call])).Tells (calls ++ [call]) := by
  have ends := tells.formed.attempt_ends call.1 call.2
  rw [madeBy_concat]
  refine ⟨ends.formed tells.formed, fun {path} nonempty plain => ?_, fun {text} => ?_⟩
  · rw [ends.taken_iff tells.formed plain, tells.taken nonempty plain, took_concat]
  · rw [ends.hasPattern_iff, tells.deep]
    simp only [took_concat, or_and_right, exists_or]
    refine or_congr_right ⟨?_, ?_⟩
    · rintro ⟨⟨deep, same⟩, done⟩
      exact ⟨call.1, ⟨rfl, done⟩, deep, same⟩
    · rintro ⟨path, ⟨rfl, done⟩, deep, same⟩
      exact ⟨⟨deep, same⟩, done⟩

theorem tells_madeBy (calls : List (List String × Behavior)) : (madeBy calls).Tells calls := by
  induction calls using List.reverseRecOn with
  | nil =>
      have fresh : ∀ path, ¬ Took [] path := by
        rintro path ⟨behavior, id, mem⟩
        cases mem
      refine ⟨formed_empty, fun {path} nonempty plain => ?_, fun {text} => ?_⟩
      · refine iff_of_false ?_ (fresh path)
        rintro ⟨id, found, -⟩
        obtain ⟨name, rest, rfl⟩ := List.exists_cons_of_ne_nil nonempty
        obtain ⟨next, here, -⟩ := Option.bind_eq_some_iff.1 found
        have around := (formed_empty.slot.1 here).1
        exact absurd (Nat.lt_one_iff.1 (lt_size_of_parent around))
          (Nat.ne_of_gt (formed_empty.above around))
      · refine iff_of_false ?_ fun ⟨path, took, _⟩ => fresh path took
        rintro ⟨entry, mem, -⟩
        cases mem
  | append_singleton calls call ih => exact ih.concat call

/-- Let calls be made one after the other on an empty registry, whether they succeed or not, and
then one more.

* It is refused as empty exactly for the empty path.
* A path for any object is refused as a duplicate exactly if an earlier call took the same pattern,
  and otherwise as no pattern exactly if it is no glob.
* Any other path is refused as a duplicate exactly if an earlier call took the same path.
* There is no other error, and after an error the registry is the one before the call.
* After a success the behaviour is at the path of the call, and all other entities are where and as
  they were. -/
theorem calls_exact (calls : List (List String × Behavior)) (path : List String)
    (behavior : Behavior) :
    let r := madeBy calls
    let made := r.attempt path behavior
    let known := ∃ earlier, Took calls earlier ∧ IsDeep earlier ∧ pattern earlier = pattern path
    (made.1 = .error .emptyPath ↔ path = []) ∧
      (IsDeep path → (made.1 = .error (.duplicate path) ↔ known) ∧
        ∀ e, made.1 = .error (.badPattern (pattern path) e) ↔
          ¬ known ∧ Glob.ofText (pattern path) = .error e) ∧
      (path ≠ [] → ¬ IsDeep path → (made.1 = .error (.duplicate path) ↔ Took calls path)) ∧
      (∀ e, made.1 = .error e → e = .emptyPath ∨ e = .duplicate path ∨
        IsDeep path ∧ ∃ source, e = .badPattern (pattern path) source) ∧
      (∀ e, made.1 = .error e → made.2 = r) ∧
      ∀ id, made.1 = .ok id → r.Gives path behavior id made.2 := by
  intro r made known
  have tells : r.Tells calls := tells_madeBy calls
  have ends : r.Ends path behavior made := tells.formed.attempt_ends path behavior
  have there : r.HasPattern (pattern path) ↔ known := tells.deep
  refine ⟨ends.emptyPath_iff, fun deep => ⟨?_, fun e => ?_⟩, fun nonempty plain => ?_,
    fun e => ends.error_cases, fun e => ends.unchanged, fun id => ends.gives tells.formed⟩
  · rw [ends.duplicate_iff_hasPattern deep, there]
  · rw [ends.badPattern_iff deep, there]
  · rw [ends.duplicate_iff_taken nonempty plain, tells.taken nonempty plain]

/-- Two calls below a name that gets no behaviour itself, and one for any object. -/
def nestedCalls : List (List String × Behavior) :=
  [(["a", "b"], { isConst := true }), (["a", "*"], {}), (["**", "on*"], {})]

theorem calls_exact_nested :
    let r := madeBy nestedCalls
    Took nestedCalls ["a", "b"] ∧
      r.attempt ["a", "b"] {} = (.error (.duplicate ["a", "b"]), r) ∧
      r.attempt ["**", "on*"] {} = (.error (.duplicate ["**", "on*"]), r) ∧
      r.Gives ["a"] { overwriteable := true } 1 (r.attempt ["a"] { overwriteable := true }).2 := by
  intro r
  have answers : (empty.attemptAll nestedCalls).1 = [.ok 2, .ok 3, .ok 4] := by decide +kernel
  have named : Took nestedCalls ["a", "b"] := by
    refine ⟨{ isConst := true }, 2, ?_⟩
    rw [answers]
    exact List.mem_cons_self
  have anywhere : Took nestedCalls ["**", "on*"] := by
    refine ⟨{}, 4, ?_⟩
    rw [answers]
    exact List.mem_cons_of_mem _ (List.mem_cons_of_mem _ List.mem_cons_self)
  have plain : ¬ IsDeep ["a", "b"] := by
    rintro ⟨_, _, same⟩
    exact absurd (List.cons.inj same).1 (by decide)
  obtain ⟨-, -, duplicate, -, unchanged, -⟩ := calls_exact nestedCalls ["a", "b"] {}
  obtain ⟨-, known, -, -, unchanged', -⟩ := calls_exact nestedCalls ["**", "on*"] {}
  obtain ⟨-, -, -, -, -, gives⟩ := calls_exact nestedCalls ["a"] { overwriteable := true }
  have refused := (duplicate (List.cons_ne_nil _ _) plain).2 named
  have refused' := (known ⟨_, _, rfl⟩).1.2 ⟨_, anywhere, ⟨_, _, rfl⟩, rfl⟩
  refine ⟨named, Prod.ext refused (unchanged _ refused),
    Prod.ext refused' (unchanged' _ refused'), ?_⟩
  exact gives 1 (by decide +kernel)

end Calls

end Registry

end AddonAudit.Script
