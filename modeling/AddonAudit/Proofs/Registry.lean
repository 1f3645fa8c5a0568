import AddonAudit.Proofs.Dict
import AddonAudit.Script.Catalogue

/-!
# The links of a registry

Entities refer to each other by number: to the entity around, to children by name and to a child for
all other names. A set of entities that is closed under these links holds all that a path, an alias
or a property can lead to. Main statements: `Registry.Built.linked`, registration never makes a link
to an entity that is not there; `Catalogue.behaves_registryOf`, registration gives no behaviour of
its own.
-/

namespace AddonAudit.Script

/-- An entity that makes no report and gives no value of its own, whatever is done with it. -/
structure Behavior.IsQuiet (b : Behavior) : Prop where
  onCall : b.onCall = none
  onGet : b.onGet = none
  onSet : b.onSet = none
  dangerous : b.dangerous = none
  dangerousOnRead : b.dangerousOnRead = false
  readonly : b.readonly = .no

instance (b : Behavior) : Decidable b.IsQuiet :=
  decidable_of_iff (b.onCall = none ∧ b.onGet = none ∧ b.onSet = none ∧ b.dangerous = none ∧
      b.dangerousOnRead = false ∧ b.readonly = .no)
    ⟨fun h => ⟨h.1, h.2.1, h.2.2.1, h.2.2.2.1, h.2.2.2.2.1, h.2.2.2.2.2⟩,
      fun h => ⟨h.onCall, h.onGet, h.onSet, h.dangerous, h.dangerousOnRead, h.readonly⟩⟩

namespace Registry

/-- Whether a name is that of a global that may neither be assigned nor be declared again. -/
def Guards (r : Registry) (name : String) : Prop :=
  ∃ id, r.global? name = some id ∧ (r.behavior id).readonly = .yes ∧
    (r.behavior id).overwriteable = false

/-- A set of entities that no property leaves. -/
structure Closed (r : Registry) (P : EntityId → Prop) : Prop where
  root : P root
  child : ∀ {id next name}, P id → r.child? id name = some next → P next
  deep : ∀ {id name}, r.deep? name = some id → P id

namespace Closed

variable {r : Registry} {P : EntityId → Prop} {id next : EntityId}

theorem global? {name : String} (h : r.Closed P) (found : r.global? name = some id) : P id :=
  h.child h.root found

theorem lookupFrom? (h : r.Closed P) {path : List String} (start : P id)
    (found : r.lookupFrom? id path = some next) : P next := by
  induction path generalizing id with
  | nil =>
      cases found
      exact start
  | cons segment rest ih =>
      obtain ⟨child, here, below⟩ := Option.bind_eq_some_iff.1 found
      exact ih (h.child start here) below

theorem lookup? (h : r.Closed P) {path : List String} (found : r.lookup? path = some id) : P id :=
  h.lookupFrom? h.root found

/-- A property of a value leads to a child, to a global, to an entity for any object, or back. -/
theorem resolve? (h : r.Closed P) {parent : Option EntityId} {name : String}
    (start : ∀ e, parent = some e → P e) (found : r.resolve? parent name = some id) : P id := by
  cases parent with
  | none => exact h.deep found
  | some parent =>
      have here := start parent rfl
      rw [Registry.resolve?] at found
      simp only [Option.orElse_eq_orElse, Option.orElse_eq_or, Option.or_eq_some_iff] at found
      rcases found with child | ⟨-, global | ⟨-, deep | ⟨-, back⟩⟩⟩
      · exact h.child here child
      · split at global
        · exact h.global? global
        · cases global
      · exact h.deep deep
      · split at back
        · cases back
          exact here
        · cases back

theorem dealiasSteps (h : r.Closed P) (steps : Nat) (start : P id) :
    P (r.dealiasSteps steps id) := by
  induction steps generalizing id with
  | zero => exact start
  | succ steps ih =>
      rw [Registry.dealiasSteps]
      split
      · split
        next target found =>
          split
          · exact start
          · exact ih (h.lookup? found)
        · exact start
      · exact start

theorem dealias (h : r.Closed P) (start : P id) : P (r.dealias id) :=
  h.dealiasSteps 8 start

end Closed

end Registry

theorem Entity.behavior_link (e : Entity) (name : String) (child : EntityId) :
    (e.link name child).behavior = e.behavior := by
  unfold Entity.link
  split <;> rfl

/-- The links of an entity lead to numbers below a bound. -/
structure Entity.LinksBelow (bound : Nat) (e : Entity) : Prop where
  parent : ∀ {id}, e.parent = some id → id < bound
  children : ∀ {name id}, e.children.find? name = some id → id < bound
  wildcard : ∀ {id}, e.wildcard = some id → id < bound

namespace Entity.LinksBelow

variable {bound more : Nat} {e : Entity}

theorem weaken (h : e.LinksBelow bound) (le : bound ≤ more) : e.LinksBelow more where
  parent found := Nat.lt_of_lt_of_le (h.parent found) le
  children found := Nat.lt_of_lt_of_le (h.children found) le
  wildcard found := Nat.lt_of_lt_of_le (h.wildcard found) le

/-- An entity without children. -/
theorem leaf {name : String} {parent : Option EntityId} {behavior : Behavior} {registered : Bool}
    (above : ∀ id, parent = some id → id < bound) :
    LinksBelow bound { name, parent, behavior, registered } where
  parent found := above _ found
  children found := by cases found
  wildcard found := by cases found

/-- A child is put under a name. -/
theorem link {id : EntityId} {name : String} (h : e.LinksBelow bound) (below : id < bound) :
    (e.link name id).LinksBelow bound := by
  unfold Entity.link
  split
  · refine { h with wildcard := fun found => ?_ }
    cases found
    exact below
  · refine { h with children := fun {k next} found => ?_ }
    change (Dict.insert name id e.children).find? k = some next at found
    rw [Dict.find?_insert] at found
    split at found
    · cases found
      exact below
    · exact h.children found

/-- What is under a name is below the bound. -/
theorem slot? {id : EntityId} {name : String} (h : e.LinksBelow bound)
    (found : e.slot? name = some id) : id < bound := by
  unfold Entity.slot? at found
  split at found
  · exact h.wildcard found
  · exact h.children found

end Entity.LinksBelow

namespace Registry

/-- A registry whose links all lead to entities that are there. -/
structure Linked (r : Registry) : Prop where
  root : root < r.size
  entity : ∀ e ∈ r.entities, e.LinksBelow r.size
  deep : ∀ entry ∈ r.deep, entry.2 < r.size

variable {r r' : Registry} {id : EntityId}

theorem Linked.get (h : r.Linked) (id : EntityId) : (r.get id).LinksBelow r.size := by
  unfold Registry.get
  cases present : r.entities[id]? with
  | none => exact .leaf fun _ above => by cases above
  | some e => exact h.entity e (Array.mem_of_getElem? present)

/-- What properties, paths and aliases lead to is there. -/
theorem Linked.closed (h : r.Linked) : r.Closed (· < r.size) where
  root := h.root
  child {id next name} _ found := by
    rw [child?, Option.orElse_eq_orElse, Option.orElse_eq_or, Option.or_eq_some_iff] at found
    rcases found with named | ⟨-, any⟩
    · exact (h.get id).children named
    · exact (h.get id).wildcard any
  deep {id name} found := by
    obtain ⟨entry, first, rfl⟩ := Option.map_eq_some_iff.1 found
    exact h.deep entry (List.mem_of_find?_eq_some first)

/-- The entities around one that is there are there. -/
theorem Linked.chainFrom (h : r.Linked) (fuel : Nat) (start : id < r.size) :
    ∀ e ∈ r.chainFrom fuel id, e < r.size := by
  induction fuel generalizing id with
  | zero => exact fun _ mem => absurd mem List.not_mem_nil
  | succ fuel ih =>
      rw [Registry.chainFrom]
      refine List.forall_mem_cons.2 ⟨start, ?_⟩
      split
      next parent above => exact ih ((h.get id).parent above)
      · exact fun _ mem => absurd mem List.not_mem_nil

theorem linked_empty : empty.Linked where
  root := Nat.zero_lt_one
  entity := by
    intro e mem
    obtain rfl := List.mem_singleton.1 (Array.mem_toList_iff.2 mem)
    exact .leaf fun _ above => by cases above
  deep _ mem := absurd mem List.not_mem_nil

theorem size_modify (f : Entity → Entity) :
    size { r with entities := r.entities.modify id f } = r.size :=
  Array.size_modify ..

theorem size_push (e : Entity) (deep : List (Glob × EntityId)) :
    size ⟨r.entities.push e, deep⟩ = r.size + 1 :=
  Array.size_push ..

/-- After a change of one entity, every entity was there before or is the changed one. -/
theorem mem_modify {f : Entity → Entity} {e : Entity} (mem : e ∈ r.entities.modify id f) :
    e ∈ r.entities ∨ ∃ old ∈ r.entities, e = f old := by
  obtain ⟨i, present⟩ := Array.mem_iff_getElem?.1 mem
  rw [Array.getElem?_modify] at present
  split at present
  · obtain ⟨old, found, rfl⟩ := Option.map_eq_some_iff.1 present
    exact .inr ⟨old, Array.mem_of_getElem? found, rfl⟩
  · exact .inl (Array.mem_of_getElem? present)

/-- A change of one entity that keeps its links inside. -/
theorem Linked.modify (h : r.Linked) (f : Entity → Entity)
    (keeps : ∀ e, e.LinksBelow r.size → (f e).LinksBelow r.size) :
    Linked { r with entities := r.entities.modify id f } := by
  refine ⟨?_, fun e mem => ?_, fun entry mem => ?_⟩
  · rw [size_modify]
    exact h.root
  · rw [size_modify]
    rcases mem_modify mem with old | ⟨old, there, rfl⟩
    · exact h.entity e old
    · exact keeps old (h.entity old there)
  · rw [size_modify]
    exact h.deep entry mem

/-- A new entity at the end. -/
theorem Linked.push (h : r.Linked) {e : Entity} {deep : List (Glob × EntityId)}
    (links : e.LinksBelow (r.size + 1)) (globs : ∀ entry ∈ deep, entry.2 < r.size + 1) :
    Linked ⟨r.entities.push e, deep⟩ := by
  refine ⟨?_, fun x mem => ?_, fun entry mem => ?_⟩
  · rw [size_push]
    exact Nat.lt_succ_of_lt h.root
  · rw [size_push]
    rcases Array.mem_push.1 mem with old | rfl
    · exact (h.entity x old).weaken (Nat.le_succ _)
    · exact links
  · rw [size_push]
    exact globs entry mem

/-- A later registry with its links inside, and an entity that is there. -/
structure Grows (r : Registry) (made : EntityId × Registry) : Prop where
  linked : made.2.Linked
  size : r.size ≤ made.2.size
  here : made.1 < made.2.size

theorem Linked.alloc (h : r.Linked) (name : String) (below : id < r.size) :
    r.Grows (r.alloc name id) := by
  have pushed : Linked ⟨r.entities.push { name, parent := some id }, r.deep⟩ := by
    refine h.push (.leaf fun e same => ?_) fun entry mem => Nat.lt_succ_of_lt (h.deep entry mem)
    cases same
    exact Nat.lt_succ_of_lt below
  have size : (r.alloc name id).2.size = r.size + 1 :=
    (size_modify (r := ⟨r.entities.push _, r.deep⟩) _).trans (size_push _ _)
  refine ⟨pushed.modify _ fun e links => links.link ?_, ?_, ?_⟩
  · rw [size_push]
    exact Nat.lt_succ_self _
  · rw [size]
    exact Nat.le_succ _
  · rw [size]
    exact Nat.lt_succ_self _

theorem Linked.childOrAlloc (h : r.Linked) (name : String) (below : id < r.size) :
    r.Grows (r.childOrAlloc id name) := by
  unfold Registry.childOrAlloc
  split
  next next found => exact ⟨h, Nat.le_refl _, (h.get id).slot? found⟩
  · exact h.alloc name below

theorem Linked.walk (h : r.Linked) (path : List String) (below : id < r.size) :
    r.Grows (Registry.walk path id r) := by
  induction path generalizing id r with
  | nil => exact ⟨h, Nat.le_refl _, below⟩
  | cons segment rest ih =>
      have first := h.childOrAlloc segment below
      have others := ih first.linked first.here
      exact ⟨others.linked, Nat.le_trans first.size others.size, others.here⟩

/-- A path for the properties of any object: two stars, and the parts of a glob behind them. -/
def IsDeep (path : List String) : Prop :=
  ∃ first rest, path = "**" :: first :: rest

/-- An attempt takes one of three ways, by the form of its path alone. -/
theorem attempt_cases (r : Registry) (path : List String) (behavior : Behavior) :
    path = [] ∧ r.attempt path behavior = (.error .emptyPath, r) ∨
      IsDeep path ∧ r.attempt path behavior = r.placeDeep path behavior ∨
      path ≠ [] ∧ ¬ IsDeep path ∧ r.attempt path behavior = r.place path behavior := by
  unfold attempt
  split
  · exact .inl ⟨rfl, rfl⟩
  · exact .inr (.inl ⟨⟨_, _, rfl⟩, rfl⟩)
  next nonempty plain =>
    refine .inr (.inr ⟨nonempty, ?_, rfl⟩)
    rintro ⟨first, rest, rfl⟩
    exact plain first rest rfl

/-- The registry after a behaviour was given to the properties of any object. -/
def addDeep (r : Registry) (path : List String) (behavior : Behavior) (glob : Glob) : Registry where
  entities := r.entities.push { name := pattern path, behavior, registered := true }
  deep := r.deep ++ [(glob, r.size)]

/-- An attempt for any object fails on a pattern that is there or that is none. Else it adds an
entity at the end. -/
theorem placeDeep_cases (r : Registry) (path : List String) (behavior : Behavior) :
    (∃ entry ∈ r.deep, entry.1.text = pattern path) ∧
        r.placeDeep path behavior = (.error (.duplicate path), r) ∨
      (¬ ∃ entry ∈ r.deep, entry.1.text = pattern path) ∧
        ((∃ e, Glob.ofText (pattern path) = .error e ∧
            r.placeDeep path behavior = (.error (.badPattern (pattern path) e), r)) ∨
          ∃ glob, Glob.ofText (pattern path) = .ok glob ∧
            r.placeDeep path behavior = (.ok r.size, r.addDeep path behavior glob)) := by
  have known : (r.deep.any fun entry => entry.1.text = pattern path) = true ↔
      ∃ entry ∈ r.deep, entry.1.text = pattern path := by
    simp only [List.any_eq_true, decide_eq_true_eq]
  unfold placeDeep
  split
  next any => exact .inl ⟨known.1 any, rfl⟩
  next unknown =>
    refine .inr ⟨fun exists_ => unknown (known.2 exists_), ?_⟩
    cases read : Glob.ofText (pattern path) with
    | error e => exact .inl ⟨e, rfl, rfl⟩
    | ok glob => exact .inr ⟨glob, rfl, rfl⟩

/-- A registration that succeeds adds an entity for any object, or it fills the end of a path. -/
theorem register_cases {path : List String} {behavior : Behavior}
    (done : r.register path behavior = .ok (id, r')) :
    (∃ glob, id = r.size ∧ r' = r.addDeep path behavior glob) ∨
      id = (Registry.walk path root r).1 ∧
        r' = (Registry.walk path root r).2.fill id behavior := by
  have made : r.attempt path behavior = (.ok id, r') := by
    unfold Registry.register at done
    split at done
    next attempt =>
      cases done
      exact attempt
    · cases done
  rcases attempt_cases r path behavior with ⟨-, same⟩ | ⟨-, same⟩ | ⟨-, -, same⟩
  · cases same.symm.trans made
  · rcases placeDeep_cases r path behavior with
      ⟨-, found⟩ | ⟨-, ⟨e, -, bad⟩ | ⟨glob, -, good⟩⟩
    · cases (same.trans found).symm.trans made
    · cases (same.trans bad).symm.trans made
    · cases (same.trans good).symm.trans made
      exact .inl ⟨glob, rfl, rfl⟩
  · have placed := same.symm.trans made
    unfold place at placed
    simp only at placed
    split at placed
    · cases placed
    · cases placed
      exact .inr ⟨rfl, rfl⟩

/-- Registration keeps every link inside. -/
theorem Linked.register (h : r.Linked) {path : List String} {behavior : Behavior}
    (done : r.register path behavior = .ok (id, r')) : r.Grows (id, r') := by
  rcases register_cases done with ⟨glob, rfl, rfl⟩ | ⟨rfl, rfl⟩
  · refine ⟨h.push (.leaf fun _ above => by cases above) fun entry mem => ?_, ?_, ?_⟩
    · rcases List.mem_append.1 mem with old | new
      · exact Nat.lt_succ_of_lt (h.deep entry old)
      · rw [List.mem_singleton.1 new]
        exact Nat.lt_succ_self _
    · exact (size_push _ _).symm ▸ Nat.le_succ _
    · exact (size_push _ _).symm ▸ Nat.lt_succ_self _
  · have walked := h.walk path h.root
    refine ⟨walked.linked.modify _ fun _ links => { links with }, ?_, ?_⟩
    · exact (size_modify _).symm ▸ walked.size
    · exact (size_modify _).symm ▸ walked.here

/-- The registries that come about by registration. -/
inductive Built : Registry → Prop where
  | empty : Built .empty
  | register {r r' : Registry} {path : List String} {behavior : Behavior} {id : EntityId} :
      Built r → r.register path behavior = .ok (id, r') → Built r'

/-- Every link of a registry that came about by registration leads to an entity that is there. -/
theorem Built.linked (h : r.Built) : r.Linked := by
  induction h with
  | empty => exact linked_empty
  | register _ done ih => exact (ih.register done).linked

/-- What the registration of each entry keeps, the registration of all of them keeps. -/
theorem registerAll_keeps {M : Registry → Prop} {entries : List (List String × Behavior)}
    (step : ∀ entry ∈ entries, ∀ {r r' id}, M r → r.register entry.1 entry.2 = .ok (id, r') → M r')
    (start : M r) (done : r.registerAll entries = .ok r') : M r' := by
  induction entries generalizing r with
  | nil =>
      cases done
      exact start
  | cons entry rest ih =>
      obtain ⟨head, tail⟩ := List.forall_mem_cons.1 step
      change (r.register entry.1 entry.2 >>= fun made => made.2.registerAll rest) = _ at done
      cases first : r.register entry.1 entry.2 with
      | error e =>
          rw [first] at done
          cases done
      | ok made =>
          rw [first] at done
          exact ih tail (head start first) done

/-- The check of aliases changes nothing. -/
theorem check_eq (done : r.check = .ok r') : r' = r := by
  unfold check at done
  split at done
  · cases done
  · cases done
    rfl

end Registry

namespace Registry

/-- Every entity has a behaviour with a property. -/
def Behaves (P : Behavior → Prop) (r : Registry) : Prop :=
  ∀ e ∈ r.entities, P e.behavior

instance {P : Behavior → Prop} [DecidablePred P] (r : Registry) : Decidable (r.Behaves P) :=
  inferInstanceAs (Decidable (∀ e ∈ r.entities, P e.behavior))

namespace Behaves

variable {P : Behavior → Prop} {r r' : Registry} {id : EntityId}

/-- A change of one entity that keeps the property. -/
theorem modify (h : r.Behaves P) (f : Entity → Entity)
    (keeps : ∀ e, P e.behavior → P (f e).behavior) :
    Behaves P { r with entities := r.entities.modify id f } := by
  intro e mem
  rcases mem_modify mem with old | ⟨old, there, rfl⟩
  · exact h e old
  · exact keeps old (h old there)

theorem push (h : r.Behaves P) {e : Entity} (new : P e.behavior) (deep : List (Glob × EntityId)) :
    Behaves P ⟨r.entities.push e, deep⟩ := by
  intro x mem
  rcases Array.mem_push.1 mem with old | rfl
  · exact h x old
  · exact new

variable (plain : P {})

include plain

/-- The behaviour of a number, also of one that no entity has. -/
theorem behavior (h : r.Behaves P) (id : EntityId) : P (r.behavior id) := by
  unfold Registry.behavior Registry.get
  cases present : r.entities[id]? with
  | none => exact plain
  | some e => exact h e (Array.mem_of_getElem? present)

theorem childOrAlloc (h : r.Behaves P) (name : String) : (r.childOrAlloc id name).2.Behaves P := by
  unfold Registry.childOrAlloc
  split
  · exact h
  · refine (h.push plain r.deep).modify _ fun e old => ?_
    rw [Entity.behavior_link]
    exact old

theorem walk (h : r.Behaves P) (path : List String) : (Registry.walk path id r).2.Behaves P := by
  induction path generalizing id r with
  | nil => exact h
  | cons segment rest ih => exact ih (h.childOrAlloc plain segment)

theorem register (h : r.Behaves P) {path : List String} {behavior : Behavior} (given : P behavior)
    (done : r.register path behavior = .ok (id, r')) : r'.Behaves P := by
  rcases register_cases done with ⟨glob, rfl, rfl⟩ | ⟨rfl, rfl⟩
  · exact h.push given _
  · exact (h.walk plain path).modify _ fun _ _ => given

end Behaves

theorem behaves_empty {P : Behavior → Prop} (plain : P {}) : empty.Behaves P := by
  intro e mem
  obtain rfl := List.mem_singleton.1 (Array.mem_toList_iff.2 mem)
  exact plain

end Registry

/-- A registry made of entries is empty, or it is what registering all entries gives. -/
theorem Catalogue.registryOf_cases (entries : List (List String × Behavior)) :
    registryOf entries = .empty ∨ Registry.empty.registerAll entries =
      .ok (registryOf entries) := by
  unfold registryOf
  split
  next r done =>
    cases all : Registry.empty.registerAll entries with
    | error e =>
        rw [all] at done
        cases done
    | ok made =>
        rw [all] at done
        rw [Registry.check_eq done]
        exact .inr rfl
  · exact .inl rfl

/-- The entities of a registry behave as its entries say, or not at all. -/
theorem Catalogue.behaves_registryOf {P : Behavior → Prop} (plain : P {})
    {entries : List (List String × Behavior)} (given : ∀ entry ∈ entries, P entry.2) :
    (registryOf entries).Behaves P := by
  rcases registryOf_cases entries with same | all
  · rw [same]
    exact Registry.behaves_empty plain
  · refine Registry.registerAll_keeps (fun entry mem _ _ _ behaves done => ?_)
      (Registry.behaves_empty plain) all
    exact behaves.register plain (given entry mem) done

/-- A registry made of entries came about by registration. -/
theorem Catalogue.built_registryOf (entries : List (List String × Behavior)) :
    (registryOf entries).Built := by
  rcases registryOf_cases entries with same | all
  · rw [same]
    exact .empty
  · exact Registry.registerAll_keeps (fun _ _ _ _ _ built done => built.register done) .empty all

theorem Catalogue.standard_built : standard.Built :=
  built_registryOf entries

end AddonAudit.Script
