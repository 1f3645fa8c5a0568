import AddonAudit.Proofs.Engine.Balance
import AddonAudit.Proofs.Engine.Held
import AddonAudit.Proofs.Engine.Throughout
import AddonAudit.Script.Reader

/-!
# Handles lead to what is there

Values refer to objects and to entities by number, and a number is looked up without a test. Main
statement: `Engine.handles_in_bounds`. Whatever the script is, every number that a run holds belongs
to an object of its heap or to an entity of its registry, so that no look-up goes beyond the end of
either, and names are only bound in scopes that are there.
-/

namespace AddonAudit.Script

open Engine Coupling

/-- The object, the entity and the setter of a value are all there. -/
structure Value.InBounds (r : Registry) (size : Nat) (v : Value) : Prop where
  object : ∀ {id}, v.object? = some id → id < size
  entity : ∀ {id}, v.entity = some id → id < r.size
  setter : ∀ {id}, v.setter = some id → id < r.size

/-- Every value that a state holds, in its scopes, its objects, its receivers or among its results,
has its object in the heap of the state and its entities in a registry. -/
def State.InBounds (r : Registry) (s : State) : Prop :=
  s.Every (Value.InBounds r s.heap.size)

namespace Value.InBounds

variable {r : Registry} {size more : Nat} {v : Value}

theorem weaken (h : v.InBounds r size) (le : size ≤ more) : v.InBounds r more :=
  { h with object := fun found => Nat.lt_of_lt_of_le (h.object found) le }

theorem named (h : v.InBounds r size) (isConst : Bool) : (v.named isConst).InBounds r size :=
  ⟨h.object, h.entity, h.setter⟩

/-- A plain value has no object. -/
theorem ofPlain (plain : v.IsPlain) (entity : ∀ {id}, v.entity = some id → id < r.size)
    (setter : ∀ {id}, v.setter = some id → id < r.size) : v.InBounds r size := by
  refine ⟨fun found => ?_, entity, setter⟩
  rw [plain.object?] at found
  cases found

theorem ofBare (bare : v.IsBare) : v.InBounds r size := by
  refine ofPlain bare.toIsPlain (fun found => ?_) fun found => ?_
  · rw [bare.entity] at found
    cases found
  · rw [bare.setter] at found
    cases found

/-- A handle of an object that is there. -/
theorem ofObject {id : ObjectId} {callable : Bool} (here : id < size) :
    InBounds r size { content := .object id, callable } := by
  refine ⟨fun found => ?_, fun found => ?_, fun found => ?_⟩
  · cases found
    exact here
  · cases found
  · cases found

/-- A text that carries the number of a record. -/
theorem carrying (text : String) (uid : Option Nat) :
    InBounds r size { Value.string text with provisional := uid } := by
  refine ⟨fun found => ?_, fun found => ?_, fun found => ?_⟩ <;> cases found

end Value.InBounds

/-- Handles within bounds as an invariant: the heap only grows. -/
def bounds (r : Registry) : Invariant where
  Inv := State.InBounds r
  Step s t := s.heap.size ≤ t.heap.size
  Val s v := v.InBounds r s.heap.size
  reach := { Entity := (· < r.size) }
  refl _ := Nat.le_refl _
  trans := Nat.le_trans
  mono := .weaken

variable {r : Registry} {s t : State}

/-- A change that leaves the size of the heap as it is. -/
theorem bounds_leads (size : t.heap.size = s.heap.size)
    (every : t.Every (Value.InBounds r s.heap.size)) : (bounds r).Leads s t :=
  ⟨show t.Every _ from size ▸ every, Nat.le_of_eq size.symm⟩

/-- A new object is there. -/
theorem bounds_alloc {o : Object} (inv : s.InBounds r)
    (new : o.Every (Value.InBounds r s.heap.size)) :
    (bounds r).Allocates s (s.onHeap (·.alloc o)) := by
  have size : (s.onHeap (·.alloc o)).2.heap.size = s.heap.size + 1 := Array.size_push ..
  have grows : s.heap.size ≤ (s.onHeap (·.alloc o)).2.heap.size := size ▸ Nat.le_succ _
  have later : ∀ v : Value, v.InBounds r s.heap.size →
      v.InBounds r (s.onHeap (·.alloc o)).2.heap.size := fun _ old => old.weaken grows
  refine ⟨⟨?_, grows⟩, fun callable => .ofObject (size ▸ Nat.lt_succ_self _)⟩
  exact { inv.imp later with heap := (inv.heap.imp later).alloc (new.imp later) }

theorem overwrite?_heap {name : String} {v old : Value}
    (found : s.overwrite? name v = some (old, t)) : t.heap = s.heap := by
  obtain ⟨_, -, same⟩ := Option.map_eq_some_iff.1 found
  cases same
  rfl

theorem enter_heap (b : Bracket) (s : State) : (b.enter s).heap = s.heap := by
  cases b <;> rfl

theorem leave_heap (b : Bracket) (s : State) : (b.leave s).heap = s.heap := by
  cases b <;> rfl

theorem bounds_lawful : (bounds r).Lawful where
  plain plain admitted := .ofPlain plain admitted.entity admitted.setter
  find inv found := inv.find? found
  receiver inv := inv.receiver
  kept inv found := inv.kept? found
  property inv _ _ found := inv.heap.get? (fun _ => .ofBare) found
  infer _ inv _ _ := bounds_leads rfl (inv.storeGlobal (.ofBare (.ofUnknown _ _)))
  storeGlobal _ inv value _ := bounds_leads rfl (inv.storeGlobal (value.named _))
  declare _ _ inv value _ := bounds_leads rfl (inv.declare (value.named _))
  overwrite inv value found :=
    bounds_leads (congrArg Heap.size (overwrite?_heap found)) (inv.overwrite? value.named found)
  setProperty _ inv _ _ value :=
    bounds_leads (Array.size_modify ..) { inv with heap := inv.heap.set (fun _ => .ofBare) value }
  newObject inv := bounds_alloc inv .empty
  newArray inv values := bounds_alloc inv (.ofList values)
  record _ _ inv _ := bounds_leads rfl { inv with }
  carry _ _ text _ _ := .carrying text _
  drop inv _ _ _ := bounds_leads rfl { inv with }
  tick _ inv _ := bounds_leads rfl { inv with }
  keep id inv value := bounds_leads rfl (inv.keep id value)
  faults _ := trivial
  enter {s} b inv := by
    show (b.enter s).Every (Value.InBounds r (b.enter s).heap.size)
    rw [enter_heap]
    exact inv.enter (.ofBare .unknown) b
  leave {s t} b _ inv step := by
    have size : s.heap.size ≤ t.heap.size := enter_heap b s ▸ step
    have same := congrArg Heap.size (leave_heap b t)
    exact ⟨(bounds_leads same (inv.leave b)).inv, Nat.le_trans size (Nat.le_of_eq same.symm)⟩
  outside {s v} b value := by
    show v.InBounds r (b.leave s).heap.size
    rw [leave_heap]
    exact value

/-- What a registry leads to is within reach, if all its links lead inside. -/
theorem bounds_closed {env : Env} (linked : env.registry.Linked) :
    ((bounds env.registry).coupling env).Closed where
  entities := linked.closed
  admits value := ⟨value.2.entity, value.2.setter, fun _ => trivial⟩
  loud _ _ := trivial
  later _ _ := trivial
  entered _ _ := trivial
  inside _ := trivial
  free _ := trivial
  warned _ _ _ := trivial

/-- At the start of an analysis the only handle is that of the global object. -/
theorem initial_inBounds (linked : r.Linked) (t : Tree) (clock : Clock) (b : Bundle) :
    (initial r t clock b).InBounds r := by
  refine .initial t clock b (.ofBare .unknown) fun id found => ?_
  refine .ofPlain (.ofEntity id) (fun same => ?_) fun setter => by cases setter
  cases same
  exact linked.closed.global? found

/-! ## Objects -/

namespace Heap

/-- A heap with more objects behind its own. -/
def extend (h : Heap) (more : Array Object) : Heap :=
  ⟨h.objects ++ more⟩

variable {h : Heap} {id : ObjectId}

theorem get_extend (here : id < h.size) (more : Array Object) :
    (h.extend more).get id = h.get id := by
  unfold Heap.get Heap.extend
  rw [Array.getElem?_append_left here]

theorem set_extend (here : id < h.size) (more : Array Object) (name : String) (v : Value) :
    (h.extend more).set id name v = (h.set id name v).extend more := by
  unfold Heap.set Heap.extend
  congr 1
  refine Array.ext_getElem? fun i => ?_
  simp only [Array.getElem?_modify, Array.getElem?_append, Array.size_modify]
  split
  next same =>
    subst same
    have inside : id < h.objects.size := here
    rw [if_pos inside, if_pos inside]
  · rfl

/-- Items for which two steps agree are rendered alike. -/
theorem renderAll_congr_mem {α : Type} {f g : Marks → α → String × Marks} {items : List α}
    (step : ∀ a ∈ items, ∀ marks, f marks a = g marks a) (marks : Marks) :
    renderAll f items marks = renderAll g items marks := by
  induction items generalizing marks with
  | nil => rfl
  | cons a rest ih =>
      obtain ⟨head, tail⟩ := List.forall_mem_cons.1 step
      simp only [renderAll, head, ih tail]

variable (every : h.Every (Value.InBounds r h.size)) (more : Array Object)

include every

/-- Joining an array does not look behind the end of the heap. -/
theorem joinText_extend (fuel : Nat) (marks : Marks) {v : Value} (value : v.InBounds r h.size) :
    (h.extend more).joinText fuel marks v = h.joinText fuel marks v := by
  induction fuel generalizing marks v with
  | zero =>
      rw [Heap.joinText, Heap.joinText]
      cases content : v.content with
      | literal _ | unknown => rfl
      | object id =>
          have here : id < h.size := value.object (by rw [Value.object?, content])
          simp only [get_extend here]
  | succ fuel ih =>
      rw [Heap.joinText, Heap.joinText]
      cases content : v.content with
      | literal _ | unknown => rfl
      | object id =>
          have here : id < h.size := value.object (by rw [Value.object?, content])
          simp only [get_extend here]
          cases elements : (h.get id).elements with
          | none => rfl
          | some a =>
              have inside : ∀ v ∈ a.toList, ∀ marks,
                  (h.extend more).joinText fuel marks v = h.joinText fuel marks v := by
                intro v mem marks
                exact ih marks ((every.get id).elements a elements v (Array.mem_toList_iff.1 mem))
              simp only [renderAll_congr_mem inside]

/-- Nor does displaying a value in full. -/
theorem displayText_extend (fuel : Nat) (marks : Marks) {v : Value} (value : v.InBounds r h.size) :
    (h.extend more).displayText fuel marks v = h.displayText fuel marks v := by
  induction fuel generalizing marks v with
  | zero => rw [Heap.displayText, Heap.displayText]
  | succ fuel ih =>
      rw [Heap.displayText, Heap.displayText]
      split
      · rfl
      · rfl
      · rfl
      next id content =>
          have here : id < h.size := value.object (by rw [Value.object?, content])
          have object := every.get id
          have items : ∀ v ∈ ((h.get id).elements.getD #[]).toList, ∀ marks,
              (h.extend more).displayText fuel marks v = h.displayText fuel marks v := by
            intro v mem marks
            exact ih marks (object.items v mem)
          have properties : ∀ marks,
              renderAll (fun marks (entry : String × Value) =>
                  (entry.1 ++ ": " ++ ((h.extend more).displayText fuel marks entry.2).1,
                    ((h.extend more).displayText fuel marks entry.2).2))
                (h.get id).properties marks =
              renderAll (fun marks (entry : String × Value) =>
                  (entry.1 ++ ": " ++ (h.displayText fuel marks entry.2).1,
                    (h.displayText fuel marks entry.2).2))
                (h.get id).properties marks := by
            refine renderAll_congr_mem fun entry mem marks => ?_
            rw [ih marks (object.properties entry mem)]
          simp only [get_extend here, renderAll_congr_mem items, properties]

end Heap

/-- Whatever is done with the object of a value, only the objects of the heap play a part: the
object is there, and what stands behind the end of the heap changes neither what is read or stored
nor the texts of the value, whose inner objects are looked up too. -/
structure Heap.Covers (h : Heap) (v : Value) : Prop where
  object : ∀ {id}, v.object? = some id → h.objects[id]? = some (h.get id)
  get : ∀ {id} more, v.object? = some id → (h.extend more).get id = h.get id
  set : ∀ {id} more name w, v.object? = some id →
    (h.extend more).set id name w = (h.set id name w).extend more
  join : ∀ more fuel marks, (h.extend more).joinText fuel marks v = h.joinText fuel marks v
  display : ∀ more fuel marks,
    (h.extend more).displayText fuel marks v = h.displayText fuel marks v

theorem State.InBounds.covers {v : Value} (inv : s.InBounds r) (value : v.InBounds r s.heap.size) :
    s.heap.Covers v where
  object {id} found := by
    have here : id < s.heap.objects.size := value.object found
    rw [Heap.get, Array.getElem?_eq_getElem here]
    rfl
  get more found := Heap.get_extend (value.object found) more
  set more name w found := Heap.set_extend (value.object found) more name w
  join more fuel marks := Heap.joinText_extend inv.heap more fuel marks value
  display more fuel marks := Heap.displayText_extend inv.heap more fuel marks value

/-! ## Entities -/

/-- An entity is there, and so are the entities around it and those that a path, an alias or a
property leads to from it. -/
structure Registry.Covers (r : Registry) (id : EntityId) : Prop where
  entity : r.entities[id]? = some (r.get id)
  around : ∀ above ∈ r.chain id, above < r.size
  path : ∀ {path next}, r.lookupFrom? id path = some next → next < r.size
  dealias : ∀ steps, r.dealiasSteps steps id < r.size
  property : ∀ {name next}, r.resolve? (some id) name = some next → next < r.size

theorem Registry.Linked.covers {id : EntityId} (linked : r.Linked) (here : id < r.size) :
    r.Covers id where
  entity := by
    have inside : id < r.entities.size := here
    rw [Registry.get, Array.getElem?_eq_getElem inside]
    rfl
  around := linked.chainFrom _ here
  path found := linked.closed.lookupFrom? here found
  dealias steps := linked.closed.dealiasSteps steps here
  property found := by
    refine linked.closed.resolve? (fun e same => ?_) found
    cases same
    exact here

/-! ## Scopes -/

/-- Store a name in a scope. -/
def Scope.store (name : String) (v : Value) (scope : Scope) : Scope :=
  { scope with names := scope.names.store name v }

/-- One stack of scopes comes from another one by storing a name in a scope that is there. -/
def Scope.Stores (name : String) (v : Value) (before after : List Scope) : Prop :=
  ∃ index < before.length, after = before.modify index (Scope.store name v)

namespace Scope.Stores

variable {name : String} {v : Value} {before after : List Scope}

theorem here (scope : Scope) (rest : List Scope) :
    Stores name v (scope :: rest) (scope.store name v :: rest) :=
  ⟨0, Nat.succ_pos _, rfl⟩

theorem below (scope : Scope) (h : Stores name v before after) :
    Stores name v (scope :: before) (scope :: after) := by
  obtain ⟨index, inside, same⟩ := h
  exact ⟨index + 1, Nat.succ_lt_succ inside, congrArg (scope :: ·) same⟩

theorem behind (inner : List Scope) (h : Stores name v before after) :
    Stores name v (inner ++ before) (inner ++ after) := by
  induction inner with
  | nil => exact h
  | cons scope rest ih => exact ih.below scope

end Scope.Stores

/-- The scopes with the global one behind them. -/
def withGlobals (globals : Properties) (scopes : List Scope) : List Scope :=
  scopes ++ [{ kind := .function, names := globals }]

theorem storeIn_stores (into : Scope → Bool) (name : String) (v : Value) (globals : Properties)
    (scopes : List Scope) :
    Scope.Stores name v (withGlobals globals scopes)
      (withGlobals (storeIn into name v globals scopes).1
        (storeIn into name v globals scopes).2) := by
  induction scopes with
  | nil => exact .here _ _
  | cons scope rest ih =>
      rw [storeIn]
      split
      · exact .here scope _
      · exact ih.below scope

theorem storeAround_stores (name : String) (v : Value) (globals : Properties)
    (scopes : List Scope) :
    Scope.Stores name v (withGlobals globals scopes)
      (withGlobals (storeAround name v globals scopes).1
        (storeAround name v globals scopes).2) := by
  cases scopes with
  | nil => exact .here _ _
  | cons own rest =>
      exact (storeIn_stores Declaration.variable.goesTo name v globals rest).below own

/-- Whichever way a name is bound, it goes to a scope that is there. -/
structure State.BindsInside (s : State) (name : String) (v : Value) : Prop where
  declare : ∀ d : Declaration,
    Scope.Stores name (d.holds v) s.contexts (s.declare name v d).contexts
  around : Scope.Stores name (Declaration.variable.holds v) s.contexts
    (s.declareFunction name v).contexts
  global : Scope.Stores name v s.contexts (s.storeGlobal name v).contexts
  overwrite : ∀ {old t}, s.overwrite? name v = some (old, t) →
    Scope.Stores name (v.named old.isConst) s.contexts t.contexts

theorem State.bindsInside (s : State) (name : String) (v : Value) : s.BindsInside name v where
  declare d := storeIn_stores d.goesTo name (d.holds v) s.globals s.scopes
  around := storeAround_stores name (Declaration.variable.holds v) s.globals s.scopes
  global := .behind s.scopes (.here _ _)
  overwrite {old t} found := by
    obtain ⟨⟨_, _, _⟩, replaced, same⟩ := Option.map_eq_some_iff.1 found
    cases same
    rcases replace?_cases replaced with ⟨rfl, -, rfl⟩ | ⟨rfl, inner, scope, outer, split, -, rfl⟩
    · exact .behind s.scopes (.here _ _)
    · unfold State.contexts
      rw [split, List.append_assoc, List.append_assoc]
      exact .behind inner (.here scope _)

/-! ## Runs -/

/-- Let a registry come about by registration, and let a script be analysed from the start.

* At both ends of every visit, and at the end of the run, with or without a fault, every handle that
  the state holds, and that of the value of the visit, is within bounds.
* Each single operation on the state keeps handles within bounds, and so does a visit from any such
  state; a value that waits in the meantime stays within bounds.
* What is within bounds is looked up without going beyond the end of the heap, of the registry or of
  the scopes. -/
theorem Engine.handles_in_bounds {env : Env} (built : env.registry.Built) (t : Tree) (clock : Clock)
    (b : Bundle) :
    let r := env.registry
    let start := initial r t clock b
    Throughout env start t (fun _ s => s.InBounds r)
        (fun s v => s.InBounds r ∧ v.InBounds r s.heap.size) ∧
      (runFrom env start (run t)).2.InBounds r ∧
      (bounds r).Lawful ∧
      (∀ s n, s.InBounds r → (runFrom env s (visit n)).2.InBounds r ∧
        ∀ v : Value, v.InBounds r s.heap.size →
          v.InBounds r (runFrom env s (visit n)).2.heap.size) ∧
      ∀ s : State, s.InBounds r → ∀ v : Value, v.InBounds r s.heap.size →
        s.heap.Covers v ∧ (∀ id, v.entity = some id ∨ v.setter = some id → r.Covers id) ∧
          ∀ name, s.BindsInside name v := by
  intro r start
  have linked := built.linked
  have closed := bounds_closed linked
  have walking : (bounds r).Walking fun _ => True := bounds_lawful.lasting.walking
  have inv : start.InBounds r := initial_inBounds linked t clock b
  have may : ∀ q m, ((bounds r).coupling env).Permits q m := fun _ _ _ _ _ => trivial
  refine ⟨?_, (walking.run_within inv t closed may).1.inv, bounds_lawful, fun s n here => ?_,
    fun s here v value => ⟨here.covers value, fun id held => linked.covers ?_, fun name => ?_⟩⟩
  · exact walking.throughout inv t closed may (fun _ inv => inv) fun inv value => ⟨inv, value⟩
  · have leads : (bounds r).Leads s (runFrom env s (visit n)).2 :=
      bounds_lawful.lasting.visit_within here maxDepth (fun _ _ => trivial) closed may
    exact ⟨leads.inv, fun v value => value.weaken leads.step⟩
  · exact held.elim value.entity value.setter
  · exact s.bindsInside name v

/-- A registry with the global object and an alias of it. -/
def aliasedWindow : Registry :=
  Catalogue.registryOf
    [(["window"], { globalScope := true }),
      (["window", "opener"], { value := some (.link ["window"]) })]

/-- An array that holds itself and an alias of the global object, and has an object as a
property. -/
def selfHolding : List Char :=
  "var a = [opener]; a[1] = a; a.b = \x7b\x7d;".toList

theorem Engine.handles_in_bounds_self_holding :
    let r := aliasedWindow
    let env : Env := { registry := r, file := "overlay.js", lines := .ofChars selfHolding }
    let t := Tree.ofSource selfHolding
    let start := initial r t none {}
    r.Built ∧ Throughout env start t (fun _ s => s.InBounds r)
        (fun s v => s.InBounds r ∧ v.InBounds r s.heap.size) ∧
      (runFrom env start (run t)).2.InBounds r ∧ (runFrom env start (run t)).2.heap.size = 2 := by
  intro r env t start
  have built : r.Built := Catalogue.built_registryOf _
  have size : (runFrom env start (run t)).2.heap.size = 2 := by decide +kernel
  obtain ⟨throughout, ends, -⟩ := @handles_in_bounds env built t none {}
  exact ⟨built, throughout, ends, size⟩

end AddonAudit.Script
