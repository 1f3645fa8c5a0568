import AddonAudit.Proofs.Engine.Coupling
import AddonAudit.Proofs.Registry

/-!
# Couplings that the engine keeps

The engine reads and changes its state through few operations. `Coupling.Lawful` asks of a coupling
what is needed of each of them: that related values look alike, that what is read on one side stands
for what is read on the other, and that every change of the state keeps the pair together. Here the
steps that all actions use are shown to keep such a coupling.
-/

namespace AddonAudit.Script

open Engine Coupling

/-- What a step can be inside of. -/
inductive Bracket where
  | scope (kind : ScopeKind)
  | receiver
  | level

/-- Enter a bracket. -/
def Bracket.enter : Bracket → State → State
  | .scope kind => State.enterScope kind
  | .receiver => State.enterReceiver
  | .level => State.enterLevel

/-- Leave a bracket. -/
def Bracket.leave : Bracket → State → State
  | .scope _ => State.leaveScope
  | .receiver => State.leaveReceiver
  | .level => State.leaveLevel

/-- Run a step inside of a bracket. -/
def Bracket.within {α : Type} (b : Bracket) (x : Engine α) : Engine α := do
  modify b.enter
  andAlways x (modify b.leave)

/-- The handles of objects that stand for each other. -/
def Coupling.Handle (C : Coupling) (p : Pair) (i j : ObjectId) : Prop :=
  ∀ callable, C.Val p { content := .object i, callable } { content := .object j, callable }

/-- The values that a run may make out of the entities that it meets. -/
structure Reach.Admits (R : Reach) (v : Value) : Prop where
  entity : ∀ {id}, v.entity = some id → R.Entity id
  setter : ∀ {id}, v.setter = some id → R.Entity id
  unwrapped : v.unwrapped = true → R.Alarm

/-- A finding that a global is replaced. -/
structure IsOverwrite (r : Registry) (name : String) (f : Finding) : Prop where
  id : f.id = ["javascript", "traverser", "global_overwrite"]
  message : f.message = "Overwriting the read-only \x60" ++ name ++ "\x60"
  forVersions : ∃ entity, r.global? name = some entity ∧
    f.forVersions = (r.advice entity).gate.map VersionGate.expand

/-- What a coupling takes to be within reach follows its registry, its values and its steps. -/
structure Coupling.Closed (C : Coupling) : Prop where
  entities : C.left.registry.Closed C.reach.Entity
  admits : ∀ {p v w}, C.Val p v w → C.reach.Admits v
  loud : ∀ {id}, C.reach.Entity id → ¬ (C.left.registry.behavior id).IsQuiet → C.reach.Alarm
  later : ∀ {p q d name}, C.reach.Binds p.left d name → C.Step p q → C.reach.Binds q.left d name
  entered : ∀ {s d name} (b : Bracket), C.reach.Binds s d name → C.reach.Binds (b.enter s) d name
  /-- A scope that takes a declaration takes every name. -/
  inside : ∀ {s : State} {d : Declaration} {name}, s.scopes.any d.goesTo = true →
    C.reach.Binds s (some d) name
  /-- A name that is not guarded may be bound anywhere. -/
  free : ∀ {s d name}, ¬ C.left.registry.Guards name → C.reach.Binds s d name
  /-- A name may be bound once there is a warning about it. -/
  warned : ∀ {p f name} d, C.Inv p → IsOverwrite C.left.registry name f →
    C.reach.Binds (p.left.record .warning f).2 d name

/-- Where nothing is ruled out, everything is within reach. -/
theorem Coupling.Closed.of_unbounded {C : Coupling} (unbounded : C.reach = {}) : C.Closed := by
  refine ⟨⟨?_, fun _ _ => ?_, fun _ => ?_⟩, fun _ => ⟨fun _ => ?_, fun _ => ?_, fun _ => ?_⟩,
    fun _ _ => ?_, fun _ _ => ?_, fun _ _ => ?_, fun _ => ?_, fun _ => ?_, fun _ _ _ => ?_⟩
  all_goals
    rw [unbounded]
    trivial

/-- The findings of a run that do not depend on its entities. -/
def ownFindings : List (List String) :=
  [["javascript", "traverser", "const_overwrite"],
    ["javascript", "traverser", "namespace_pollution"],
    ["javascript", "preference", "literal_pref"]] ++ Battery.literals.map (·.id)

/-- A finding for which there may be a reason. -/
def Coupling.Warrants (C : Coupling) (f : Finding) : Prop :=
  f.id ∈ ownFindings ∨ C.reach.Alarm

/-- A coupling that every operation on the state keeps. -/
structure Coupling.Lawful (C : Coupling) : Prop where
  registry : C.left.registry = C.right.registry
  file : C.left.file = C.right.file
  lines : C.left.lines = C.right.lines
  alike : ∀ {p v w}, C.Val p v w → v.Alike w
  plain : ∀ {p} {v : Value}, v.IsPlain → C.reach.Admits v → C.Val p v v
  heap : ∀ {p}, C.Inv p → p.left.heap.Alike p.right.heap
  kinds : ∀ {p}, C.Inv p → p.left.scopes.map (·.kind) = p.right.scopes.map (·.kind)
  declared : ∀ {p} name, C.Inv p →
    (p.left.variableScope.find? name).isSome = (p.right.variableScope.find? name).isSome
  find : ∀ {p} name, C.Inv p → Option.Rel (C.Val p) (p.left.find? name) (p.right.find? name)
  receiver : ∀ {p}, C.Inv p → C.Val p p.left.receiver p.right.receiver
  property : ∀ {p v w id} name, C.Inv p → C.Val p v w → v.object? = some id →
    Option.Rel (C.Val p) (p.left.heap.get? id name) (p.right.heap.get? id name)
  infer : ∀ {p} name, C.Inv p → p.left.find? name = none → p.right.find? name = none →
    C.reach.Binds p.left none name →
    C.Leads p (p.left.storeGlobal name { Value.unknown with inferred := true })
      (p.right.storeGlobal name { Value.unknown with inferred := true })
  storeGlobal : ∀ {p v w} name, C.Inv p → C.Val p v w → C.reach.Binds p.left none name →
    C.Leads p (p.left.storeGlobal name (v.named false)) (p.right.storeGlobal name (w.named false))
  declare : ∀ {p v w} name d, C.Inv p → C.Val p v w → C.reach.Binds p.left (some d) name →
    C.Leads p (p.left.declare name v d) (p.right.declare name w d)
  overwrite : ∀ {p v w} name, C.Inv p → C.Val p v w →
    Option.Rel (fun a b => a.1.isConst = b.1.isConst ∧ C.Leads p a.2 b.2)
      (p.left.overwrite? name v) (p.right.overwrite? name w)
  setProperty : ∀ {p b b' id v w} name, C.Inv p → C.Val p b b' → b.object? = some id →
    C.Val p v w → C.Leads p (p.left.setProperty id name v) (p.right.setProperty id name w)
  newObject : ∀ {p}, C.Inv p →
    C.Leads p (p.left.onHeap Heap.newObject).2 (p.right.onHeap Heap.newObject).2 ∧
    C.Handle ⟨(p.left.onHeap Heap.newObject).2, (p.right.onHeap Heap.newObject).2⟩
      (p.left.onHeap Heap.newObject).1 (p.right.onHeap Heap.newObject).1
  newArray : ∀ {p vs ws}, C.Inv p → List.Forall₂ (C.Val p) vs ws →
    C.Leads p (p.left.onHeap (·.newArray vs.toArray)).2 (p.right.onHeap (·.newArray ws.toArray)).2 ∧
    C.Handle ⟨(p.left.onHeap (·.newArray vs.toArray)).2, (p.right.onHeap (·.newArray ws.toArray)).2⟩
      (p.left.onHeap (·.newArray vs.toArray)).1 (p.right.onHeap (·.newArray ws.toArray)).1
  record : ∀ {p} severity f, C.Inv p → f.file = some C.left.file → C.Warrants f →
    C.Leads p (p.left.record severity f).2 (p.right.record severity f).2
  /-- The number of a record about a preference may be carried by a string. -/
  carry : ∀ {p} severity f text, C.Inv p → f.file = some C.left.file →
    f.id = ["javascript", "preference", "literal_pref"] →
    C.Val ⟨(p.left.record severity f).2, (p.right.record severity f).2⟩
      { Value.string text with provisional := (p.left.record severity f).1 }
      { Value.string text with provisional := (p.right.record severity f).1 }
  /-- A literal may carry the number of its record, or none. -/
  carried : ∀ {p} severity f text, C.Inv p →
    C.Literal { Value.string text with provisional := (p.left.record severity f).1 }
      { Value.string text with provisional := (p.right.record severity f).1 } := by
    exact fun _ _ _ _ => trivial
  literal : ∀ text, C.Literal (.string text) (.string text) := by exact fun _ => trivial
  drop : ∀ {p v w}, C.Inv p → C.Val p v w → C.Literal v w →
    Option.Rel (fun i j => C.Leads p (p.left.drop i) (p.right.drop j)) v.provisional w.provisional
  enter : ∀ {p} (b : Bracket), C.Inv p → C.Inv (p.map b.enter)
  leave : ∀ {p q} (b : Bracket), C.Inv p → C.Inv q → C.Step (p.map b.enter) q →
    C.Leads p (b.leave q.left) (b.leave q.right)
  outside : ∀ {q v w} (b : Bracket), C.Val q v w → C.Val (q.map b.leave) v w
  closed : C.Closed := by exact .of_unbounded rfl

theorem Coupling.Handle.mono {C : Coupling} {p q : Pair} {i j : ObjectId} (handle : C.Handle p i j)
    (step : C.Step p q) : C.Handle q i j := fun callable => C.mono (handle callable) step

theorem Coupling.Handle.eq {C : Coupling} {p : Pair} {i j : ObjectId} (L : C.Lawful)
    (handle : C.Handle p i j) : i = j :=
  Content.object.inj (L.alike (handle false)).content

/-- A value that came from no entity stands for itself. -/
theorem Coupling.Lawful.bare {C : Coupling} (L : C.Lawful) {p : Pair} {v : Value} (h : v.IsBare) :
    C.Val p v v := by
  refine L.plain h.toIsPlain ⟨fun found => ?_, fun found => ?_, fun unwrapped => ?_⟩
  · rw [h.entity] at found
    cases found
  · rw [h.setter] at found
    cases found
  · rw [h.unwrapped] at unwrapped
    cases unwrapped

/-- Only an entity that is not quiet forbids an assignment. -/
theorem Engine.loud_of_forbids {b : Behavior} {v : Value} (h : forbids b.readonly v = true) :
    ¬ b.IsQuiet := by
  intro quiet
  rw [quiet.readonly] at h
  cases h

namespace Engine

variable {C : Coupling} {p : Pair} (L : C.Lawful) {α : Type} {Q : Pair → α → α → Prop}

include L

theorem onRegistry_holds {f g : Registry → Engine α}
    (h : C.Holds p Q (f C.left.registry) (g C.left.registry)) :
    C.Holds p Q (registry >>= f) (registry >>= g) := by
  have right : C.Holds p Q (f C.left.registry) (g C.right.registry) := L.registry ▸ h
  exact right

omit L in
theorem onHeap_holds {f g : Heap → Engine α}
    (h : C.Inv p → C.Holds p Q (f p.left.heap) (g p.right.heap)) :
    C.Holds p Q (heap >>= f) (heap >>= g) := fun inv => h inv inv

theorem newFunction_holds : C.Holds p C.Val newFunction newFunction := by
  have allocated : C.Holds p C.Handle (onHeap Heap.newObject) (onHeap Heap.newObject) :=
    .updateWith L.newObject
  exact allocated.bind fun q i j _ handle => .ret fun _ => handle true

/-- A finding at a node is about the file of the run. -/
theorem findingAt_holds {id : List String} {message : String} {n : Node} :
    C.Holds p (fun _ f g => f = g ∧ f.file = some C.left.file ∧ f.id = id) (findingAt id message n)
      (findingAt id message n) := by
  refine .onEnv (.ret fun _ => ⟨?_, rfl, rfl⟩)
  simp only [L.file, L.lines]

theorem record_holds {severity : Severity} {f : Finding} (here : f.file = some C.left.file)
    (warranted : C.Warrants f) :
    C.Holds p (fun _ _ _ => True) (record severity f) (record severity f) :=
  .updateWith fun inv => ⟨L.record severity f inv here warranted, trivial⟩

/-- The number of a record about a preference may be carried by a string. -/
theorem recordPreference_holds {severity : Severity} {f : Finding} {n : Node}
    (here : f.file = some C.left.file)
    (preference : f.id = ["javascript", "preference", "literal_pref"]) :
    C.Holds p (fun q a b => ∀ text, C.At n q { Value.string text with provisional := a }
      { Value.string text with provisional := b }) (record severity f) (record severity f) := by
  have own : f.id ∈ ownFindings := preference ▸ by decide
  exact .updateWith fun inv => ⟨L.record severity f inv here (.inl own),
    fun text => ⟨L.carry severity f text inv here preference,
      fun _ => L.carried severity f text inv⟩⟩

/-- What is reported about an entity, or about none. -/
def advised (r : Registry) (entity : Option EntityId) (advice : Advice) : Advice :=
  match entity with
  | some id => advice.over (r.advice id)
  | none => advice

/-- The finding that a report with some advice records. -/
structure Reports (advice : Advice) (f : Finding) : Prop where
  id : ∀ {id}, advice.id = some id → f.id = id
  message : ∀ {text}, advice.message = some text → f.message = text
  forVersions : f.forVersions = advice.gate.map VersionGate.expand

/-- The finding of a report at a node. -/
def reported (env : Env) (entity : Option EntityId) (advice : Advice) (n : Node) : Finding :=
  let full := advised env.registry entity advice
  let path := entity.elim "" env.registry.path
  { id := full.id.getD ["javascript", "dangerous_global", lastSegment path]
    message := full.message.getD ("Potentially dangerous use of \x60" ++ path ++ "\x60")
    file := some env.file
    line := some (n.start.row + 1)
    column := some n.start.column
    context := some (env.lines.excerpt (n.start.row + 1) n.start.column)
    description := full.description.toList
    signing := full.signing
    editorsOnly := full.editorsOnly = some true
    compatibility := full.compatibility
    forVersions := full.gate.map VersionGate.expand }

omit L in
theorem runFrom_flag (env : Env) (s : State) (entity : Option EntityId)
    (advice : Advice) (n : Node) :
    runFrom env s (flag entity advice n) =
      (.ok (), (s.record ((advised env.registry entity advice).severity.getD .warning)
        (reported env entity advice n)).2) := by
  cases entity <;> rfl

omit L in
theorem reports_reported (env : Env) (entity : Option EntityId) (advice : Advice) (n : Node) :
    Reports (advised env.registry entity advice) (reported env entity advice n) where
  id given := by
    rw [reported, given]
    rfl
  message given := by
    rw [reported, given]
    rfl
  forVersions := rfl

/-- A report needs a reason. It records a finding with what the advice says. -/
theorem flag_records {entity : Option EntityId} {advice : Advice} {n : Node}
    (alarm : C.reach.Alarm) :
    C.Holds p (fun q _ _ => C.Inv p ∧ ∃ f, Reports (advised C.left.registry entity advice) f ∧
        q.left = (p.left.record
          ((advised C.left.registry entity advice).severity.getD .warning) f).2)
      (flag entity advice n) (flag entity advice n) := by
  intro inv
  have same : reported C.right entity advice n = reported C.left entity advice n := by
    simp only [reported, L.registry, L.file, L.lines]
  rw [runFrom_flag, runFrom_flag, ← L.registry, same]
  refine .value (L.record _ _ inv rfl (.inr alarm)) ⟨inv, _, reports_reported .., rfl⟩

theorem flag_holds {entity : Option EntityId} {advice : Advice} {n : Node}
    (alarm : C.reach.Alarm) :
    C.Holds p Same (flag entity advice n) (flag entity advice n) :=
  (flag_records L alarm).imp fun _ _ _ _ _ _ => rfl

theorem dropProvisional_holds {v w : Value} (value : C.Val p v w) (literal : C.Literal v w) :
    C.Holds p Same (dropProvisional v) (dropProvisional w) := by
  intro inv
  have held : C.Holds p Same (dropProvisional v) (dropProvisional w) :=
    .forM (L.drop inv value literal) fun _ _ leads => .update fun _ => leads
  exact held inv

/-- A step inside of a bracket keeps the coupling if the step itself does. -/
theorem within_holds (b : Bracket) {x y : Engine Value}
    (body : C.Holds (p.map b.enter) C.Val x y) : C.Holds p C.Val (b.within x) (b.within y) :=
  .bracket (L.enter b) body (fun _ => L.leave b) fun _ _ _ => L.outside b

/-- The same for a step that gives values of a node. -/
theorem withinAt_holds (b : Bracket) {n : Node} {x y : Engine Value}
    (body : C.Holds (p.map b.enter) (C.At n) x y) : C.Holds p (C.At n) (b.within x) (b.within y) :=
  .bracket (L.enter b) body (fun _ => L.leave b) fun _ _ _ value => ⟨L.outside b value.1, value.2⟩

/-- The same for a step whose results are the same on both sides. -/
theorem withinSame_holds (b : Bracket) {x y : Engine α}
    (body : C.Holds (p.map b.enter) Same x y) : C.Holds p Same (b.within x) (b.within y) :=
  .bracket (L.enter b) body (fun _ => L.leave b) fun _ _ _ same => same

theorem declare_holds {name : String} {v w : Value} {d : Declaration} (value : C.Val p v w)
    (may : C.reach.Binds p.left (some d) name) :
    C.Holds p Same (declare name v d) (declare name w d) :=
  .update fun inv => L.declare name d inv value may

omit L in
theorem forbids_congr {v w : Value} (alike : v.Alike w) (readonly : Readonly) :
    forbids readonly v = forbids readonly w := by
  simp only [forbids, alike.isDirty, alike.isString]

/-- The check of an assignment to a global leaves a name that may be bound: the name is not guarded,
or there is a warning. -/
theorem checkOverwrite_binds {entity : EntityId} {name : String} {v w : Value} {n : Node}
    {declaring : Bool} (value : C.Val p v w) (known : C.reach.Entity entity) :
    C.Holds p (fun q _ _ => C.left.registry.global? name = some entity →
        ∀ d, C.reach.Binds q.left d name)
      (checkOverwrite entity name v n declaring) (checkOverwrite entity name w n declaring) := by
  have unguarded : ∀ {s}, C.left.registry.global? name = some entity →
      ((C.left.registry.behavior entity).readonly = .yes →
        (C.left.registry.behavior entity).overwriteable = false → False) →
      ∀ d, C.reach.Binds s d name := by
    intro s global lax d
    refine L.closed.free ?_
    rintro ⟨other, found, readonly, fixed⟩
    rw [global] at found
    cases found
    exact lax readonly fixed
  refine onRegistry_holds L ?_
  simp only [forbids_congr (L.alike value)]
  split
  next exempt =>
    refine .ret fun _ global => unguarded global fun _ fixed => ?_
    rw [fixed, Bool.and_false] at exempt
    cases exempt
  · split
    next forbidden =>
      refine (flag_records L (L.closed.loud known (loud_of_forbids forbidden))).imp ?_
      rintro q _ _ - - ⟨inv, f, reports, here⟩ global d
      rw [here]
      refine L.closed.warned d inv ⟨reports.id rfl, reports.message rfl, entity, global, ?_⟩
      exact reports.forVersions
    next allowed =>
      refine .ret fun _ global => unguarded global fun readonly _ => ?_
      rw [readonly] at allowed
      exact allowed rfl

theorem checkOverwrite_holds {entity : EntityId} {name : String} {v w : Value} {n : Node}
    {declaring : Bool} (value : C.Val p v w) (known : C.reach.Entity entity) :
    C.Holds p Same (checkOverwrite entity name v n declaring)
      (checkOverwrite entity name w n declaring) :=
  (checkOverwrite_binds L value known).imp fun _ _ _ _ _ _ => rfl

/-- A global name that has been checked may be bound. -/
theorem checkGlobal_holds {name : String} {v w : Value} {n : Node} {declaring : Bool}
    (value : C.Val p v w) :
    C.Holds p (fun q _ _ => ∀ d, C.reach.Binds q.left d name) (checkGlobal name v n declaring)
      (checkGlobal name w n declaring) := by
  refine onRegistry_holds L ?_
  cases global : C.left.registry.global? name with
  | none =>
      refine .ret fun _ d => L.closed.free ?_
      rintro ⟨entity, found, -⟩
      rw [global] at found
      cases found
  | some entity =>
      refine (checkOverwrite_binds L value (L.closed.entities.global? global)).imp ?_
      exact fun _ _ _ _ _ binds => binds global

omit L in
/-- Whether a scope takes a declaration depends on its kind alone. -/
theorem any_goesTo (d : Declaration) (scopes : List Scope) :
    scopes.any d.goesTo = (scopes.map (·.kind)).any fun kind => d.goesTo ⟨kind, []⟩ := by
  rw [List.any_map]
  cases d <;> rfl

/-- A name is declared in a scope that takes it, or after the check of a global. -/
theorem declareChecked_holds {name : String} {v w : Value} {d : Declaration} {n : Node}
    (value : C.Val p v w) :
    C.Holds p Same (declareChecked name v d n) (declareChecked name w d n) := by
  refine .onState fun inv => ?_
  have same : p.left.scopes.any d.goesTo = p.right.scopes.any d.goesTo := by
    rw [any_goesTo, any_goesTo, L.kinds inv]
  rw [← same]
  cases taken : p.left.scopes.any d.goesTo with
  | true => exact declare_holds L value (L.closed.inside taken)
  | false =>
      refine (checkGlobal_holds L value).bind fun q _ _ step binds => ?_
      exact declare_holds L (C.mono value step) (binds _)

theorem flagConstant_holds {name : String} {n : Node} :
    C.Holds p Same (flagConstant name n) (flagConstant name n) := by
  refine (findingAt_holds L).bind ?_
  rintro q finding _ - ⟨rfl, here, own⟩
  have warranted : C.Warrants finding := .inl (own ▸ by decide)
  exact (record_holds L here warranted).bind fun _ _ _ _ _ => .ret fun _ => rfl

theorem setVariable_holds {name : String} {v w : Value} {n : Node} (value : C.Val p v w) :
    C.Holds p Same (setVariable name v n) (setVariable name w n) := by
  refine .onState fun inv => ?_
  have found := L.overwrite name inv value
  generalize p.left.overwrite? name v = a, p.right.overwrite? name w = b at found
  cases found with
  | some related =>
      obtain ⟨const, leads⟩ := related
      refine (Holds.put leads).bind fun q _ _ _ _ => ?_
      exact .when const fun _ => flagConstant_holds L
  | none =>
      refine (checkGlobal_holds L value).bind fun q _ _ step binds => ?_
      exact .update fun inv => L.storeGlobal name inv (C.mono value step) (binds _)

end Engine

end AddonAudit.Script
