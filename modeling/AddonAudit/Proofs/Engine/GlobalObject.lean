import AddonAudit.Proofs.Engine.Coupling
import AddonAudit.Proofs.Scope
import AddonAudit.Script.Catalogue
import AddonAudit.Script.Reader

/-!
# Properties of the global object

A write to a property of the global object is an assignment to a variable. Before it, hooks may run
and warnings may be recorded, but nothing except the bundle changes. So the write reaches the
globals only if no scope around declares the name; otherwise it changes the innermost scope that
does, and the globals stay as they were.
-/

namespace AddonAudit.Script

open Engine

/-- A step that ends well and changes nothing but the bundle. -/
def Records {α : Type} (env : Env) (x : Engine α) : Prop :=
  ∀ s, ∃ a b, runFrom env s x = (.ok a, { s with bundle := b })

namespace Records

variable {α β : Type} {env : Env} {x : Engine α}

theorem ret (a : α) : Records env (pure a) := fun s => ⟨a, s.bundle, rfl⟩

theorem bind {f : α → Engine β} (first : Records env x) (second : ∀ a, Records env (f a)) :
    Records env (x >>= f) := by
  intro s
  obtain ⟨a, b, ran⟩ := first s
  rw [runFrom_bind, ran]
  exact second a _

/-- What follows such a step starts in the same state, up to the bundle. -/
theorem runFrom_bind {f : α → Engine β} (first : Records env x) (s : State) :
    ∃ a b, runFrom env s (x >>= f) = runFrom env { s with bundle := b } (f a) := by
  obtain ⟨a, b, ran⟩ := first s
  exact ⟨a, b, by rw [Engine.runFrom_bind, ran]⟩

theorem registry : Records env registry := fun s => ⟨env.registry, s.bundle, rfl⟩

theorem heap : Records env heap := fun s => ⟨s.heap, s.bundle, rfl⟩

theorem ite {y : Engine α} {c : Prop} [Decidable c] (h : Records env x) (h' : Records env y) :
    Records env (if c then x else y) := by
  split
  · exact h
  · exact h'

theorem when {x : Engine Unit} (c : Bool) (h : Records env x) : Records env (Engine.when c x) :=
  .ite h (.ret ())

theorem forM {γ : Type} {f : γ → Engine PUnit} (o : Option γ) (h : ∀ a, Records env (f a)) :
    Records env (o.forM f) := by
  cases o with
  | none => exact .ret ()
  | some a => exact h a

theorem flag (entity : Option EntityId) (advice : Advice) (n : Node) :
    Records env (flag entity advice n) := by
  intro s
  cases entity <;> exact ⟨_, _, rfl⟩

theorem flagConstant (name : String) (n : Node) : Records env (flagConstant name n) := fun _ =>
  ⟨_, _, rfl⟩

theorem checkOverwrite (entity : EntityId) (name : String) (v : Value) (n : Node)
    (declaring : Bool) : Records env (checkOverwrite entity name v n declaring) :=
  registry.bind fun _ => .ite (.ret ()) (.ite (.flag _ _ n) (.ret ()))

theorem checkGlobal (name : String) (v : Value) (n : Node) (declaring : Bool) :
    Records env (checkGlobal name v n declaring) :=
  registry.bind fun _ => .forM _ fun entity => .checkOverwrite entity name v n declaring

theorem setsMarkup (name : String) (v : Value) : Records env (Hook.setsMarkup name v) :=
  .ite (.ret _) (heap.bind fun _ => .ite (.ret _) (.ret _))

/-- A hook for a write may look at the heap, but it only decides. -/
theorem onSet (hook : SetHook) (name : String) (v : Value) :
    Records env (Hook.onSet hook name v) := by
  cases hook with
  | setsMarkup => exact .setsMarkup name v
  | setsHandler => exact .ite (.ret _) (.ret _)
  | extendsPrototype | exposesProperties | changesEngine => exact .ret _

theorem runSetHook (entity : EntityId) (name : String) (v : Value) (n : Node) :
    Records env (runSetHook entity name v n) := by
  refine registry.bind fun r => ?_
  split
  · exact .ret ()
  next hook _ =>
      refine (Records.onSet hook name v).bind fun outcome => ?_
      cases outcome with
      | flag advice => exact .flag _ advice n
      | silent | value => exact .ret ()

theorem guardOf? (base : Value) (name : String) : Records env (guardOf? base name) :=
  registry.bind fun _ => heap.bind fun _ => .ret _

end Records

/-- Either no scope declares a name, or there is an innermost one that does. -/
theorem declared_cases (name : String) (scopes : List Scope) :
    (∀ scope ∈ scopes, scope.names.find? name = none) ∨
      ∃ inner scope outer old, scopes = inner ++ scope :: outer ∧
        (∀ scope ∈ inner, scope.names.find? name = none) ∧ scope.names.find? name = some old := by
  cases found : scopes.find? fun scope => (scope.names.find? name).isSome with
  | none =>
      refine .inl fun scope mem => ?_
      exact Option.not_isSome_iff_eq_none.1 (List.find?_eq_none.1 found scope mem)
  | some scope =>
      obtain ⟨here, inner, outer, split, absent⟩ := List.find?_eq_some_iff_append.1 found
      obtain ⟨old, here⟩ := Option.isSome_iff_exists.1 here
      refine .inr ⟨inner, scope, outer, old, split, fun other mem => ?_, here⟩
      simpa using absent other mem

section Assignment

variable (env : Env) (s : State) (name : String) (v : Value) (n : Node)

theorem runFrom_setVariable :
    runFrom env s (setVariable name v n) = (s.overwrite? name v).elim
      (runFrom env s do checkGlobal name v n false; modify (·.storeGlobal name (v.named false)))
      fun found => runFrom env found.2 (Engine.when found.1.isConst (flagConstant name n)) := by
  have got : runFrom env s (get : Engine State) = (.ok s, s) := rfl
  rw [setVariable, runFrom_bind, got]
  dsimp only
  cases s.overwrite? name v <;> rfl

/-- An assignment to a name that no scope has changes the globals. A constant stays a constant. -/
theorem setVariable_of_undeclared (absent : ∀ scope ∈ s.scopes, scope.names.find? name = none) :
    ∃ b, runFrom env s (setVariable name v n) = (.ok (), { s with
      bundle := b
      globals := s.globals.store name (v.named ((s.globals.find? name).any (·.isConst))) }) := by
  rw [runFrom_setVariable, State.overwrite?, replace?_of_undeclared _ _ absent]
  cases s.globals.find? name with
  | some old =>
      have warns : Records env (Engine.when old.isConst (flagConstant name n)) :=
        .when old.isConst (.flagConstant name n)
      obtain ⟨_, b, ran⟩ := warns
        { s with globals := s.globals.store name (v.named old.isConst) }
      exact ⟨b, ran⟩
  | none =>
      obtain ⟨_, b, ran⟩ := (Records.checkGlobal name v n false).runFrom_bind s
      exact ⟨b, ran⟩

/-- An assignment to a name changes the innermost scope that has it. -/
theorem setVariable_of_declared {inner outer : List Scope} {scope : Scope} {old : Value}
    (scopes : s.scopes = inner ++ scope :: outer)
    (absent : ∀ scope ∈ inner, scope.names.find? name = none)
    (here : scope.names.find? name = some old) :
    ∃ b, runFrom env s (setVariable name v n) = (.ok (), { s with
      bundle := b
      scopes :=
        inner ++ { scope with names := scope.names.store name (v.named old.isConst) } ::
          outer }) := by
  rw [runFrom_setVariable, State.overwrite?, scopes, replace?_of_declared _ _ absent here]
  have warns : Records env (Engine.when old.isConst (flagConstant name n)) :=
    .when old.isConst (.flagConstant name n)
  obtain ⟨_, b, ran⟩ := warns
    { s with scopes :=
        inner ++ { scope with names := scope.names.store name (v.named old.isConst) } :: outer }
  exact ⟨b, ran⟩

end Assignment

/-- A write to a property of the global object is an assignment to a variable, after some
records. -/
theorem setMember_of_globalScope {env : Env} {base : Value} {entity : EntityId}
    (held : base.entity = some entity) (globe : (env.registry.behavior entity).globalScope = true)
    (s : State) (name : String) (v : Value) (n : Node) :
    ∃ b, runFrom env s (setMember base name v n) =
      runFrom env { s with bundle := b } (setVariable name v n) := by
  have stored : ∀ guard s, runFrom env s (storeMember guard base name v n) =
      runFrom env s (setVariable name v n) := by
    intro guard s
    have delegates : (base.entity.any fun id => (env.registry.behavior id).globalScope) = true := by
      rw [held]
      exact globe
    change runFrom env s (if _ then setVariable name v n else _) = _
    rw [if_pos delegates]
  obtain ⟨_, b₁, warned⟩ := ((Records.flag none _ n).when base.unwrapped).runFrom_bind s
  obtain ⟨guard, b₂, guarded⟩ := (Records.guardOf? base name).runFrom_bind { s with bundle := b₁ }
  obtain ⟨_, b₃, hooked⟩ := (Records.forM guard fun id => .runSetHook id name v n).runFrom_bind
    { s with bundle := b₂ }
  exact ⟨b₃, warned.trans (guarded.trans (hooked.trans (stored guard _)))⟩

/-- The names after a value was bound to one of them: the name comes last if it is new. -/
structure Properties.Binds (name : String) (v : Value) (old new : Properties) : Prop where
  bound : new.find? name = some v
  others : ∀ other, other ≠ name → new.find? other = old.find? other
  order : new.names = addName name old.names

theorem Properties.Binds.store (name : String) (v : Value) (l : Properties) :
    Binds name v l (l.store name v) :=
  ⟨find?_store_self name v l, fun _ ne => find?_store_of_ne ne v l, names_store name v l⟩

/-- A write to a property of the global object always ends well, and changes at most the bundle and
one place where names are kept. If no scope declares the name, these are the globals, and the scopes
stay as they were. If a scope declares it, then the innermost one that does takes the value, and the
globals and all other scopes stay as they were. -/
theorem Engine.global_property_bound (env : Env) (s : State) (base : Value) (entity : EntityId)
    (name : String) (v : Value) (n : Node) (held : base.entity = some entity)
    (globe : (env.registry.behavior entity).globalScope = true) :
    ∃ t, runFrom env s (setMember base name v n) = (.ok (), t) ∧
      t = { s with bundle := t.bundle, globals := t.globals, scopes := t.scopes } ∧
      ((∀ scope ∈ s.scopes, scope.names.find? name = none) →
        t.scopes = s.scopes ∧
        Properties.Binds name (v.named ((s.globals.find? name).any (·.isConst)))
          s.globals t.globals) ∧
      ∀ inner scope outer old, s.scopes = inner ++ scope :: outer →
        (∀ scope ∈ inner, scope.names.find? name = none) → scope.names.find? name = some old →
        t.globals = s.globals ∧ ∃ names, t.scopes = inner ++ { scope with names } :: outer ∧
          Properties.Binds name (v.named old.isConst) scope.names names := by
  obtain ⟨b, delegated⟩ := setMember_of_globalScope held globe s name v n
  rw [delegated]
  let start : State := { s with bundle := b }
  rcases declared_cases name s.scopes with absent | ⟨inner, scope, outer, old, scopes, absent, here⟩
  · obtain ⟨b', ran⟩ := setVariable_of_undeclared env start name v n absent
    refine ⟨_, ran, rfl, fun _ => ⟨rfl, .store name _ s.globals⟩, ?_⟩
    intro inner scope outer old scopes _ here
    have mem : scope ∈ s.scopes := scopes ▸ List.mem_append_right inner List.mem_cons_self
    exact absurd ((absent scope mem).symm.trans here) nofun
  · obtain ⟨b', ran⟩ := setVariable_of_declared env start name v n scopes absent here
    have mem : scope ∈ s.scopes := scopes ▸ List.mem_append_right inner List.mem_cons_self
    refine ⟨_, ran, rfl, fun unbound => absurd ((unbound scope mem).symm.trans here) nofun, ?_⟩
    intro inner' scope' outer' old' scopes' absent' here'
    obtain ⟨b'', ran'⟩ := setVariable_of_declared env start name v n scopes' absent' here'
    -- The run ends in one state, so both ways to split the scopes describe it.
    have same := congrArg (·.2.scopes) (ran.symm.trans ran')
    exact ⟨rfl, _, same, .store name _ scope'.names⟩

/-- A registry with a global object. -/
def windowRegistry : Registry :=
  Catalogue.registryOf [(["window"], { globalScope := true })]

/-- A name is bound in the function around a block, and other names are global. -/
def shadowedState : State where
  bundle := {}
  globals := [("y", .null)]
  scopes := [{ kind := .block }, { kind := .function, names := [("x", .null)] }]
  window := .ofEntity 1
  results := #[]

theorem Engine.global_property_bound_shadowed :
    let env : Env := { registry := windowRegistry, file := "overlay.js", lines := .ofChars [] }
    let base := Value.ofEntity 1
    let n : Node := { kind := .memberExpression }
    base.entity = some 1 ∧ (env.registry.behavior 1).globalScope = true ∧
      (∃ t, runFrom env shadowedState (setMember base "y" (.bool true) n) = (.ok (), t) ∧
        t.scopes = shadowedState.scopes ∧ t.globals.find? "y" = some (.bool true)) ∧
      ∃ t, runFrom env shadowedState (setMember base "x" (.bool true) n) = (.ok (), t) ∧
        t.globals = shadowedState.globals ∧ t.find? "x" = some (.bool true) := by
  intro env base n
  have globe : (env.registry.behavior 1).globalScope = true := by decide +kernel
  refine ⟨rfl, globe, ?_, ?_⟩
  · obtain ⟨t, ran, -, undeclared, -⟩ :=
      global_property_bound env shadowedState base 1 "y" (.bool true) n rfl globe
    obtain ⟨scopes, binds⟩ := undeclared (by decide)
    exact ⟨t, ran, scopes, binds.bound⟩
  · obtain ⟨t, ran, -, -, declared⟩ :=
      global_property_bound env shadowedState base 1 "x" (.bool true) n rfl globe
    obtain ⟨globals, names, scopes, binds⟩ :=
      declared [{ kind := .block }] { kind := .function, names := [("x", .null)] } [] .null rfl
        (by decide) rfl
    refine ⟨t, ran, globals, ?_⟩
    rw [State.find?, scopes]
    change (names.find? "x" <|> _) = _
    rw [binds.bound]
    rfl

/-- A script that writes a property of the global object next to a local variable of that name. -/
def shadowedProperty : List Char :=
  "\x7b let x = 1; window.x = 2; \x7d".toList

/-- The name need not become a global: here the script ends well, and there is none. -/
theorem Engine.shadowed_global_property_lost :
    let env : Env :=
      { registry := windowRegistry, file := "overlay.js", lines := .ofChars shadowedProperty }
    let t := Tree.ofSource shadowedProperty
    let ran := runFrom env (initial env.registry t none {}) (run t)
    ran.1 = .ok () ∧ ran.2.globals.names = [] := by
  intro env t ran
  have ok : ran.1 = .ok () := by decide +kernel
  have noGlobals : ran.2.globals.names = [] := by decide +kernel
  exact ⟨ok, noGlobals⟩

end AddonAudit.Script
