import AddonAudit.Proofs.Alike
import AddonAudit.Script.Engine.Run

/-!
# Coupled runs

Two runs of the engine are compared step by step. A coupling says which pairs of states belong
together, how such a pair may change, and which value of one run stands for which value of the
other. Where both runs are the same, a coupling is an invariant of one run.

`Coupling.Holds` is the judgement that two steps keep a coupling. Its rules follow the ways in which
steps are put together, so that the judgement for a step comes from those of its parts.
-/

namespace AddonAudit.Script

open Engine

namespace Engine

variable {α β : Type} {env : Env} {s : State}

theorem runFrom_bind (x : Engine α) (f : α → Engine β) :
    runFrom env s (x >>= f) =
      match runFrom env s x with
      | (.ok a, t) => runFrom env t (f a)
      | (.error e, t) => (.error e, t) := by
  unfold runFrom
  change (ExceptT.bindCont (fun a => f a env) ((x env).run s).1 : StateM State (Except Fault β))
    ((x env).run s).2 = _
  rcases (x env).run s with ⟨_ | a, t⟩ <;> rfl

/-- A sequence that gives a value has a first step that gives one. -/
theorem runFrom_bind_of_ok {x : Engine α} {f : α → Engine β} {b : β}
    (ok : (runFrom env s (x >>= f)).1 = .ok b) :
    ∃ a t, runFrom env s x = (.ok a, t) ∧ runFrom env s (x >>= f) = runFrom env t (f a) := by
  rw [runFrom_bind] at ok ⊢
  rcases ran : runFrom env s x with ⟨e | a, t⟩
  · rw [ran] at ok
    cases ok
  · exact ⟨a, t, rfl, rfl⟩

theorem runFrom_andAlways (x : Engine α) (after : State → State) :
    runFrom env s (andAlways x (modify after)) =
      ((runFrom env s x).1, after (runFrom env s x).2) := by
  have observed : runFrom env s (observe x) = (.ok (runFrom env s x).1, (runFrom env s x).2) := rfl
  rw [andAlways, runFrom_bind, observed]
  rcases runFrom env s x with ⟨_ | a, t⟩ <;> rfl

theorem runFrom_inScope (kind : ScopeKind) (x : Engine α) :
    runFrom env s (inScope kind x) =
      ((runFrom env (s.enterScope kind) x).1, (runFrom env (s.enterScope kind) x).2.leaveScope) :=
  runFrom_andAlways x State.leaveScope

theorem runFrom_inReceiver (x : Engine α) :
    runFrom env s (inReceiver x) =
      ((runFrom env s.enterReceiver x).1, (runFrom env s.enterReceiver x).2.leaveReceiver) :=
  runFrom_andAlways x State.leaveReceiver

/-- Steps that end alike from every state are the same. -/
theorem ext {x y : Engine α} (h : ∀ env s, runFrom env s x = runFrom env s y) : x = y :=
  funext fun env => funext fun s => h env s

end Engine

/-- The states of two runs. -/
structure Pair where
  left : State
  right : State

/-- Change both states in the same way. -/
def Pair.map (f : State → State) (p : Pair) : Pair :=
  ⟨f p.left, f p.right⟩

/-- What a run may come to. By default nothing is ruled out. -/
structure Reach where
  /-- The entities that it may meet. -/
  Entity : EntityId → Prop := fun _ => True
  /-- Whether it may meet an entity that is not quiet, or an unwrapped value. -/
  Alarm : Prop := True
  /-- The names that it may bind in a state, by a declaration or by an assignment that makes a
  global. -/
  Binds : State → Option Declaration → String → Prop := fun _ _ _ => True

/-- A way to compare two runs. -/
structure Coupling where
  left : Env
  right : Env
  /-- The states that belong together. -/
  Inv : Pair → Prop
  /-- How a pair of states may change. -/
  Step : Pair → Pair → Prop
  /-- The values that stand for each other. -/
  Val : Pair → Value → Value → Prop
  /-- What holds besides of the values of a string literal. -/
  Literal : Value → Value → Prop := fun _ _ => True
  /-- The faults of the left run after which nothing more is compared. -/
  Excused : Fault → Prop := fun _ => False
  /-- The faults with which both runs may end. -/
  Faults : Fault → Prop := fun _ => True
  /-- What the runs may come to. -/
  reach : Reach := {}
  refl : ∀ p, Step p p
  trans : ∀ {p q r}, Step p q → Step q r → Step p r
  mono : ∀ {p q v w}, Val p v w → Step p q → Val q v w

namespace Coupling

variable {α β : Type} {C : Coupling} {p : Pair}

/-- The values that stand for each other as those of a node. -/
def At (C : Coupling) (n : Node) (p : Pair) (v w : Value) : Prop :=
  C.Val p v w ∧ (n.kind = .string → C.Literal v w)

theorem At.mono {n : Node} {q : Pair} {v w : Value} (h : C.At n p v w) (step : C.Step p q) :
    C.At n q v w :=
  ⟨C.mono h.1 step, h.2⟩

/-- A change of the states of a pair that keeps them together. -/
structure Leads (C : Coupling) (p : Pair) (s t : State) : Prop where
  inv : C.Inv ⟨s, t⟩
  step : C.Step p ⟨s, t⟩

/-- How two runs from a pair of states end: with results that belong together, with the same fault,
or with a fault that is excused. -/
inductive Ends (C : Coupling) (p : Pair) (Q : Pair → α → α → Prop) :
    Except Fault α × State → Except Fault α × State → Prop where
  | value {s t : State} {a b : α} : C.Leads p s t → Q ⟨s, t⟩ a b → Ends C p Q (.ok a, s) (.ok b, t)
  | fault {s t : State} (e : Fault) : C.Leads p s t → C.Faults e →
      Ends C p Q (.error e, s) (.error e, t)
  | excused {s : State} {e : Fault} {end₂ : Except Fault α × State} :
      C.Excused e → Ends C p Q (.error e, s) end₂

/-- Two steps keep a coupling: from states that belong together they end together. -/
def Holds (C : Coupling) (p : Pair) (Q : Pair → α → α → Prop) (x y : Engine α) : Prop :=
  C.Inv p → C.Ends p Q (runFrom C.left p.left x) (runFrom C.right p.right y)

theorem related_self {R : α → α → Prop} {o : Option α} (h : ∀ a, o = some a → R a a) :
    Option.Rel R o o := by
  cases o with
  | none => exact .none
  | some a => exact .some (h a rfl)

/-- What is there on the left stands for something on the right. -/
theorem related_left {R : α → β → Prop} {o : Option α} {o' : Option β} {a : α}
    (h : Option.Rel R o o') (found : o = some a) : ∃ b, R a b := by
  subst found
  cases h with
  | some related => exact ⟨_, related⟩

/-- The results of both runs are the same. -/
def Same (_ : Pair) (a b : α) : Prop := a = b

/-- What follows a change of states starts later. -/
theorem Ends.after {s t : State} {Q : Pair → α → α → Prop} {end₁ end₂ : Except Fault α × State}
    (start : C.Leads p s t) (h : C.Ends ⟨s, t⟩ Q end₁ end₂) : C.Ends p Q end₁ end₂ := by
  cases h with
  | value last post => exact .value ⟨last.inv, C.trans start.step last.step⟩ post
  | fault e last may => exact .fault e ⟨last.inv, C.trans start.step last.step⟩ may
  | excused excused => exact .excused excused

theorem Ends.imp {Q R : Pair → α → α → Prop} {end₁ end₂ : Except Fault α × State}
    (h : C.Ends p R end₁ end₂)
    (post : ∀ q a b, C.Step p q → C.Inv q → R q a b → Q q a b) : C.Ends p Q end₁ end₂ := by
  cases h with
  | value last result => exact .value last (post _ _ _ last.step last.inv result)
  | fault e last may => exact .fault e last may
  | excused excused => exact .excused excused

namespace Holds

variable {Q R : Pair → α → α → Prop} {S : Pair → β → β → Prop} {x y : Engine α}

theorem ret {a b : α} (post : C.Inv p → Q p a b) : C.Holds p Q (pure a) (pure b) := fun inv =>
  .value ⟨inv, C.refl p⟩ (post inv)

theorem fail {e : Fault} (may : C.Faults e) : C.Holds p Q (throw e) (throw e) := fun inv =>
  .fault e ⟨inv, C.refl p⟩ may

/-- The rule of sequence. The second steps start in a later pair of states. -/
theorem bind {f g : α → Engine β} (first : C.Holds p R x y)
    (second : ∀ q a b, C.Step p q → R q a b → C.Holds q S (f a) (g b)) :
    C.Holds p S (x >>= f) (y >>= g) := by
  intro inv
  rw [runFrom_bind, runFrom_bind]
  have ends : C.Ends p R (runFrom C.left p.left x) (runFrom C.right p.right y) := first inv
  generalize runFrom C.left p.left x = end₁, runFrom C.right p.right y = end₂ at ends
  cases ends with
  | value start post => exact (second _ _ _ start.step post start.inv).after start
  | fault e start may => exact .fault e start may
  | excused excused => exact .excused excused

/-- The rule of consequence. -/
theorem imp (h : C.Holds p R x y) (post : ∀ q a b, C.Step p q → C.Inv q → R q a b → Q q a b) :
    C.Holds p Q x y := fun inv => (h inv).imp post

theorem onState {f g : State → Engine α} (h : C.Inv p → C.Holds p Q (f p.left) (g p.right)) :
    C.Holds p Q (get >>= f) (get >>= g) := fun inv => h inv inv

theorem onEnv {f g : Env → Engine α} (h : C.Holds p Q (f C.left) (g C.right)) :
    C.Holds p Q (read >>= f) (read >>= g) := h

theorem update {f g : State → State} (h : C.Inv p → C.Leads p (f p.left) (g p.right)) :
    C.Holds p Same (modify f : Engine Unit) (modify g) := fun inv => .value (h inv) rfl

theorem updateWith {f g : State → α × State}
    (h : C.Inv p → C.Leads p (f p.left).2 (g p.right).2 ∧
      Q ⟨(f p.left).2, (g p.right).2⟩ (f p.left).1 (g p.right).1) :
    C.Holds p Q (modifyGet f : Engine α) (modifyGet g) := fun inv => .value (h inv).1 (h inv).2

theorem put {s t : State} (h : C.Leads p s t) :
    C.Holds p Same (set s : Engine PUnit) (set t) := fun _ => .value h rfl

theorem when {c d : Bool} {x y : Engine Unit} (same : c = d) (h : c = true → C.Holds p Same x y) :
    C.Holds p Same (Engine.when c x) (Engine.when d y) := by
  subst same
  cases c with
  | true => exact h rfl
  | false => exact ret fun _ => rfl

theorem forM {γ : Type} {V : γ → γ → Prop} {o o' : Option γ} {f g : γ → Engine PUnit}
    (related : Option.Rel V o o') (h : ∀ a b, V a b → C.Holds p Same (f a) (g b)) :
    C.Holds p Same (o.forM f) (o'.forM g) := by
  cases related with
  | none => exact ret fun _ => rfl
  | some value => exact h _ _ value

/-- The rule of brackets: a step runs between a change of the state and its reversal, which takes
place on every way out. -/
theorem bracket {enter leave : State → State} (enters : C.Inv p → C.Inv (p.map enter))
    (body : C.Holds (p.map enter) Q x y)
    (leaves : ∀ q, C.Inv p → C.Inv q → C.Step (p.map enter) q →
      C.Leads p (leave q.left) (leave q.right))
    (post : ∀ q a b, Q q a b → Q (q.map leave) a b) :
    C.Holds p Q (do modify enter; andAlways x (modify leave))
      (do modify enter; andAlways y (modify leave)) := by
  intro inv
  rw [runFrom_bind, runFrom_bind]
  change C.Ends p Q (runFrom C.left (enter p.left) _) (runFrom C.right (enter p.right) _)
  rw [runFrom_andAlways, runFrom_andAlways]
  have ends : C.Ends (p.map enter) Q (runFrom C.left (enter p.left) x)
      (runFrom C.right (enter p.right) y) := body (enters inv)
  generalize runFrom C.left (enter p.left) x = end₁, runFrom C.right (enter p.right) y = end₂
    at ends
  cases ends with
  | value last result => exact .value (leaves _ inv last.inv last.step) (post _ _ _ result)
  | fault e last may => exact .fault e (leaves _ inv last.inv last.step) may
  | excused excused => exact .excused excused

end Holds

end Coupling

end AddonAudit.Script
