import AddonAudit.Proofs.Engine.Walk

/-!
# Invariants of a run

An invariant of one run is a coupling of the run with itself. What is asked of it is the same, said
of one state instead of two; what follows is a statement about every visit, however it ends.
-/

namespace AddonAudit.Script

open Engine Coupling

/-- What a run keeps: a property of its states, a way in which they may change, and a property of
the values that it meets. -/
structure Invariant where
  Inv : State → Prop
  Step : State → State → Prop
  Val : State → Value → Prop
  /-- What holds besides of the value of a string literal. -/
  Literal : Value → Prop := fun _ => True
  /-- The faults with which the run may end. -/
  Faults : Fault → Prop := fun _ => True
  /-- What the run may come to. -/
  reach : Reach := {}
  refl : ∀ s, Step s s
  trans : ∀ {s t u}, Step s t → Step t u → Step s u
  mono : ∀ {s t v}, Val s v → Step s t → Val t v

namespace Invariant

/-- A change that the invariant allows. -/
structure Leads (I : Invariant) (s t : State) : Prop where
  inv : I.Inv t
  step : I.Step s t

/-- A new object whose handle is a value of the invariant. -/
structure Allocates (I : Invariant) (s : State) (made : ObjectId × State) : Prop where
  leads : I.Leads s made.2
  handle : ∀ callable, I.Val made.2 { content := .object made.1, callable }

/-- An invariant that every operation on the state keeps, the keeping of a node's value apart. -/
structure Steady (I : Invariant) : Prop where
  plain : ∀ {s} {v : Value}, v.IsPlain → I.reach.Admits v → I.Val s v
  find : ∀ {s name v}, I.Inv s → s.find? name = some v → I.Val s v
  receiver : ∀ {s}, I.Inv s → I.Val s s.receiver
  kept : ∀ {s id v}, I.Inv s → s.kept? id = some v → I.Val s v
  property : ∀ {s b id name v}, I.Inv s → I.Val s b → b.object? = some id →
    s.heap.get? id name = some v → I.Val s v
  infer : ∀ {s} name, I.Inv s → s.find? name = none → I.reach.Binds s none name →
    I.Leads s (s.storeGlobal name { Value.unknown with inferred := true })
  storeGlobal : ∀ {s v} name, I.Inv s → I.Val s v → I.reach.Binds s none name →
    I.Leads s (s.storeGlobal name (v.named false))
  declare : ∀ {s v} name d, I.Inv s → I.Val s v → I.reach.Binds s (some d) name →
    I.Leads s (s.declare name v d)
  overwrite : ∀ {s t v old name}, I.Inv s → I.Val s v → s.overwrite? name v = some (old, t) →
    I.Leads s t
  setProperty : ∀ {s b id v} name, I.Inv s → I.Val s b → b.object? = some id → I.Val s v →
    I.Leads s (s.setProperty id name v)
  newObject : ∀ {s}, I.Inv s → I.Allocates s (s.onHeap Heap.newObject)
  newArray : ∀ {s} {vs : List Value}, I.Inv s → (∀ v ∈ vs, I.Val s v) →
    I.Allocates s (s.onHeap (·.newArray vs.toArray))
  record : ∀ {s} severity f, I.Inv s → f.id ∈ ownFindings ∨ I.reach.Alarm →
    I.Leads s (s.record severity f).2
  carry : ∀ {s} severity f text, I.Inv s → f.id = ["javascript", "preference", "literal_pref"] →
    I.Val (s.record severity f).2
      { Value.string text with provisional := (s.record severity f).1 }
  carried : ∀ {s} severity f text, I.Inv s →
    I.Literal { Value.string text with provisional := (s.record severity f).1 } := by
    exact fun _ _ _ _ => trivial
  literal : ∀ text, I.Literal (.string text) := by exact fun _ => trivial
  drop : ∀ {s v uid}, I.Inv s → I.Val s v → I.Literal v → v.provisional = some uid →
    I.Leads s (s.drop uid)
  tick : ∀ {s clock} visited, I.Inv s → (s.clock = none → clock = none) →
    I.Leads s { s with visited, clock }
  enter : ∀ {s} (b : Bracket), I.Inv s → I.Inv (b.enter s)
  leave : ∀ {s t} (b : Bracket), I.Inv s → I.Inv t → I.Step (b.enter s) t →
    I.Leads s (b.leave t)
  outside : ∀ {s v} (b : Bracket), I.Val s v → I.Val (b.leave s) v

/-- The value of a node. -/
def At (I : Invariant) (n : Node) (s : State) (v : Value) : Prop :=
  I.Val s v ∧ (n.kind = .string → I.Literal v)

/-- A steady invariant that visits keep which keep values of known nodes only. It may rule out that
the time is over. -/
structure Walking (I : Invariant) (Known : Node → Prop) : Prop extends I.Steady where
  keptLiteral : ∀ {s n v}, I.Inv s → Known n → n.kind = .string → s.kept? n.id = some v →
    I.Literal v := by exact fun _ _ _ _ => trivial
  keep : ∀ {s v n}, I.Inv s → Known n → I.At n s v → I.Leads s (s.keep n.id v)
  faults : ∀ e, e ≠ .timeout → I.Faults e
  late : ∀ {s}, I.Inv s → s.clock.look.1 = true → I.Faults .timeout

/-- A steady invariant that visits keep which keep values of known nodes only, with any fault. -/
structure Lasting (I : Invariant) (Known : Node → Prop) : Prop extends I.Steady where
  keptLiteral : ∀ {s n v}, I.Inv s → Known n → n.kind = .string → s.kept? n.id = some v →
    I.Literal v := by exact fun _ _ _ _ => trivial
  keep : ∀ {s v n}, I.Inv s → Known n → I.At n s v → I.Leads s (s.keep n.id v)
  faults : ∀ e, I.Faults e

/-- An invariant that every operation on the state keeps. -/
structure Lawful (I : Invariant) : Prop extends I.Steady where
  keep : ∀ {s v} id, I.Inv s → I.Val s v → I.Leads s (s.keep id v)
  literals : ∀ {v}, I.Literal v := by exact trivial
  faults : ∀ e, I.Faults e

theorem Lawful.lasting {I : Invariant} (K : I.Lawful) : I.Lasting fun _ => True where
  toSteady := K.toSteady
  keptLiteral _ _ _ _ := K.literals
  keep inv _ value := K.keep _ inv value.1
  faults := K.faults

theorem Lasting.walking {I : Invariant} {Known : Node → Prop} (K : I.Lasting Known) :
    I.Walking Known where
  toSteady := K.toSteady
  keptLiteral := K.keptLiteral
  keep := K.keep
  faults e _ := K.faults e
  late _ _ := K.faults .timeout

/-- A run coupled with itself. -/
def coupling (I : Invariant) (env : Env) : Coupling where
  left := env
  right := env
  Inv p := ∃ s, p = ⟨s, s⟩ ∧ I.Inv s
  Step p q := I.Step p.left q.left
  Val p v w := v = w ∧ I.Val p.left v
  Literal v _ := I.Literal v
  Faults := I.Faults
  reach := I.reach
  refl p := I.refl p.left
  trans := I.trans
  mono value step := ⟨value.1, I.mono value.2 step⟩

variable {I : Invariant} {env : Env} {s t : State}

theorem Leads.coupled (h : I.Leads s t) : (I.coupling env).Leads ⟨s, s⟩ t t :=
  ⟨⟨t, rfl, h.inv⟩, h.step⟩

theorem Steady.lawful (K : I.Steady)
    (closed : (I.coupling env).Closed := by exact .of_unbounded rfl) :
    (I.coupling env).Lawful where
  closed := closed
  registry := rfl
  file := rfl
  lines := rfl
  alike := by
    rintro _ v _ ⟨rfl, -⟩
    exact .refl v
  plain h admitted := ⟨rfl, K.plain h admitted⟩
  heap := by
    rintro _ ⟨s, rfl, -⟩
    exact .refl s.heap
  kinds := by
    rintro _ ⟨s, rfl, -⟩
    rfl
  declared := by
    rintro _ name ⟨s, rfl, -⟩
    rfl
  find := by
    rintro _ name ⟨s, rfl, inv⟩
    exact related_self fun v found => ⟨rfl, K.find inv found⟩
  receiver := by
    rintro _ ⟨s, rfl, inv⟩
    exact ⟨rfl, K.receiver inv⟩
  property := by
    rintro _ b _ id name ⟨s, rfl, inv⟩ ⟨rfl, base⟩ held
    exact related_self fun v found => ⟨rfl, K.property inv base held found⟩
  infer := by
    rintro _ name ⟨s, rfl, inv⟩ absent - binds
    exact (K.infer name inv absent binds).coupled
  storeGlobal := by
    rintro _ v _ name ⟨s, rfl, inv⟩ ⟨rfl, value⟩ binds
    exact (K.storeGlobal name inv value binds).coupled
  declare := by
    rintro _ v _ name d ⟨s, rfl, inv⟩ ⟨rfl, value⟩ binds
    exact (K.declare name d inv value binds).coupled
  overwrite := by
    rintro _ v _ name ⟨s, rfl, inv⟩ ⟨rfl, value⟩
    exact related_self fun _ found => ⟨rfl, (K.overwrite inv value found).coupled⟩
  setProperty := by
    rintro _ b _ id v _ name ⟨s, rfl, inv⟩ ⟨rfl, base⟩ held ⟨rfl, value⟩
    exact (K.setProperty name inv base held value).coupled
  newObject := by
    rintro _ ⟨s, rfl, inv⟩
    have made := K.newObject inv
    exact ⟨made.leads.coupled, fun callable => ⟨rfl, made.handle callable⟩⟩
  newArray := by
    rintro _ vs ws ⟨s, rfl, inv⟩ related
    have same : vs = ws := by
      rw [← List.forall₂_eq_eq_eq]
      exact related.imp fun _ _ value => value.1
    subst same
    have made := K.newArray inv fun v mem => (List.forall₂_same.1 related v mem).2
    exact ⟨made.leads.coupled, fun callable => ⟨rfl, made.handle callable⟩⟩
  record := by
    rintro _ severity f ⟨s, rfl, inv⟩ - warranted
    exact (K.record severity f inv warranted).coupled
  carry := by
    rintro _ severity f text ⟨s, rfl, inv⟩ - preference
    exact ⟨rfl, K.carry severity f text inv preference⟩
  carried := by
    rintro _ severity f text ⟨s, rfl, inv⟩
    exact K.carried severity f text inv
  literal := K.literal
  drop := by
    rintro _ v _ ⟨s, rfl, inv⟩ ⟨rfl, value⟩ literal
    exact related_self fun uid carried => (K.drop inv value literal carried).coupled
  enter := by
    rintro _ b ⟨s, rfl, inv⟩
    exact ⟨b.enter s, rfl, K.enter b inv⟩
  leave := by
    rintro _ _ b ⟨s, rfl, inv⟩ ⟨t, rfl, inv'⟩ step
    exact (K.leave b inv inv' step).coupled
  outside := by
    rintro q v _ b ⟨rfl, value⟩
    exact ⟨rfl, K.outside b value⟩

variable {Known : Node → Prop}

theorem Walking.walks (K : I.Walking Known)
    (closed : (I.coupling env).Closed := by exact .of_unbounded rfl) :
    (I.coupling env).Walks Known where
  toLawful := K.lawful closed
  strict := .inl rfl
  count := by
    rintro _ ⟨s, rfl, inv⟩
    exact ⟨rfl, (K.tick _ inv State.count_untimed).coupled⟩
  depth := by
    rintro _ ⟨s, rfl, -⟩
    exact .inl rfl
  kept := by
    rintro _ n ⟨s, rfl, inv⟩ -
    exact related_self fun v found => ⟨rfl, K.kept inv found⟩
  keptLiteral := by
    rintro _ n v w ⟨s, rfl, inv⟩ known literal kept -
    exact K.keptLiteral inv known literal kept
  keep := by
    rintro _ v _ n ⟨s, rfl, inv⟩ known ⟨⟨rfl, value⟩, literal⟩
    exact (K.keep inv known ⟨value, literal⟩).coupled
  faults := K.faults
  late := by
    rintro _ ⟨s, rfl, inv⟩ late
    exact K.late inv late

theorem Lasting.walks (K : I.Lasting Known)
    (closed : (I.coupling env).Closed := by exact .of_unbounded rfl) :
    (I.coupling env).Walks Known :=
  K.walking.walks closed

/-- What a coupling of a run with itself says about the run. -/
theorem of_holds {α : Type} {Q : Pair → α → α → Prop} {x : Engine α} (inv : I.Inv s)
    (h : (I.coupling env).Holds ⟨s, s⟩ Q x x) :
    I.Leads s (runFrom env s x).2 ∧ ∀ e, (runFrom env s x).1 = .error e → I.Faults e := by
  have ends : (I.coupling env).Ends ⟨s, s⟩ Q (runFrom env s x) (runFrom env s x) := h ⟨s, rfl, inv⟩
  generalize runFrom env s x = r at ends
  cases ends with
  | value leads _ =>
      obtain ⟨t, same, inv'⟩ := leads.inv
      cases same
      exact ⟨⟨inv', leads.step⟩, nofun⟩
  | fault e leads may =>
      obtain ⟨t, same, inv'⟩ := leads.inv
      cases same
      refine ⟨⟨inv', leads.step⟩, fun e' same => ?_⟩
      cases same
      exact may
  | excused excused => exact excused.elim

/-- Every visit keeps a lasting invariant, if the nodes inside are known and what is declared
without a check may be bound. -/
theorem Lasting.visit_within (K : I.Lasting Known) (inv : I.Inv s) (fuel : Nat) {n : Node}
    (known : ∀ m : Node, m.Within n → Known m) (closed : (I.coupling env).Closed)
    (may : ∀ q m, (I.coupling env).Permits q m) :
    I.Leads s (runFrom env s (Engine.visitWithin fuel n)).2 :=
  (of_holds inv (visitWithin_holds (K.walks closed) fuel known may)).1

/-- The same where nothing is out of reach. -/
theorem Lasting.visitWithin (K : I.Lasting Known) (env : Env) (inv : I.Inv s) (fuel : Nat)
    {n : Node} (known : ∀ m : Node, m.Within n → Known m)
    (unbounded : I.reach = {} := by rfl) :
    I.Leads s (runFrom env s (Engine.visitWithin fuel n)).2 :=
  K.visit_within inv fuel known (.of_unbounded unbounded) fun _ _ => .of_unbounded unbounded

/-- Every visit keeps a lawful invariant, whether it ends with a value or with a fault. -/
theorem Lawful.visitWithin (K : I.Lawful) (env : Env) (inv : I.Inv s) (fuel : Nat) (n : Node)
    (unbounded : I.reach = {} := by rfl) :
    I.Leads s (runFrom env s (Engine.visitWithin fuel n)).2 :=
  K.lasting.visitWithin env inv fuel (fun _ _ => trivial) unbounded

theorem Walking.checkDeadline_holds (K : I.Walking Known) {p : Pair} :
    (I.coupling env).Holds p Same checkDeadline checkDeadline := by
  rintro ⟨s, rfl, inv⟩
  have untimed : s.clock = none → s.clock.look.2 = none := by
    intro clock
    rw [clock]
    rfl
  have leads : (I.coupling env).Leads ⟨s, s⟩ _ _ := (K.tick s.visited inv untimed).coupled
  change (I.coupling env).Ends _ _ (runFrom env s checkDeadline) (runFrom env s checkDeadline)
  rw [runFrom_checkDeadline]
  split
  next late => exact .fault _ leads (K.late inv late)
  · exact .value leads rfl

/-- A walk over a whole tree keeps the invariant, and ends with no fault that it rules out. -/
theorem Walking.run_within (K : I.Walking fun _ => True) (inv : I.Inv s) (t : Tree)
    (closed : (I.coupling env).Closed) (may : ∀ q m, (I.coupling env).Permits q m) :
    I.Leads s (runFrom env s (Engine.run t)).2 ∧
      ∀ e, (runFrom env s (Engine.run t)).1 = .error e → I.Faults e := by
  have holds : (I.coupling env).Holds ⟨s, s⟩ Same (Engine.run t) (Engine.run t) := by
    refine run_holds (K.walks closed) K.checkDeadline_holds (fun _ => trivial) ?_ may
    rintro _ ⟨s, rfl, -⟩
    rfl
  exact of_holds inv holds

/-- The same where nothing is out of reach. -/
theorem Walking.run (K : I.Walking fun _ => True) (env : Env) (inv : I.Inv s) (t : Tree)
    (unbounded : I.reach = {} := by rfl) :
    I.Leads s (runFrom env s (Engine.run t)).2 ∧
      ∀ e, (runFrom env s (Engine.run t)).1 = .error e → I.Faults e :=
  K.run_within inv t (.of_unbounded unbounded) fun _ _ => .of_unbounded unbounded

/-- A walk over a whole tree keeps a lawful invariant, however it ends. -/
theorem Lawful.run (K : I.Lawful) (env : Env) (inv : I.Inv s) (t : Tree)
    (unbounded : I.reach = {} := by rfl) :
    I.Leads s (runFrom env s (Engine.run t)).2 :=
  (K.lasting.walking.run env inv t unbounded).1

end Invariant

end AddonAudit.Script
