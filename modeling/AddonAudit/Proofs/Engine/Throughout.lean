import AddonAudit.Proofs.Engine.Invariant

/-!
# Every visit of a run

An invariant says how a run ends. To say what holds on the way, a run is compared with one that
checks: it looks at the node and the state where a visit starts, and at the state and the value
where a visit ends, and faults if a property does not hold there. The property holds throughout a
run if no check makes a difference, whatever fault it would raise.
-/

namespace AddonAudit.Script

open Engine Coupling

namespace Engine

open Classical in
/-- Fault unless a property of the state holds. -/
noncomputable def check (alarm : Fault) (P : State → Prop) : Engine Unit := do
  if P (← get) then pure () else throw alarm

/-- A step with a check of the state before it, and of the state and the value after it. -/
noncomputable def checked (alarm : Fault) (P : State → Prop) (Q : State → Value → Prop)
    (x : Engine Value) : Engine Value := do
  check alarm P
  let v ← x
  check alarm (Q · v)
  return v

/-- The value of a node, with checks at both ends of this visit and of all visits inside. -/
noncomputable def visitChecked (alarm : Fault) (P : Node → State → Prop)
    (Q : State → Value → Prop) :
    Nat → Node → Engine Value
  | 0, n => checked alarm (P n) Q (evaluateOnce n (throw .depthExceeded))
  | fuel + 1, n => checked alarm (P n) Q (evaluateOnce n (dispatch (visitChecked alarm P Q fuel) n))

/-- Analyse a whole tree, with checks at both ends of every visit. -/
noncomputable def runChecked (alarm : Fault) (P : Node → State → Prop) (Q : State → Value → Prop)
    (t : Tree) : Engine Unit := do
  checkDeadline
  let _ ← visitChecked alarm P Q maxDepth t.root
  checkGlobals

/-- A property of nodes and states holds where a visit of a run starts, and one of states and values
where a visit ends. -/
def Throughout (env : Env) (s : State) (t : Tree) (P : Node → State → Prop)
    (Q : State → Value → Prop) : Prop :=
  ∀ alarm, runFrom env s (runChecked alarm P Q t) = runFrom env s (run t)

/-- Some visit of a run starts at a node and in a state with a property. -/
def Meets (env : Env) (s : State) (t : Tree) (P : Node → State → Prop) : Prop :=
  ¬ Throughout env s t (fun n s => ¬ P n s) fun _ _ => True

variable {C : Coupling} {p : Pair} {alarm : Fault} {Q : State → Value → Prop}

open Classical in
theorem runFrom_check (env : Env) (s : State) (P : State → Prop) :
    runFrom env s (check alarm P) = (if P s then .ok () else .error alarm, s) := by
  change runFrom env s (if P s then pure () else throw alarm) = _
  split <;> rfl

/-- A run without a deadline meets the state that it starts from. -/
theorem meets_start {env : Env} {s : State} {t : Tree} (untimed : s.clock = none)
    (ok : (runFrom env s (run t)).1 = .ok ()) : Meets env s t fun _ u => u = s := by
  intro never
  have looked : runFrom env s checkDeadline = (.ok (), s) := by
    obtain ⟨bundle, heap, globals, scopes, window, receivers, results, depth, visited, clock⟩ := s
    cases untimed
    rfl
  have stopped : (runFrom env s (runChecked .timeout (fun _ u => ¬ u = s) (fun _ _ => True) t)).1 =
      .error .timeout := by
    have faults : runFrom env s (check .timeout fun u => ¬ u = s) = (.error .timeout, s) := by
      rw [runFrom_check, if_neg (not_not.2 rfl)]
    rw [runChecked, runFrom_bind, looked]
    simp only
    rw [runFrom_bind, maxDepth, visitChecked, checked, runFrom_bind, faults]
  rw [never, ok] at stopped
  cases stopped

section

variable {α : Type} {R : Pair → α → α → Prop} {P : State → Prop} {x y : Engine α}

/-- A check that a coupling passes can be left out. -/
theorem check_holds (pass : C.Inv p → P p.left) (h : C.Holds p R x y) :
    C.Holds p R (do check alarm P; x) y := by
  intro inv
  rw [runFrom_bind, runFrom_check, if_pos (pass inv)]
  exact h inv

/-- A check on both sides is passed on both sides or on none. -/
theorem check_both (fault : C.Faults alarm) {P' : State → Prop}
    (same : C.Inv p → (P p.left ↔ P' p.right)) (h : P p.left → C.Holds p R x y) :
    C.Holds p R (do check alarm P; x) (do check alarm P'; y) := by
  intro inv
  rw [runFrom_bind, runFrom_check, runFrom_bind, runFrom_check]
  by_cases pass : P p.left
  · rw [if_pos pass, if_pos ((same inv).1 pass)]
    exact h pass inv
  · rw [if_neg pass, if_neg fun right => pass ((same inv).2 right)]
    exact .fault alarm ⟨inv, C.refl p⟩ fault

end

section

variable (values : ∀ {q v w}, C.Inv q → C.Val q v w → Q q.left v)

include values

theorem checked_holds {P : State → Prop} {n : Node} {x y : Engine Value}
    (states : C.Inv p → P p.left) (h : C.Holds p (C.At n) x y) :
    C.Holds p (C.At n) (checked alarm P Q x) y := by
  refine check_holds states ?_
  rw [← bind_pure y]
  refine h.bind fun q v w _ value => ?_
  exact check_holds (fun inv => values inv value.1) (.ret fun _ => value)

/-- Visits with checks keep the coupling with visits without. -/
theorem visitChecked_holds {P : Node → State → Prop} {Known : Node → Prop} (W : C.Walks Known)
    (states : ∀ {q} n, C.Inv q → P n q.left) (fuel : Nat) {n : Node}
    (known : ∀ m : Node, m.Within n → Known m) (may : ∀ q m, C.Permits q m) :
    C.Holds p (C.At n) (visitChecked alarm P Q fuel n) (visitWithin fuel n) := by
  induction fuel generalizing p n with
  | zero =>
      refine checked_holds values (states n) ?_
      exact evaluateOnce_holds W (known n (.self n)) fun _ _ => .fail (W.faults _ nofun)
  | succ fuel ih =>
      refine checked_holds values (states n) ?_
      refine evaluateOnce_holds W (known n (.self n)) fun _ _ => ?_
      refine dispatch_at W.toLawful (fun c mem m inside _ => ?_) (may _ n)
      exact ih fun k deep => known k (.child mem (deep.trans inside))

end

end Engine

/-- What an invariant says of its states and of its values holds throughout a run. -/
theorem Invariant.Walking.throughout {I : Invariant} {Known : Node → Prop} (K : I.Walking Known)
    {env : Env} {s : State} {P : Node → State → Prop} {Q : State → Value → Prop} (inv : I.Inv s)
    (t : Tree) (closed : (I.coupling env).Closed) (may : ∀ q m, (I.coupling env).Permits q m)
    (states : ∀ {s} n, I.Inv s → P n s) (values : ∀ {s v}, I.Inv s → I.Val s v → Q s v)
    (known : ∀ m : Node, m.Within t.root → Known m := by exact fun _ _ => trivial) :
    Throughout env s t P Q := by
  intro alarm
  have W : (I.coupling env).Walks Known := K.walks closed
  have holds : (I.coupling env).Holds ⟨s, s⟩ Same (runChecked alarm P Q t) (Engine.run t) := by
    refine K.checkDeadline_holds.bind fun q _ _ _ _ => ?_
    have visits : (I.coupling env).Holds q ((I.coupling env).At t.root)
        (visitChecked alarm P Q maxDepth t.root) (visit t.root) := by
      refine visitChecked_holds ?_ W ?_ maxDepth known may
      · rintro _ v w ⟨s, rfl, inv⟩ value
        exact values inv value.2
      · rintro _ n ⟨s, rfl, inv⟩
        exact states n inv
    refine visits.bind fun _ _ _ _ _ => checkGlobals_holds W.toLawful ?_
    rintro ⟨s, rfl, -⟩
    rfl
  have ends : (I.coupling env).Ends ⟨s, s⟩ Same (runFrom env s (runChecked alarm P Q t))
      (runFrom env s (Engine.run t)) := holds ⟨s, rfl, inv⟩
  generalize runFrom env s (runChecked alarm P Q t) = left, runFrom env s (Engine.run t) = right
    at ends
  cases ends with
  | value leads _ =>
      obtain ⟨_, same, -⟩ := leads.inv
      cases same
      rfl
  | fault e leads _ =>
      obtain ⟨_, same, -⟩ := leads.inv
      cases same
      rfl
  | excused excused => exact excused.elim

/-- A state that a run meets is one of its invariant. -/
theorem Invariant.Walking.of_meets {I : Invariant} {Known : Node → Prop} (K : I.Walking Known)
    {env : Env} {s : State} {P : Node → State → Prop} (inv : I.Inv s) {t : Tree}
    (known : ∀ m : Node, m.Within t.root → Known m) (meets : Meets env s t P)
    (unbounded : I.reach = {} := by rfl) : ∃ n s, I.Inv s ∧ P n s := by
  by_contra never
  refine meets (K.throughout inv t (.of_unbounded unbounded) (fun _ _ => .of_unbounded unbounded)
    (fun n inv here => ?_) (fun _ _ => trivial) known)
  exact never ⟨n, _, inv, here⟩

/-- A run with checks keeps an invariant of its own, under which a node may bind what it declares if
it passes the check. -/
theorem Invariant.visitChecked_self {I : Invariant} {env : Env} {Known : Node → Prop}
    (K : I.Walking Known) (closed : (I.coupling env).Closed) {alarm : Fault}
    (fault : I.Faults alarm) {P : Node → State → Prop} {Q : State → Value → Prop}
    (may : ∀ {s} n, I.Inv s → P n s → (I.coupling env).Permits ⟨s, s⟩ n) (fuel : Nat) {n : Node}
    (known : ∀ m : Node, m.Within n → Known m) {p : Pair} :
    (I.coupling env).Holds p ((I.coupling env).At n) (visitChecked alarm P Q fuel n)
      (visitChecked alarm P Q fuel n) := by
  have W : (I.coupling env).Walks Known := K.walks closed
  have both : ∀ {p : Pair} {n : Node} {x : Engine Value},
      ((I.coupling env).Permits p n → (I.coupling env).Holds p ((I.coupling env).At n) x x) →
      (I.coupling env).Holds p ((I.coupling env).At n) (checked alarm (P n) Q x)
        (checked alarm (P n) Q x) := by
    rintro p n x body ⟨s, rfl, inv⟩
    refine check_both fault (fun _ => .rfl) (fun passed => ?_) ⟨s, rfl, inv⟩
    refine (body (may n inv passed)).bind fun q v w _ value => ?_
    refine check_both fault ?_ fun _ => .ret fun _ => value
    rintro ⟨t, rfl, -⟩
    rw [value.1.1]
  induction fuel generalizing p n with
  | zero =>
      refine both fun _ => ?_
      exact evaluateOnce_holds W (known n (.self n)) fun _ _ => .fail (W.faults _ nofun)
  | succ fuel ih =>
      refine both fun permits => evaluateOnce_holds W (known n (.self n)) fun q step => ?_
      refine dispatch_at W.toLawful (fun c mem m inside _ => ?_) ?_
      · exact ih fun k deep => known k (.child mem (deep.trans inside))
      · exact (permits.mono W.toLawful step).entered W.toLawful .level

/-- A run keeps an invariant if, throughout the run, what a node declares without a check may be
bound. -/
theorem Invariant.Walking.run_watched {I : Invariant} (K : I.Walking fun _ => True) {env : Env}
    {s : State} {P : Node → State → Prop} (inv : I.Inv s) (t : Tree)
    (closed : (I.coupling env).Closed) (watched : Throughout env s t P fun _ _ => True)
    (may : ∀ {s} n, I.Inv s → P n s → (I.coupling env).Permits ⟨s, s⟩ n) :
    I.Leads s (runFrom env s (Engine.run t)).2 := by
  have holds : (I.coupling env).Holds ⟨s, s⟩ Same (runChecked .depthExceeded P (fun _ _ => True) t)
      (runChecked .depthExceeded P (fun _ _ => True) t) := by
    refine K.checkDeadline_holds.bind fun q _ _ _ _ => ?_
    have fault : I.Faults .depthExceeded := K.faults _ nofun
    refine (visitChecked_self K closed fault may maxDepth fun _ _ => trivial).bind
      fun _ _ _ _ _ => ?_
    refine checkGlobals_holds (K.walks closed).toLawful ?_
    rintro ⟨s, rfl, -⟩
    rfl
  rw [← watched .depthExceeded]
  exact (of_holds inv holds).1

end AddonAudit.Script
