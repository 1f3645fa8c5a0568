import AddonAudit.Proofs.Engine.Dispatch

/-!
# Coupled walks

A visit counts its node, checks the depth, runs the rule of the node one level deeper and keeps the
value. A coupling that also survives these steps is kept by whole visits.
-/

namespace AddonAudit.Script

open Engine Coupling

/-- Count a node: whether the deadline has passed, and the state after the look at it. -/
def State.count (s : State) : Bool × State :=
  let (passed, clock) :=
    if (s.visited + 1) % deadlineInterval = 0 then s.clock.look else (false, s.clock)
  (passed, { s with visited := s.visited + 1, clock })

/-- A look at the deadline changes nothing but the clock. -/
theorem Engine.runFrom_checkDeadline (env : Env) (s : State) :
    runFrom env s checkDeadline =
      (if s.clock.look.1 then .error .timeout else .ok (), { s with clock := s.clock.look.2 }) := by
  change runFrom env { s with clock := s.clock.look.2 }
    (if s.clock.look.1 then throw .timeout else pure ()) = _
  cases s.clock.look.1 <;> rfl

theorem Engine.runFrom_countNode (env : Env) (s : State) :
    runFrom env s countNode = (if s.count.1 then .error .timeout else .ok (), s.count.2) := by
  unfold State.count
  by_cases due : (s.visited + 1) % deadlineInterval = 0
  · have looked : runFrom env s countNode =
        runFrom env { s with visited := s.visited + 1 } checkDeadline := by
      change runFrom env _ (if _ then checkDeadline else pure ()) = _
      rw [if_pos due]
    rw [looked, if_pos due, runFrom_checkDeadline]
  · have skipped : runFrom env s countNode = (.ok (), { s with visited := s.visited + 1 }) := by
      change runFrom env _ (if _ then checkDeadline else pure ()) = _
      rw [if_neg due]
      rfl
    rw [skipped, if_neg due]
    rfl

/-- Without a deadline, counting a node does nothing else. -/
theorem State.count_of_untimed {s : State} (clock : s.clock = none) :
    s.count = (false, { s with visited := s.visited + 1 }) := by
  have looked :
      (if (s.visited + 1) % deadlineInterval = 0 then s.clock.look else (false, s.clock)) =
      (false, s.clock) := by
    rw [clock]
    exact ite_self _
  unfold State.count
  rw [looked]

/-- A node that is counted late is counted after the deadline. -/
theorem State.look_of_count {s : State} (late : s.count.1 = true) : s.clock.look.1 = true := by
  unfold State.count at late
  split at late
  next due _ _ looked =>
    split at looked
    · rw [looked]
      exact late
    · cases looked
      exact nomatch late

/-- Counting a node gives no deadline to a run that has none. -/
theorem State.count_untimed {s : State} (clock : s.clock = none) : s.count.2.clock = none := by
  rw [State.count_of_untimed clock]
  exact clock

namespace Engine

variable {env : Env} {s : State} {n : Node} {x : Engine Value}

theorem runFrom_checkDepth :
    runFrom env s checkDepth =
      (if maxDepth ≤ s.depth then .error .depthExceeded else .ok (), s) := by
  change runFrom env s (if maxDepth ≤ s.depth then throw .depthExceeded else pure ()) = _
  split <;> rfl

theorem runFrom_inLevel :
    runFrom env s (inLevel x) =
      ((runFrom env s.enterLevel x).1, (runFrom env s.enterLevel x).2.leaveLevel) :=
  runFrom_andAlways x State.leaveLevel

/-- A node is evaluated by running its action one level deeper, unless the time is over or that is
too deep. -/
theorem runFrom_evaluate :
    runFrom env s (evaluate n x) =
      if s.count.1 then (.error .timeout, s.count.2)
      else if maxDepth ≤ s.depth then (.error .depthExceeded, s.count.2)
      else match runFrom env s.count.2.enterLevel x with
        | (.ok v, t) => (.ok v, t.leaveLevel.keep n.id v)
        | (.error e, t) => (.error e, t.leaveLevel) := by
  rw [evaluate, runFrom_bind, runFrom_countNode]
  by_cases late : s.count.1
  · rw [if_pos late, if_pos late]
  rw [if_neg late, if_neg late]
  change runFrom env s.count.2 (checkDepth >>= fun _ => _) = _
  have sameDepth : s.count.2.depth = s.depth := rfl
  rw [runFrom_bind, runFrom_checkDepth, sameDepth]
  by_cases deep : maxDepth ≤ s.depth
  · rw [if_pos deep, if_pos deep]
  rw [if_neg deep, if_neg deep]
  change runFrom env s.count.2 (inLevel x >>= fun _ => _) = _
  rw [runFrom_bind, runFrom_inLevel]
  rcases runFrom env s.count.2.enterLevel x with ⟨_ | v, t⟩
  · rfl
  · rfl

/-- Without a deadline, only the depth can keep a node from being evaluated. -/
theorem runFrom_evaluate_of_untimed (untimed : s.clock = none) :
    runFrom env s (evaluate n x) =
      if maxDepth ≤ s.depth then (.error .depthExceeded, { s with visited := s.visited + 1 })
      else match runFrom env { s with visited := s.visited + 1, depth := s.depth + 1 } x with
        | (.ok v, t) => (.ok v, t.leaveLevel.keep n.id v)
        | (.error e, t) => (.error e, t.leaveLevel) := by
  rw [runFrom_evaluate, State.count_of_untimed untimed]
  rfl

theorem visitWithin_zero (n : Node) :
    visitWithin 0 n = evaluateOnce n (throw .depthExceeded) := rfl

theorem visitWithin_succ (fuel : Nat) (n : Node) :
    visitWithin (fuel + 1) n = evaluateOnce n (dispatch (visitWithin fuel) n) := rfl

/-- A node whose value is kept is not evaluated again, and comments are not evaluated at all. -/
theorem runFrom_evaluateOnce :
    runFrom env s (evaluateOnce n x) =
      match s.kept? n.id with
      | some v =>
        (if env.options.strict then .error (.retraversal n.kind (n.start.row + 1)) else .ok v, s)
      | none => if n.isComment then (.ok .undefined, s) else runFrom env s (evaluate n x) := by
  change runFrom env s (match s.kept? n.id with
    | some v => do
      if (← read).options.strict then throw (.retraversal n.kind (n.start.row + 1)) else return v
    | none => if n.isComment then return .undefined else evaluate n x) = _
  cases s.kept? n.id with
  | some v =>
      change runFrom env s (if env.options.strict then throw _ else pure v) = _
      split
      · rfl
      · rfl
  | none =>
      simp only
      split
      · rfl
      · rfl

end Engine

/-- A lawful coupling that visits keep. The kept values stand for each other at known nodes. -/
structure Coupling.Walks (C : Coupling) (Known : Node → Prop) : Prop extends C.Lawful where
  /-- Both runs are strict or none, or a strict run may stop where a lenient one goes on. -/
  strict : C.left.options.strict = C.right.options.strict ∨
    C.right.options.strict = false ∧ ∀ kind line, C.Excused (.retraversal kind line)
  count : ∀ {p}, C.Inv p →
    p.left.count.1 = p.right.count.1 ∧ C.Leads p p.left.count.2 p.right.count.2
  depth : ∀ {p}, C.Inv p → p.left.depth = p.right.depth ∨
    p.right.depth ≤ p.left.depth ∧ C.Excused .depthExceeded
  kept : ∀ {p n}, C.Inv p → Known n →
    Option.Rel (C.Val p) (p.left.kept? n.id) (p.right.kept? n.id)
  keptLiteral : ∀ {p n v w}, C.Inv p → Known n → n.kind = .string → p.left.kept? n.id = some v →
    p.right.kept? n.id = some w → C.Literal v w := by exact fun _ _ _ _ _ => trivial
  keep : ∀ {p v w n}, C.Inv p → Known n → C.At n p v w →
    C.Leads p (p.left.keep n.id v) (p.right.keep n.id w)
  faults : ∀ e, e ≠ .timeout → C.Faults e
  late : ∀ {p}, C.Inv p → p.left.clock.look.1 = true → C.Faults .timeout

namespace Engine

variable {C : Coupling} {Known : Node → Prop} {p : Pair} {n : Node} (W : C.Walks Known)

include W

theorem countNode_holds : C.Holds p Same countNode countNode := by
  intro inv
  obtain ⟨same, leads⟩ := W.count inv
  rw [runFrom_countNode, runFrom_countNode, ← same]
  split
  next late => exact .fault _ leads (W.late inv (State.look_of_count late))
  · exact .value leads rfl

theorem checkDepth_holds : C.Holds p Same checkDepth checkDepth := by
  refine .onState fun inv => ?_
  rcases W.depth inv with same | ⟨le, excused⟩
  · rw [same]
    split
    · exact .fail (W.faults _ nofun)
    · exact .ret fun _ => rfl
  · by_cases deep : maxDepth ≤ p.left.depth
    · rw [if_pos deep]
      exact fun _ => .excused excused
    · rw [if_neg deep, if_neg fun h => deep (Nat.le_trans h le)]
      exact .ret fun _ => rfl

/-- Evaluating a node keeps the coupling if its action does, one level deeper. -/
theorem evaluate_holds {x y : Engine Value} (known : Known n)
    (body : ∀ q, C.Step p q → C.Holds (q.map Bracket.level.enter) (C.At n) x y) :
    C.Holds p (C.At n) (evaluate n x) (evaluate n y) := by
  refine (countNode_holds W).bind fun q _ _ first _ => ?_
  refine (checkDepth_holds W).bind fun r _ _ second _ => ?_
  have deeper := body r (C.trans first second)
  refine (withinAt_holds W.toLawful .level deeper).bind fun t _ _ _ value => ?_
  refine (Holds.update fun inv => W.keep inv known value).bind fun u _ _ step _ => ?_
  exact .ret fun _ => value.mono step

theorem evaluateOnce_holds {x y : Engine Value} (known : Known n)
    (body : ∀ q, C.Step p q → C.Holds (q.map Bracket.level.enter) (C.At n) x y) :
    C.Holds p (C.At n) (evaluateOnce n x) (evaluateOnce n y) := by
  refine .onState fun inv => ?_
  have kept := W.kept inv known
  generalize left : p.left.kept? n.id = a, right : p.right.kept? n.id = b at kept
  cases kept with
  | @some v w value =>
      have both : C.At n p v w :=
        ⟨value, fun literal => W.keptLiteral inv known literal left right⟩
      refine .onEnv ?_
      rcases W.strict with same | ⟨lenient, excused⟩
      · rw [same]
        split
        · exact .fail (W.faults _ nofun)
        · exact .ret fun _ => both
      · rw [lenient]
        split
        · exact fun _ => .excused (excused _ _)
        · exact .ret fun _ => both
  | none =>
      simp only
      split
      next comment =>
        refine .ret fun _ => ⟨W.bare .undefined, fun literal => ?_⟩
        rw [Node.isComment, literal] at comment
        exact nomatch comment
      · exact evaluate_holds W known body

/-- Visits keep the coupling. -/
theorem visitWithin_at (fuel : Nat) (known : ∀ m : Node, m.Within n → Known m)
    (may : ∀ q m, C.Permits q m := by exact fun _ _ => .of_unbounded rfl) :
    C.Holds p (C.At n) (visitWithin fuel n) (visitWithin fuel n) := by
  induction fuel generalizing p n with
  | zero => exact evaluateOnce_holds W (known n (.self n)) fun _ _ => .fail (W.faults _ nofun)
  | succ fuel ih =>
      refine evaluateOnce_holds W (known n (.self n)) fun _ _ => ?_
      refine dispatch_at W.toLawful (fun c mem m inside _ => ?_) (may _ n)
      exact ih fun k deep => known k (.child mem (deep.trans inside))

theorem visitWithin_holds (fuel : Nat) (known : ∀ m : Node, m.Within n → Known m)
    (may : ∀ q m, C.Permits q m := by exact fun _ _ => .of_unbounded rfl) :
    C.Holds p C.Val (visitWithin fuel n) (visitWithin fuel n) :=
  (visitWithin_at W fuel known may).imp fun _ _ _ _ _ => And.left

omit W in
/-- The finding about global names is about the file of the run. -/
theorem pollution?_file {env : Env} {s : State} {f : Finding} (found : pollution? env s = some f) :
    f.file = some env.file ∧ f.id ∈ ownFindings := by
  unfold pollution? at found
  simp only at found
  split at found
  · cases found
    have own : ["javascript", "traverser", "namespace_pollution"] ∈ ownFindings := by decide
    exact ⟨rfl, own⟩
  · exact nomatch found

omit W in
/-- The global names are checked together if they are found to be too many on both sides or on
none. -/
theorem checkGlobals_holds (L : C.Lawful)
    (same : C.Inv p → pollution? C.left p.left = pollution? C.right p.right) :
    C.Holds p Same checkGlobals checkGlobals := by
  refine .onEnv (.onState fun inv => ?_)
  rw [← same inv]
  have found : Option.Rel (fun f g => f = g ∧ f.file = some C.left.file ∧ f.id ∈ ownFindings)
      (pollution? C.left p.left) (pollution? C.left p.left) :=
    related_self fun f found => ⟨rfl, pollution?_file found⟩
  refine .forM found ?_
  rintro f _ ⟨rfl, here, own⟩
  exact (record_holds L here (.inl own)).bind fun _ _ _ _ _ => .ret fun _ => rfl

/-- The walk over a whole tree keeps the coupling. -/
theorem run_holds {t : Tree} (deadline : C.Holds p Same checkDeadline checkDeadline)
    (known : ∀ n, Known n)
    (same : ∀ {q}, C.Inv q → pollution? C.left q.left = pollution? C.right q.right)
    (may : ∀ q m, C.Permits q m := by exact fun _ _ => .of_unbounded rfl) :
    C.Holds p Same (run t) (run t) := by
  refine deadline.bind fun _ _ _ _ _ => ?_
  refine (visitWithin_holds W maxDepth (fun m _ => known m) may).bind fun _ _ _ _ _ => ?_
  exact checkGlobals_holds W.toLawful same

end Engine

end AddonAudit.Script
