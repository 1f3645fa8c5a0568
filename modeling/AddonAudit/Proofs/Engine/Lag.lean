import AddonAudit.Proofs.Engine.Core

/-!
# Runs at different depths

Without a deadline the number of visited nodes has no effect, and depth matters only at its limit.
So two runs of the same visits stay together although one is some levels deeper than the other, has
counted other nodes and has kept other values under numbers that are not read. Only the deeper run
may fault at the limit.
-/

namespace AddonAudit.Script

open Engine Coupling

/-- The left state is some levels deeper than the right one. The kept values agree except under some
numbers, there is no deadline, and all else is the same. -/
inductive Deeper (Apart : Nat → Prop) (k : Nat) : Pair → Prop where
  | mk (s : State) (results : Array (Option Value)) (visited : Nat) (clock : s.clock = none)
      (size : results.size = s.results.size)
      (same : ∀ id, ¬ Apart id → results[id]? = s.results[id]?) :
      Deeper Apart k ⟨{ s with results, visited, depth := s.depth + k }, s⟩

/-- Both states keep their depth. -/
structure SameDepths (p q : Pair) : Prop where
  left : q.left.depth = p.left.depth
  right : q.right.depth = p.right.depth

/-- Runs of which the left one is some levels deeper. -/
def lag (env : Env) (Apart : Nat → Prop) (k : Nat) : Coupling where
  left := env
  right := env
  Inv := Deeper Apart k
  Step := SameDepths
  Val _ v w := v = w
  Excused e := e = .depthExceeded
  refl _ := ⟨rfl, rfl⟩
  trans h h' := ⟨h'.left.trans h.left, h'.right.trans h.right⟩
  mono value _ := value

variable {env : Env} {Apart Apart' : Nat → Prop} {k : Nat}

theorem Deeper.weaken {p : Pair} (h : Deeper Apart k p) (more : ∀ id, Apart id → Apart' id) :
    Deeper Apart' k p := by
  obtain ⟨s, results, visited, clock, size, same⟩ := h
  exact .mk s results visited clock size fun id apart => same id fun h => apart (more id h)

/-- At the same depth only the kept values and the count of nodes differ. -/
theorem Deeper.differs {p : Pair} (h : Deeper Apart 0 p) :
    ∃ results visited, p.right = { p.left with results, visited } := by
  obtain ⟨s, _, _, _, _, _⟩ := h
  exact ⟨s.results, s.visited, rfl⟩

/-- Entering keeps the distance of the two runs. -/
theorem deeper_enter {p : Pair} (b : Bracket) (h : Deeper Apart k p) :
    Deeper Apart k (p.map b.enter) := by
  obtain ⟨s, results, visited, clock, size, same⟩ := h
  cases b with
  | scope kind => exact .mk (s.enterScope kind) results visited clock size same
  | receiver => exact .mk s.enterReceiver results visited clock size same
  | level =>
      have deeper := Deeper.mk (k := k) s.enterLevel results visited clock size same
      rw [show s.enterLevel.depth + k = s.depth + k + 1 from Nat.add_right_comm ..] at deeper
      exact deeper

/-- Leaving what was entered keeps the distance of the two runs. -/
theorem lag_leave {p q : Pair} (b : Bracket) (h : Deeper Apart k p) (h' : Deeper Apart k q)
    (step : SameDepths (p.map b.enter) q) :
    (lag env Apart k).Leads p (b.leave q.left) (b.leave q.right) := by
  obtain ⟨s, _, _, _, _, _⟩ := h
  obtain ⟨t, results, visited, clock, size, same⟩ := h'
  cases b with
  | scope kind => exact ⟨.mk t.leaveScope results visited clock size same, step.left, step.right⟩
  | receiver =>
      exact ⟨.mk t.leaveReceiver results visited clock size same, step.left, step.right⟩
  | level =>
      -- The run inside has kept its depth, which is one level above zero on both sides.
      have left : t.depth + k = s.depth + k + 1 := step.left
      have right : t.depth = s.depth + 1 := step.right
      have lower : t.depth - 1 + k = t.depth + k - 1 := by omega
      have deeper := Deeper.mk (k := k) t.leaveLevel results visited clock size same
      rw [show t.leaveLevel.depth + k = t.depth + k - 1 from lower] at deeper
      refine ⟨deeper, ?_, ?_⟩
      · change t.depth + k - 1 = s.depth + k
        omega
      · change t.depth - 1 = s.depth
        omega

/-- No operation reads the depth, the count of nodes or a kept value. -/
theorem lag_lawful : (lag env Apart k).Lawful :=
  UpToBook.lawful {
    env := rfl
    val := .rfl
    book := by
      rintro _ ⟨s, _, _, _, _, _⟩
      rfl
    change := by
      rintro _ t ⟨s, results, visited, clock, size, same⟩
      exact ⟨.mk (t.withBook s) results visited clock size same, rfl, rfl⟩
    enter := deeper_enter
    leave := lag_leave }

/-- Visits read the kept values of known nodes only, and the deeper run meets the limit first. -/
theorem lag_walks : (lag env Apart k).Walks fun n => ¬ Apart n.id where
  toLawful := lag_lawful
  strict := .inl rfl
  count := by
    rintro _ ⟨s, results, visited, clock, size, same⟩
    have deeper :=
      State.count_of_untimed (s := { s with results, visited, depth := s.depth + k }) clock
    rw [State.count_of_untimed clock, deeper]
    exact ⟨rfl, .mk { s with visited := s.visited + 1 } results (visited + 1) clock size same,
      rfl, rfl⟩
  depth := by
    rintro _ ⟨s, _, _, _, _, _⟩
    exact .inr ⟨Nat.le_add_right .., rfl⟩
  kept := by
    rintro _ n ⟨s, results, visited, clock, size, same⟩ apart
    have kept : results[n.id]?.join = s.kept? n.id := congrArg Option.join (same n.id apart)
    exact kept ▸ related_self fun _ _ => rfl
  keep := by
    rintro _ v _ n ⟨s, results, visited, clock, size, same⟩ - ⟨rfl, -⟩
    have sizes : (results.setIfInBounds n.id (some v)).size = (s.keep n.id v).results.size := by
      rw [State.keep, Array.size_setIfInBounds, Array.size_setIfInBounds, size]
    refine ⟨.mk (s.keep n.id v) _ visited clock sizes fun other apart => ?_, rfl, rfl⟩
    rw [State.keep, Array.getElem?_setIfInBounds, Array.getElem?_setIfInBounds, size,
      same other apart]
  faults _ _ := trivial
  late _ _ := trivial

variable {fuel : Nat} {p : Pair} {n : Node} {x y : Engine Value}

/-- From states that keep the same values, two steps end together, the left one some levels deeper,
in states that keep the same values except under some numbers. -/
def Lags (env : Env) (Apart : Nat → Prop) (k : Nat) (p : Pair) (x y : Engine Value) : Prop :=
  Deeper (fun _ => False) k p →
    (lag env Apart k).Ends p (lag env Apart k).Val (runFrom env p.left x) (runFrom env p.right y)

theorem Lags.weaken (h : Lags env Apart k p x y) (more : ∀ id, Apart id → Apart' id) :
    Lags env Apart' k p x y := by
  intro start
  have ends := h start
  generalize runFrom env p.left x = end₁, runFrom env p.right y = end₂ at ends
  cases ends with
  | value leads same => exact .value ⟨leads.inv.weaken more, leads.step⟩ same
  | fault e leads _ => exact .fault e ⟨leads.inv.weaken more, leads.step⟩ trivial
  | excused excused => exact .excused excused

theorem Lags.bind {f g : Value → Engine Value} (first : Lags env Apart k p x y)
    (second : ∀ q a, (lag env Apart k).Holds q (lag env Apart k).Val (f a) (g a)) :
    Lags env Apart k p (x >>= f) (y >>= g) := by
  intro start
  have both : (lag env Apart k).Holds p (lag env Apart k).Val (x >>= f) (y >>= g) := by
    refine Holds.bind (fun _ => first start) ?_
    rintro q a _ - rfl
    exact second q a
  exact both (start.weaken nofun)

/-- Steps that keep the same values may come first. -/
theorem Lags.after {α : Type} {first first' : Engine α} {f g : α → Engine Value}
    (start : (lag env (fun _ => False) k).Holds p Same first first')
    (second : ∀ q a, Lags env Apart k q (f a) (g a)) :
    Lags env Apart k p (first >>= f) (first' >>= g) := by
  intro same
  rw [runFrom_bind, runFrom_bind]
  have ends : (lag env (fun _ => False) k).Ends p Same (runFrom env p.left first)
      (runFrom env p.right first') := start same
  generalize runFrom env p.left first = end₁, runFrom env p.right first' = end₂ at ends
  cases ends with
  | @value s t a b leads equal =>
      obtain rfl : a = b := equal
      have later : (lag env Apart k).Leads p s t := ⟨leads.inv.weaken nofun, leads.step⟩
      exact (second ⟨s, t⟩ a leads.inv).after later
  | fault e leads _ => exact .fault e ⟨leads.inv.weaken nofun, leads.step⟩ trivial
  | excused excused => exact .excused excused

theorem visitWithin_lags :
    Lags env (fun _ => False) k p (visitWithin fuel n) (visitWithin fuel n) :=
  visitWithin_holds lag_walks fuel fun _ _ => not_false

/-- The deeper run leaves its level. -/
theorem lag_leaveLevel {s t u : State} {results : Array (Option Value)} {visited count : Nat}
    (h : (lag env Apart (k + 1)).Leads
      ⟨{ s with results, visited := count, depth := s.depth + k + 1 }, s⟩ t u) :
    (lag env Apart k).Leads ⟨{ s with results, visited, depth := s.depth + k }, s⟩
      t.leaveLevel u := by
  obtain ⟨inv, step⟩ := h
  cases inv with
  | mk _ results' visited' clock size same =>
      exact ⟨.mk u results' visited' clock size same, congrArg (· + k) step.right, step.right⟩

/-- The deeper run keeps a value under a number that is not read. -/
theorem lag_keepApart {id : Nat} {v : Value} {t u : State} (apart : Apart id)
    (h : (lag env Apart k).Leads p t u) : (lag env Apart k).Leads p (t.keep id v) u := by
  obtain ⟨inv, step⟩ := h
  cases inv with
  | mk _ results visited clock size same =>
      have sizes : (results.setIfInBounds id (some v)).size = u.results.size :=
        Array.size_setIfInBounds.trans size
      refine ⟨.mk u _ visited clock sizes fun other away => ?_, step.left, step.right⟩
      have ne : id ≠ other := fun h => away (h ▸ apart)
      rw [Array.getElem?_setIfInBounds_ne ne, same other away]

/-- A step that is the action of a node on the left only. -/
theorem Lags.evaluate (apart : Apart n.id) (body : ∀ q, Lags env Apart (k + 1) q x y) :
    Lags env Apart k p (evaluate n x) y := by
  rintro ⟨s, results, visited, clock, size, same⟩
  change (lag env Apart k).Ends _ _
    (runFrom env { s with results, visited, depth := s.depth + k } (Engine.evaluate n x))
    (runFrom env s y)
  rw [runFrom_evaluate_of_untimed (s := { s with results, visited, depth := s.depth + k }) clock]
  split
  · exact .excused rfl
  · have ends := body _ (.mk s results (visited + 1) clock size same)
    change (lag env Apart (k + 1)).Ends _ _
      (runFrom env { s with results, visited := visited + 1, depth := s.depth + k + 1 } x)
      (runFrom env s y) at ends
    generalize runFrom env { s with results, visited := visited + 1, depth := s.depth + k + 1 } x =
      end₁, runFrom env s y = end₂ at ends ⊢
    cases ends with
    | value leads value =>
        exact .value (lag_keepApart apart (lag_leaveLevel leads)) value
    | fault e leads _ => exact .fault e (lag_leaveLevel leads) trivial
    | excused excused => exact .excused excused

/-- At the same depth and without a deadline, the left run and the right one give the same value or
fault, unless the left one is too deep. The states differ only in the kept values and the count. -/
theorem Lags.agree {s : State} (h : Lags env Apart 0 ⟨s, s⟩ x y) (untimed : s.clock = none)
    (shallow : (runFrom env s x).1 ≠ .error .depthExceeded) :
    (runFrom env s y).1 = (runFrom env s x).1 ∧
      ∃ results visited, (runFrom env s y).2 = { (runFrom env s x).2 with results, visited } := by
  have ends : (lag env Apart 0).Ends ⟨s, s⟩ _ (runFrom env s x) (runFrom env s y) :=
    h (.mk s s.results s.visited untimed rfl fun _ _ => rfl)
  generalize runFrom env s x = end₁, runFrom env s y = end₂ at ends shallow ⊢
  cases ends with
  | value leads same => exact ⟨congrArg Except.ok same.symm, leads.inv.differs⟩
  | fault e leads => exact ⟨rfl, leads.inv.differs⟩
  | excused excused => exact absurd (congrArg Except.error excused) shallow

end AddonAudit.Script
