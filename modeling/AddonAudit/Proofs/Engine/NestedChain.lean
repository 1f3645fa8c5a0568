import AddonAudit.Proofs.Engine.Balance
import AddonAudit.Proofs.Engine.Lag
import AddonAudit.Proofs.Node
import AddonAudit.Script.Catalogue

/-!
# Chains evaluated link by link

The plain way to evaluate an operator is to evaluate its left side as a node, which is one level
deeper, then its right side, and to apply the operator. The loop over a chain gives the same value
and the same fault and has the same effects. Its links are not counted and their values are not
kept, and all its operands are visited at the depth of the loop itself.
-/

namespace AddonAudit.Script

open Engine Coupling

variable {env : Env} {k d fuel : Nat} {p : Pair} {n : Node} {x y : Engine Value} {alarm : Fault}

/-- The numbers of the nodes inside of the left side among some nodes. -/
def InLeft (nodes : List Node) (id : Nat) : Prop :=
  ∃ c, nodes.find? (fun c => c.role = some .left) = some c ∧ id ∈ c.ids

/-- The visits of a right side read nothing that is kept inside of the left side. -/
theorem visits_right (distinct : n.Distinct) (c : Node) (found : n.child? .right = some c) :
    (lag env (InLeft n.children) k).Visits (visitWithin fuel) (visitWithin fuel) c := by
  intro m inside q
  refine visitWithin_at lag_walks fuel fun l deep => ?_
  rintro ⟨left, foundLeft, mem⟩
  have isLeft : left.role = some .left := by simpa using List.find?_some foundLeft
  have isRight : c.role = some .right := by simpa using List.find?_some found
  have ne : left ≠ c := by
    rintro rfl
    exact absurd (isLeft.symm.trans isRight) nofun
  have leftMem := List.mem_of_find?_eq_some foundLeft
  exact distinct.disjoint leftMem (Node.mem_of_child? found) ne mem (deep.trans inside).mem_ids

mutual

/-- Evaluating the links as nodes changes only what is kept inside of the left side. -/
theorem chainValue_lags : ∀ {n : Node} {k : Nat} {p : Pair}, n.Distinct →
    Lags env (InLeft n.children) k p (chainValue evaluate (visitWithin fuel) n)
      (bareChainValue (visitWithin fuel) n)
  | ⟨kind, role, id, start, text, missing, children⟩, k, p, distinct => by
      rw [bareChainValue, chainValue, chainValue]
      refine (chainLeft_lags fun c mem => distinct.child mem).bind fun q left => ?_
      exact applyLink_holds lag_lawful (visits_right distinct) rfl

theorem chainLeft_lags : ∀ {nodes : List Node} {k : Nat} {p : Pair}, (∀ c ∈ nodes, c.Distinct) →
    Lags env (InLeft nodes) k p (chainLeft evaluate (visitWithin fuel) nodes)
      (chainLeft (fun _ x => x) (visitWithin fuel) nodes)
  | [], k, p, _ => fun start => .value ⟨start.weaken nofun, rfl, rfl⟩ rfl
  | n :: rest, k, p, distinct => by
      rw [chainLeft, chainLeft]
      by_cases side : n.role = some .left
      · have found : ∀ id ∈ n.ids, InLeft (n :: rest) id := fun id mem =>
          ⟨n, List.find?_cons_of_pos (decide_eq_true side), mem⟩
        rw [if_pos side, if_pos side]
        split
        -- The left side is a node on one side of the comparison only, so its own number is apart.
        · refine .evaluate (found n.id (Node.Within.self n).mem_ids) fun q => ?_
          refine (chainValue_lags (distinct n List.mem_cons_self)).weaken ?_
          rintro id ⟨c, foundBelow, mem⟩
          have child := List.mem_of_find?_eq_some foundBelow
          exact found id (Node.ids_subset_of_child child mem)
        · exact visitWithin_lags.weaken nofun
      · rw [if_neg side, if_neg side]
        refine (chainLeft_lags fun c mem => distinct c (List.mem_cons_of_mem n mem)).weaken ?_
        rintro id ⟨c, found, mem⟩
        have skipped :=
          List.find?_cons_of_neg (p := fun c : Node => c.role = some .left) (l := rest)
          (by simpa using side)
        exact ⟨c, skipped.trans found, mem⟩

end

/-- A visit that gives an alarm if it is not made at some depth. -/
def atDepth (d : Nat) (alarm : Fault) (visit : Visit) : Visit := fun n => do
  if (← get).depth = d then visit n else throw alarm

/-- From states of some depth two steps are the same, and they end at that depth. -/
def SameAt (env : Env) (d : Nat) (x y : Engine Value) : Prop :=
  ∀ s : State, s.depth = d → runFrom env s x = runFrom env s y ∧ (runFrom env s y).2.depth = d

/-- The rule of sequence: the second step starts at the same depth. -/
theorem SameAt.bind {f g : Value → Engine Value} (first : SameAt env d x y)
    (second : ∀ a, SameAt env d (f a) (g a)) : SameAt env d (x >>= f) (y >>= g) := by
  intro s level
  obtain ⟨same, after⟩ := first s level
  rw [runFrom_bind, runFrom_bind, same]
  generalize runFrom env s y = ended at after ⊢
  rcases ended with ⟨e | a, t⟩
  · exact ⟨rfl, after⟩
  · exact second a t after

theorem visitWithin_sameAt :
    SameAt env d (atDepth d alarm (visitWithin fuel) n) (visitWithin fuel n) := by
  intro s level
  have kept := (frame_lawful.visitWithin (s := s) env trivial fuel n).step.depth
  refine ⟨?_, kept.trans level⟩
  change runFrom env s (if s.depth = d then visitWithin fuel n else throw alarm) = _
  rw [if_pos level]

theorem applyLink_sameAt (left : Value) :
    SameAt env d (applyLink (atDepth d alarm (visitWithin fuel)) left n)
      (applyLink (visitWithin fuel) left n) := by
  refine SameAt.bind ?_ fun right s level => ⟨rfl, level⟩
  unfold valueAs
  split
  · exact visitWithin_sameAt
  · exact fun s level => ⟨rfl, level⟩

theorem foldSpine_sameAt (left : Value) (links : List Node) :
    SameAt env d (foldSpine (atDepth d alarm (visitWithin fuel)) left links)
      (foldSpine (visitWithin fuel) left links) := by
  induction links generalizing left with
  | nil => exact fun s level => ⟨rfl, level⟩
  | cons n rest ih => exact (applyLink_sameAt left).bind ih

theorem binaryValue_sameAt :
    SameAt env d (binaryValue (atDepth d alarm (visitWithin fuel)) n)
      (binaryValue (visitWithin fuel) n) := by
  refine SameAt.bind ?_ fun left => foldSpine_sameAt left (spine [] n).1
  cases (spine [] n).2 with
  | none => exact fun s level => ⟨rfl, level⟩
  | some operand => exact visitWithin_sameAt

/-- Folding a chain in a loop is the recursion down its left sides, and it visits all operands at
its own depth, however long the chain. A recursion that evaluates each link as a node of its own is
deeper, but unless it is too deep or has a deadline it gives the same value or fault as the loop, in
a state that differs only in the kept values and the count of nodes. -/
theorem Engine.binaryValue_eq_nested (root n : Node) (inside : n.Within (Tree.ofRoot root).root)
    (env : Env) (s : State) (fuel : Nat) :
    let loop := runFrom env s (binaryValue (visitWithin fuel) n)
    let nested := runFrom env s (chainValue evaluate (visitWithin fuel) n)
    binaryValue (visitWithin fuel) n = bareChainValue (visitWithin fuel) n ∧
      (∀ alarm, runFrom env s (binaryValue (atDepth s.depth alarm (visitWithin fuel)) n) = loop) ∧
      (s.clock = none → nested.1 ≠ .error .depthExceeded →
        loop.1 = nested.1 ∧ ∃ results visited, loop.2 = { nested.2 with results, visited }) := by
  intro loop nested
  refine ⟨binaryValue_eq_bareChainValue n, fun alarm => (binaryValue_sameAt s rfl).1, ?_⟩
  intro untimed shallow
  have distinct : n.Distinct := (Node.distinct_ofRoot root).inside inside
  have ends : (lag env (InLeft n.children) 0).Ends ⟨s, s⟩ _ nested
      (runFrom env s (bareChainValue (visitWithin fuel) n)) :=
    chainValue_lags distinct (.mk s s.results s.visited untimed rfl fun _ _ => rfl)
  rw [← binaryValue_eq_bareChainValue] at ends
  change (lag env (InLeft n.children) 0).Ends ⟨s, s⟩ _ nested loop at ends
  -- At the same depth the two ends differ as `Deeper` allows, or the recursion was too deep.
  generalize nested = end₁, loop = end₂ at ends shallow ⊢
  cases ends with
  | value leads same => exact ⟨congrArg Except.ok same.symm, leads.inv.differs⟩
  | fault e leads => exact ⟨rfl, leads.inv.differs⟩
  | excused excused => exact absurd (congrArg Except.error excused) shallow

/-- The chain `[] - null - []`. -/
def subtractions : Node :=
  let minus : Node := { kind := .token, role := some .operator, text := "-" }
  let first : Node := {
    kind := .binaryExpression, role := some .left
    children := [{ kind := .array, role := some .left }, minus,
      { kind := .nullLiteral, role := some .right }] }
  { kind := .binaryExpression, children := [first, minus, { kind := .array, role := some .right }] }

theorem Engine.binaryValue_eq_nested_subtractions :
    let tree := Tree.ofRoot subtractions
    let env : Env := { registry := Catalogue.standard, file := "chain.js", lines := .ofChars [] }
    let s := initial env.registry tree none {}
    let loop := runFrom env s (binaryValue (visitWithin maxDepth) tree.root)
    let nested := runFrom env s (chainValue evaluate (visitWithin maxDepth) tree.root)
    (tree.root.Within tree.root ∧ s.clock = none ∧ nested.1 ≠ .error .depthExceeded) ∧
      (∀ alarm, runFrom env s
        (binaryValue (atDepth s.depth alarm (visitWithin maxDepth)) tree.root) = loop) ∧
      loop.1 = nested.1 ∧ ∃ results visited, loop.2 = { nested.2 with results, visited } := by
  intro tree env s
  have inside : tree.root.Within tree.root := .self tree.root
  have untimed : s.clock = none := rfl
  have shallow : (runFrom env s (chainValue evaluate (visitWithin maxDepth) tree.root)).1 ≠
      .error .depthExceeded := by
    change Except.ok _ ≠ _
    nofun
  obtain ⟨-, level, same⟩ := binaryValue_eq_nested subtractions tree.root inside env s maxDepth
  exact ⟨⟨inside, untimed, shallow⟩, level, same untimed shallow⟩

end AddonAudit.Script
