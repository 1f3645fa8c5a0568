import AddonAudit.Proofs.Engine.Kept
import AddonAudit.Proofs.Engine.Ladder
import AddonAudit.Proofs.Engine.Lag

/-!
# Ladders evaluated statement by statement

The plain way to run a condition is to visit the condition and what it guards, and then its
alternative as a node, whose rule visits the condition below as a node in the same way. The loop
over a ladder gives the same value and the same fault and has the same effects. The alternatives and
the conditions below the first are not counted and their values are not kept, and everything is
visited at the depth of the loop itself. Main statement: `Engine.ifStatement_eq_nested`.
-/

namespace AddonAudit.Script

open Engine Coupling

/-- An alternative with one part, comments apart. -/
def Node.SinglePart (a : Node) : Prop :=
  a.kind = .elseClause ∧ (a.parts.filter fun c => !c.isComment).length = 1

instance : DecidablePred Node.SinglePart := fun _ => inferInstanceAs (Decidable (_ ∧ _))

namespace Engine

variable {env : Env} {s : State} {k fuel : Nat} {p : Pair} {n a m : Node} {visit : Visit}
  {around : Node → Engine Value → Engine Value}

section Plain

/-- The plain way to run a condition, given how the conditions below are run. -/
def plainIf (around : Node → Engine Value → Engine Value) (visit below : Visit) (n : Node) :
    Engine Value := do
  visitAs visit n .condition
  visitAs visit n .consequence
  match n.child? .alternative with
  | none => return .undefined
  | some a => do
    let _ ← (match a.elseIf? with
      | none => visit a
      | some _ => around a (dispatch (fun c =>
          if c.kind = .ifStatement then around c (below c) else visit c) a))
    return .undefined

theorem visitLast_filter (nodes : List Node) (last : Value) :
    visitLast visit last nodes = visitLast visit last (nodes.filter fun c => !c.isComment) := by
  induction nodes generalizing last with
  | nil => rfl
  | cons n rest ih =>
      rw [visitLast, ih]
      cases comment : n.isComment with
      | true => simp [comment]
      | false => simp [comment, visitLast, ih]

/-- The rule of an alternative that goes on with a condition and has no other part visits that. -/
theorem dispatch_of_singlePart (single : a.SinglePart) (next : a.elseIf? = some m) :
    dispatch visit a = (do
      let _ ← visit m
      return .undefined) := by
  have rule : dispatch visit a = (do
      let _ ← visitLast visit .undefined a.parts
      return .undefined) := dispatch_of_plain (single.1 ▸ rfl)
  have isIf := Node.kind_of_elseIf? next
  have part : m ∈ a.parts := by
    refine List.mem_filter.2 ⟨Node.mem_of_elseIf? next, ?_⟩
    rw [isIf]
    rfl
  have evaluated : m.isComment = false := by
    rw [Node.isComment, isIf]
    rfl
  obtain ⟨c, only⟩ := List.length_eq_one_iff.1 single.2
  have isOnly : m ∈ [c] := by
    rw [← only]
    exact List.mem_filter.2 ⟨part, by rw [evaluated]; rfl⟩
  rw [rule, visitLast_filter, only, ← List.mem_singleton.1 isOnly]
  simp only [visitLast, evaluated, Bool.false_eq_true, if_false, bind_assoc, pure_bind]

/-- The recursion down a ladder whose alternatives have one part runs every condition plainly. -/
theorem climb_eq_plainIf (single : ∀ a ∈ n.child? .alternative, a.SinglePart) :
    climb around visit n = plainIf around visit (climb around visit) n := by
  rw [climb_eq, plainIf]
  cases found : n.child? .alternative with
  | none => rfl
  | some a =>
      cases next : a.elseIf? with
      | none => simp only [next]
      | some m =>
          simp only [next, dispatch_of_singlePart (single a found) next, Node.kind_of_elseIf? next,
            if_true]

end Plain

section Depth

/-- Evaluating alternatives and conditions as nodes changes only what is kept inside of the first
alternative. -/
theorem climb_lags :
    Lags env (· ∈ Node.idsAs .alternative n.children) k p (climb evaluate (visitWithin fuel) n)
      (climb (fun _ x => x) (visitWithin fuel) n) := by
  induction n using Node.ladderInduction generalizing k p with
  | step n ih =>
      have below :
          (lag env (fun _ => False) k).VisitsBelow (visitWithin fuel) (visitWithin fuel) n :=
        fun c mem m inside q => visitWithin_at lag_walks fuel fun _ _ => not_false
      rw [climb_eq, climb_eq]
      refine Lags.after (visitAs_holds lag_lawful below) fun q _ => ?_
      refine Lags.after (visitAs_holds lag_lawful below) fun r _ => ?_
      cases found : n.child? .alternative with
      | none => exact fun start => .value ⟨start.weaken fun _ => False.elim, rfl, rfl⟩ rfl
      | some a =>
          have clause := Node.ids_subset_idsAs found
          refine Lags.bind ?_ fun _ _ => .ret fun _ => rfl
          cases next : a.elseIf? with
          | none =>
              simp only
              exact visitWithin_lags.weaken fun _ => False.elim
          | some m =>
              have inside : m.Within a := .ofChild (Node.mem_of_elseIf? next)
              simp only
              refine .evaluate (clause (Node.Within.self a).mem_ids) fun q => ?_
              refine Lags.bind ?_ fun _ _ => .ret fun _ => rfl
              refine .evaluate (clause inside.mem_ids) fun q => ?_
              refine (ih a m found next).weaken fun id mem => clause (inside.ids_subset ?_)
              exact Node.idsAll_children_subset m (Node.idsAs_subset_idsAll mem)

end Depth

section New

theorem visitAs_keptInside (env : Env) (s : State) (fuel : Nat) (n : Node) (role : Role) :
    KeptInside (· ∈ Node.idsAs role n.children) s
      (runFrom env s (visitAs (visitWithin fuel) n role)).2 := by
  rw [visitAs, valueAs]
  cases found : n.child? role with
  | none => exact .of_eq rfl
  | some c =>
      have visited := visitWithin_keptInside env s fuel c
      simp only
      rw [runFrom_bind]
      generalize runFrom env s (visitWithin fuel c) = ended at visited
      rcases ended with ⟨e | v, t⟩
      · exact visited.subset (Node.ids_subset_idsAs found)
      · exact visited.subset (Node.ids_subset_idsAs found)

/-- Visiting a condition and what it guards keeps nothing inside of the alternative. -/
theorem kept?_of_guarded {t u : State} (distinct : n.Distinct)
    (found : n.child? .alternative = some a)
    (condition : (runFrom env s (visitAs (visitWithin fuel) n .condition)).2 = t)
    (consequence : (runFrom env t (visitAs (visitWithin fuel) n .consequence)).2 = u) :
    ∀ id ∈ a.ids, u.kept? id = s.kept? id := by
  intro id mem
  have outside : ∀ role, role ≠ .alternative → id ∉ Node.idsAs role n.children := by
    intro role ne inside
    obtain ⟨c, child, inRole, inside⟩ := Node.mem_idsAs.1 inside
    refine distinct.disjoint child (Node.mem_of_child? found) ?_ inside mem
    rintro rfl
    exact ne (Option.some.inj (inRole.symm.trans (Node.role_of_child? found)))
  have first := (visitAs_keptInside env s fuel n .condition).kept? (outside .condition nofun)
  have second := (visitAs_keptInside env t fuel n .consequence).kept? (outside .consequence nofun)
  rw [condition] at first
  rw [consequence] at second
  exact second.trans first

/-- A node that is not kept is evaluated when it is visited. -/
theorem runFrom_evaluateOnce_of_new {x y : Engine Value} (new : s.kept? n.id = none)
    (evaluated : n.isComment = false)
    (same : runFrom env s.count.2.enterLevel x = runFrom env s.count.2.enterLevel y) :
    runFrom env s (evaluateOnce n x) = runFrom env s (evaluate n y) := by
  rw [runFrom_evaluateOnce, new, evaluated, runFrom_evaluate, runFrom_evaluate, same]
  rfl

/-- The alternatives of a ladder and its conditions below the first have no kept values. -/
def NewLadder (n : Node) (s : State) : Prop :=
  ∀ l a m : Node, n.OnLadder l → l.child? .alternative = some a → a.elseIf? = some m →
    s.kept? a.id = none ∧ s.kept? m.id = none

theorem runFrom_bind_congr {α β : Type} {x y : Engine α} {f g : α → Engine β}
    (first : runFrom env s x = runFrom env s y)
    (second : ∀ v t, runFrom env s y = (.ok v, t) → runFrom env t (f v) = runFrom env t (g v)) :
    runFrom env s (x >>= f) = runFrom env s (y >>= g) := by
  rw [runFrom_bind, runFrom_bind, first]
  rcases ran : runFrom env s y with ⟨e | v, t⟩
  · rfl
  · exact second v t ran

/-- On a new ladder visiting the alternatives and the conditions evaluates them. -/
theorem runFrom_climb_of_new (distinct : n.Distinct) (new : NewLadder n s)
    (single : ∀ l, n.OnLadder l → ∀ a ∈ l.child? .alternative, a.SinglePart) :
    runFrom env s (climb evaluateOnce (visitWithin fuel) n) =
      runFrom env s (climb evaluate (visitWithin fuel) n) := by
  induction n using Node.ladderInduction generalizing s with
  | step n ih =>
      rw [climb_eq, climb_eq]
      refine runFrom_bind_congr rfl fun _ t₁ condition => ?_
      refine runFrom_bind_congr rfl fun _ t₂ consequence => ?_
      cases found : n.child? .alternative with
      | none => rfl
      | some a =>
          cases next : a.elseIf? with
          | none => simp only [next]
          | some m =>
              simp only [next]
              have kept := kept?_of_guarded distinct found (congrArg Prod.snd condition)
                (congrArg Prod.snd consequence)
              have inside : m.Within a := .ofChild (Node.mem_of_elseIf? next)
              obtain ⟨newClause, newBelow⟩ := new n a m (.top n) found next
              refine runFrom_bind_congr ?_ fun _ _ _ => rfl
              refine runFrom_evaluateOnce_of_new ?_ ?_ ?_
              · rw [kept a.id (Node.Within.self a).mem_ids, newClause]
              · rw [Node.isComment, (single n (.top n) a found).1]
                rfl
              refine runFrom_bind_congr ?_ fun _ _ _ => rfl
              refine runFrom_evaluateOnce_of_new ?_ ?_ ?_
              · rw [State.kept?_counted, kept m.id inside.mem_ids, newBelow]
              · rw [Node.isComment, Node.kind_of_elseIf? next]
                rfl
              refine ih a m found next ?_ ?_ fun l on => single l (.next found next on)
              · exact (distinct.child (Node.mem_of_child? found)).inside inside
              · intro l b c on foundBelow nextBelow
                obtain ⟨newB, newC⟩ := new l b c (.next found next on) foundBelow nextBelow
                have insideB : b.Within a :=
                  .trans (.ofChild (Node.mem_of_child? foundBelow)) (on.within.trans inside)
                have insideC : c.Within a :=
                  .trans (.ofChild (Node.mem_of_elseIf? nextBelow)) insideB
                simp only [State.kept?_counted]
                exact ⟨(kept b.id insideB.mem_ids).trans newB,
                  (kept c.id insideC.mem_ids).trans newC⟩

end New

section Walk

/-- The nodes that a walk over a ladder visits: the conditions, what they guard and the last
alternative. No two have a node in common, and they come in the order of the source if the parts of
the statements do. -/
structure LadderWalk (n : Node) (nodes : List Node) : Prop where
  complete : ∀ r, r ∈ nodes ↔ ∃ l, n.OnLadder l ∧ (l.child? .condition = some r ∨
    l.child? .consequence = some r ∨ l.child? .alternative = some r ∧ r.elseIf? = none)
  apart : Node.Apart nodes
  ordered : (∀ l, n.OnLadder l → l.InOrder) →
    nodes.Pairwise fun a b => ∀ i ∈ a.ids, ∀ j ∈ b.ids, i < j

theorem ladderWalk_rungs (sorted : n.ids.Pairwise (· < ·)) : LadderWalk n (rungs n) where
  complete _ := mem_rungs
  apart := apart_rungs (sorted.imp Nat.ne_of_lt)
  ordered inOrder := by
    have sublist := (idsAll_rungs_sublist inOrder).trans (Node.idsAll_children_sublist n)
    have sorted' := sorted.sublist sublist
    rw [Node.idsAll_eq, List.pairwise_flatMap] at sorted'
    exact sorted'.2

/-- Walking a ladder in a loop is the plain recursion that visits the condition, what it guards and
then the alternative as a node: unless the recursion is too deep or has a deadline, both give the
same value or fault, in states that differ only in the kept values and the count of nodes. If no
link is kept yet, evaluating the links and visiting them is the same. The loop visits every
condition and every branch of the ladder once, from the top down. -/
theorem ifStatement_eq_nested (root n : Node) (inside : n.Within (Tree.ofRoot root).root)
    (single : ∀ l, n.OnLadder l → ∀ a ∈ l.child? .alternative, a.SinglePart)
    (env : Env) (s : State) (fuel : Nat) :
    let visit := visitWithin fuel
    let loop := runFrom env s (ifStatement visit n)
    let nested := runFrom env s (climb evaluate visit n)
    (∀ around l, n.OnLadder l →
        climb around visit l = plainIf around visit (climb around visit) l) ∧
      (s.clock = none → nested.1 ≠ .error .depthExceeded →
        loop.1 = nested.1 ∧ ∃ results visited, loop.2 = { nested.2 with results, visited }) ∧
      (NewLadder n s → runFrom env s (climb evaluateOnce visit n) = nested) ∧
      ∃ nodes, LadderWalk n nodes ∧
        ∀ visit, ifStatement visit n = (do visitEach visit nodes; return .undefined) := by
  intro visit loop nested
  have sorted : n.ids.Pairwise (· < ·) :=
    (Node.pairwise_ids_ofRoot root).sublist inside.ids_sublist
  refine ⟨fun around l on => climb_eq_plainIf (single l on), ?_, fun new => ?_,
    rungs n, ladderWalk_rungs sorted, fun _ => ifStatement_eq_visitEach n⟩
  · intro untimed shallow
    have agree := climb_lags.agree untimed shallow
    rwa [← ifStatement_eq_climb] at agree
  · exact runFrom_climb_of_new (sorted.imp Nat.ne_of_lt) new single

/-- The script `if (null) ; else if (null) ; else ;`. -/
def twoConditions : Node :=
  let condition : Node := {
    kind := .parenthesizedExpression, role := some .condition
    children := [{ kind := .nullLiteral }] }
  let branch : Node := { kind := .emptyStatement, role := some .consequence }
  let last : Node := {
    kind := .elseClause, role := some .alternative, children := [{ kind := .emptyStatement }] }
  let second : Node := { kind := .ifStatement, children := [condition, branch, last] }
  { kind := .ifStatement
    children := [condition, branch, {
      kind := .elseClause, role := some .alternative
      children := [{ kind := .comment, text := "// next" }, second] }] }

theorem ifStatement_eq_nested_two_conditions :
    let tree := Tree.ofRoot twoConditions
    let env : Env := { registry := ⟨#[], []⟩, file := "ladder.js", lines := .ofChars [] }
    let s := initial env.registry tree none {}
    let loop := runFrom env s (ifStatement (visitWithin maxDepth) tree.root)
    let nested := runFrom env s (climb evaluate (visitWithin maxDepth) tree.root)
    (tree.root.Within tree.root ∧ s.clock = none ∧ nested.1 ≠ .error .depthExceeded ∧
      NewLadder tree.root s ∧ ∀ l, tree.root.OnLadder l → l.InOrder) ∧
      loop.1 = nested.1 ∧ (∃ results visited, loop.2 = { nested.2 with results, visited }) ∧
      runFrom env s (climb evaluateOnce (visitWithin maxDepth) tree.root) = nested ∧
      ∃ nodes, (nodes.Pairwise fun a b => ∀ i ∈ a.ids, ∀ j ∈ b.ids, i < j) ∧
        ifStatement (visitWithin maxDepth) tree.root =
          (do visitEach (visitWithin maxDepth) nodes; return .undefined) := by
  intro tree env s
  have inside : tree.root.Within tree.root := .self tree.root
  have single : ∀ l, tree.root.OnLadder l → ∀ a ∈ l.child? .alternative, a.SinglePart := by
    intro l on
    have all : ∀ l ∈ (ladder tree.root).1, ∀ a ∈ l.child? .alternative, a.SinglePart := by decide
    exact all l (mem_ladder.2 on)
  have ok : (runFrom env s (climb evaluate (visitWithin maxDepth) tree.root)).1.isOk = true := by
    decide +kernel
  have shallow : (runFrom env s (climb evaluate (visitWithin maxDepth) tree.root)).1 ≠
      .error .depthExceeded := by
    intro deep
    rw [deep] at ok
    cases ok
  have new : NewLadder tree.root s := fun _ _ _ _ _ _ => ⟨kept?_initial .., kept?_initial ..⟩
  have inOrder : ∀ l, tree.root.OnLadder l → l.InOrder := by
    intro l on
    rcases List.mem_cons.1 (mem_ladder.2 on) with rfl | below
    · exact .refl _
    · rcases List.mem_cons.1 below with rfl | mem
      · exact .refl _
      · cases mem
  obtain ⟨-, agree, visits, nodes, walk, same⟩ :=
    ifStatement_eq_nested twoConditions tree.root inside single env s maxDepth
  obtain ⟨value, effects⟩ := agree rfl shallow
  constructor
  · exact ⟨inside, rfl, shallow, new, inOrder⟩
  · exact ⟨value, effects, visits new, nodes, walk.ordered inOrder, same _⟩

end Walk

end Engine

end AddonAudit.Script
