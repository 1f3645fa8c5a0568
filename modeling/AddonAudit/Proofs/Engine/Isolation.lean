import AddonAudit.Proofs.Engine.Core
import AddonAudit.Proofs.Engine.Kept
import AddonAudit.Proofs.Node
import AddonAudit.Proofs.Scope

/-!
# Functions keep their names to themselves

A function adds no name to the scopes around it, but for a declaration, which adds its own to the
nearest function. The global names only grow, and so do those that a program has declared itself
when statements are added at its end.
-/

namespace AddonAudit.Script

open Engine Coupling

/-- Names are added only up to the nearest function and to the globals. -/
structure State.Scoped (s t : State) : Prop where
  scopes : Confined s.scopes t.scopes
  globals : s.globals.Extends t.globals

/-- Where names are added, as an invariant. -/
def scoping : Invariant where
  Inv _ := True
  Step := State.Scoped
  Val _ _ := True
  refl s := ⟨.of_outlines rfl, .refl s.globals⟩
  trans h h' := ⟨h.scopes.trans h'.scopes, h.globals.trans h'.globals⟩
  mono _ _ := trivial

/-- A change of a state that stores no name. -/
theorem scoping_of_eq {s t : State} (scopes : t.scopes = s.scopes)
    (globals : t.globals = s.globals) : scoping.Leads s t := by
  refine ⟨trivial, .of_outlines (by rw [scopes]), ?_⟩
  rw [globals]
  exact .refl s.globals

theorem scoping_leave {s t : State} (b : Bracket) (h : (b.enter s).Scoped t) :
    s.Scoped (b.leave t) := by
  cases b with
  | scope kind => exact ⟨h.scopes.leave, h.globals⟩
  | receiver => exact ⟨h.scopes, h.globals⟩
  | level => exact ⟨h.scopes, h.globals⟩

theorem scoping_lawful : scoping.Lawful where
  plain _ _ := trivial
  find _ _ := trivial
  receiver _ := trivial
  kept _ _ := trivial
  property _ _ _ _ := trivial
  infer _ _ absent _ :=
    ⟨trivial, .of_outlines rfl, .store (.inl (find?_globals_of_absent absent))⟩
  storeGlobal _ _ _ _ := ⟨trivial, .of_outlines rfl, .store (.inr rfl)⟩
  declare name d _ _ _ := ⟨trivial, .storeIn d name _ _ _, storeIn_extends _ _ rfl⟩
  overwrite := by
    intro s t v old name _ _ found
    obtain ⟨⟨_, _, _⟩, replaced, same⟩ := Option.map_eq_some_iff.1 found
    cases same
    exact ⟨trivial, .of_outlines (replace?_outlines replaced),
      replace?_extends (fun _ => rfl) replaced⟩
  setProperty _ _ _ _ _ := scoping_of_eq rfl rfl
  newObject _ := ⟨scoping_of_eq rfl rfl, fun _ => trivial⟩
  newArray _ _ := ⟨scoping_of_eq rfl rfl, fun _ => trivial⟩
  record _ _ _ _ := scoping_of_eq rfl rfl
  carry _ _ _ _ _ := trivial
  drop _ _ _ _ := scoping_of_eq rfl rfl
  tick _ _ _ := scoping_of_eq rfl rfl
  keep _ _ _ := scoping_of_eq rfl rfl
  faults _ := trivial
  enter _ _ := trivial
  leave b _ _ step := ⟨trivial, scoping_leave b step⟩
  outside _ _ := trivial

/-- The names that a script has declared itself stay among its own. -/
theorem Properties.Extends.ownGlobals_sublist {old new : Properties} (h : old.Extends new) :
    (ownGlobals old).Sublist (ownGlobals new) := by
  induction h with
  | nil => exact List.nil_sublist _
  | @cons name v w old new known _ ih =>
      unfold ownGlobals at ih ⊢
      rw [List.filter_cons, List.filter_cons]
      simp only [Bool.and_eq_true, Bool.not_eq_true']
      split
      next own =>
          rw [if_pos ⟨known own.1, own.2⟩]
          exact ih.cons_cons name
      · split
        · exact ih.trans (List.sublist_cons_self ..)
        · exact ih

/-- The kinds and the names of the scopes inside the global one, innermost first. -/
def State.outlines (s : State) : List (ScopeKind × List String) :=
  s.scopes.map Scope.outline

/-- The kinds of nodes that are declarations of functions. -/
def Kind.isFunctionDeclaration : Kind → Bool
  | .functionDeclaration | .generatorFunctionDeclaration => true
  | _ => false

/-- The kinds of nodes that are functions. -/
def Kind.isFunction : Kind → Bool
  | .functionExpression | .bareFunction | .generatorFunction | .arrowFunction
  | .methodDefinition => true
  | kind => kind.isFunctionDeclaration

/-- What a function adds to the names of the scopes around it: nothing, but for a declaration, which
may add its own name to the nearest function. -/
def Node.OwnNameOnly (n : Node) (before after : List (ScopeKind × List String)) : Prop :=
  after = before ∨ n.kind.isFunctionDeclaration ∧
    ∃ name, n.child? .name = some name ∧ after = addToFunction name.text before

theorem Kind.rule_of_isFunction {kind : Kind} (function : kind.isFunction) :
    ∃ action, kind.rule? = some (.function action) ∧
      (action = .functionDeclaration → kind.isFunctionDeclaration) := by
  cases kind <;> cases function <;> exact ⟨_, rfl, by decide⟩

section Functions

variable {env : Env} {s : State} {n : Node} {fuel : Nat}

theorem scoping_visits :
    (scoping.coupling env).VisitsBelow (visitWithin fuel) (visitWithin fuel) n := by
  intro c mem m inside q
  exact visitWithin_at scoping_lawful.lasting.walks fuel fun _ _ => trivial

/-- What runs in the scope of a function adds no name to the scopes around. -/
theorem outlines_inScope {α : Type} {Q : Pair → α → α → Prop} {x : Engine α}
    (h : ∀ p, (scoping.coupling env).Holds p Q x x) :
    (runFrom env s (inScope .function x)).2.outlines = s.outlines := by
  have step := (Invariant.of_holds (s := s.enterScope .function) trivial (h _)).1.step
  rw [runFrom_inScope]
  exact step.scopes.around_function

/-- A declaration adds the name of the function to the nearest function around. -/
theorem outlines_functionDeclaration :
    let t := (runFrom env s (inScope .function (inReceiver
      (functionDeclaration (visitWithin fuel) n)))).2
    t.outlines = s.outlines ∨
      ∃ name, n.child? .name = some name ∧ t.outlines = addToFunction name.text s.outlines := by
  have body : ∀ (f : Value) (u : State),
      (runFrom env u (do
        inScope .function (inReceiver (functionBody (visitWithin fuel) n))
        return f)).2.outlines = u.outlines := by
    intro f u
    have inside : (runFrom env u (inScope .function (inReceiver
        (functionBody (visitWithin fuel) n)))).2.outlines = u.outlines :=
      outlines_inScope fun p => withinSame_holds scoping_lawful.lawful .receiver
        (functionBody_holds scoping_lawful.lawful scoping_visits)
    rw [runFrom_bind]
    generalize runFrom env u (inScope .function _) = ended at inside
    rcases ended with ⟨_ | _, t⟩
    · exact inside
    · exact inside
  -- The name is stored before the scope of the body is entered, so that it is the only one that
  -- stays.
  let f : Value := .function (s.onHeap Heap.newObject).1
  let made : State := (s.onHeap Heap.newObject).2
  rw [inScope_functionDeclaration]
  cases n.child? .name with
  | none => exact .inl (body f made)
  | some name =>
      refine .inr ⟨name, rfl, ?_⟩
      exact (body f (made.declare name.text f .variable)).trans (storeIn_variable_outlines ..)

theorem outlines_dispatch (function : n.kind.isFunction) :
    n.OwnNameOnly s.outlines (runFrom env s (dispatch (visitWithin fuel) n)).2.outlines := by
  obtain ⟨action, rule, declares⟩ := Kind.rule_of_isFunction function
  rw [dispatch_of_function rule]
  by_cases declaration : action = .functionDeclaration
  · subst declaration
    obtain ⟨-, own⟩ := rule_of_functionDeclaration rule rfl
    rw [inRuleScope_function own]
    exact outlines_functionDeclaration.imp id fun added => ⟨declares rfl, added⟩
  · refine .inl (outlines_inScope (Q := (scoping.coupling env).Val) fun p => ?_)
    have ran : ∀ q, (scoping.coupling env).Holds q (scoping.coupling env).Val
        (runAction (visitWithin fuel) n action) (runAction (visitWithin fuel) n action) := fun q =>
      runAction_holds scoping_lawful.lawful scoping_visits declaration
    split
    · exact ran p
    · exact within_holds scoping_lawful.lawful .receiver (ran _)

/-- A node adds names to the scopes only while its action runs. -/
theorem outlines_evaluateOnce (x : Engine Value) :
    let t := (runFrom env s (evaluateOnce n x)).2
    t.outlines = s.outlines ∨ t.outlines = (runFrom env s.count.2.enterLevel x).2.outlines := by
  rw [runFrom_evaluateOnce]
  split
  · exact .inl rfl
  · split
    · exact .inl rfl
    · rw [runFrom_evaluate]
      split
      · exact .inl rfl
      · split
        · exact .inl rfl
        · rcases runFrom env s.count.2.enterLevel x with ⟨_ | v, t⟩
          · exact .inr rfl
          · exact .inr rfl

/-- A function leaves the names of the scopes around it alone, but for its own name. -/
theorem outlines_visitWithin (function : n.kind.isFunction) :
    n.OwnNameOnly s.outlines (runFrom env s (visitWithin fuel n)).2.outlines := by
  cases fuel with
  | zero =>
      rcases outlines_evaluateOnce (throw .depthExceeded) with unchanged | ran
      · exact .inl unchanged
      · exact .inl ran
  | succ fuel =>
      rcases outlines_evaluateOnce (dispatch (visitWithin fuel) n) with unchanged | ran
      · exact .inl unchanged
      · rw [visitWithin_succ, ran]
        exact outlines_dispatch function

end Functions

section Programs

/-- The states differ only in the kept values, which agree below a bound. -/
inductive SameBelow (bound : Nat) : Pair → Prop where
  | mk (s : State) (results : Array (Option Value)) (left : bound ≤ results.size)
      (right : bound ≤ s.results.size) (same : ∀ id < bound, results[id]? = s.results[id]?) :
      SameBelow bound ⟨{ s with results }, s⟩

/-- Runs with the kept values of trees of different sizes. -/
def resized (env : Env) (bound : Nat) : Coupling where
  left := env
  right := env
  Inv := SameBelow bound
  Step _ _ := True
  Val _ v w := v = w
  refl _ := trivial
  trans _ _ := trivial
  mono value _ := value

variable {env : Env} {bound : Nat}

theorem resized_lawful : (resized env bound).Lawful :=
  UpToBook.lawful {
    env := rfl
    val := .rfl
    book := by
      rintro _ ⟨s, _, _, _, _⟩
      rfl
    change := by
      rintro _ t ⟨s, results, left, right, same⟩
      exact ⟨.mk (t.withBook s) results left right same, trivial⟩
    enter := by
      rintro _ b ⟨s, results, left, right, same⟩
      cases b with
      | scope kind => exact .mk (s.enterScope kind) results left right same
      | receiver => exact .mk s.enterReceiver results left right same
      | level => exact .mk s.enterLevel results left right same
    leave := by
      rintro p _ b - ⟨s, results, left, right, same⟩ -
      cases b with
      | scope kind => exact ⟨.mk s.leaveScope results left right same, trivial⟩
      | receiver => exact ⟨.mk s.leaveReceiver results left right same, trivial⟩
      | level => exact ⟨.mk s.leaveLevel results left right same, trivial⟩ }

theorem resized_walks : (resized env bound).Walks (·.id < bound) where
  toLawful := resized_lawful
  strict := .inl rfl
  count := by
    rintro _ ⟨s, results, left, right, same⟩
    exact ⟨rfl, .mk s.count.2 results left right same, trivial⟩
  depth := by
    rintro _ ⟨s, results, left, right, same⟩
    exact .inl rfl
  kept := by
    rintro _ n ⟨s, results, left, right, same⟩ known
    have kept : results[n.id]?.join = s.kept? n.id := congrArg Option.join (same n.id known)
    exact kept ▸ related_self fun _ _ => rfl
  keep := by
    rintro _ v _ n ⟨s, results, left, right, same⟩ known ⟨rfl, -⟩
    refine ⟨.mk (s.keep n.id v) (results.setIfInBounds n.id (some v)) ?_ ?_ ?_, trivial⟩
    · rwa [Array.size_setIfInBounds]
    · rwa [State.keep, Array.size_setIfInBounds]
    · intro other below
      have inside : n.id < results.size ∧ n.id < s.results.size := by omega
      rw [State.keep, Array.getElem?_setIfInBounds, Array.getElem?_setIfInBounds,
        if_pos inside.1, if_pos inside.2, same other below]
  faults _ _ := trivial
  late _ _ := trivial

/-- The tree of a program with some statements. -/
def programTree (root : Node) (statements : List Node) : Tree :=
  .ofRoot { root with kind := .program, children := statements }

/-- Statements at the end leave the ones before as they are. -/
theorem programTree_append (root : Node) (statements more : List Node) :
    (programTree root statements).size ≤ (programTree root (statements ++ more)).size ∧
      ∃ added, (programTree root (statements ++ more)).root.parts =
        (programTree root statements).root.parts ++ added := by
  have numbered := Node.numberAll_append statements more 1
  constructor
  · change (Node.numberAll 1 statements).1 ≤ (Node.numberAll 1 (statements ++ more)).1
    rw [numbered]
    exact Node.le_numberAll more _
  · have children : (programTree root (statements ++ more)).root.children =
        (programTree root statements).root.children ++ _ := congrArg Prod.snd numbered
    rw [Node.parts, children, List.filter_append]
    exact ⟨_, rfl⟩

theorem id_lt_programTree {root c m : Node} {statements : List Node}
    (part : c ∈ (programTree root statements).root.parts) (inside : m.Within c) :
    m.id < (programTree root statements).size := by
  have child := Node.ids_sublist_of_child (Node.mem_of_parts part)
  exact Node.lt_of_mem_numberAll (child.subset inside.mem_ids)

/-- Statements at the end are visited after the others. -/
theorem Engine.visitLast_append {visit : Visit} (first second : List Node) (last : Value) :
    visitLast visit last (first ++ second) =
      visitLast visit last first >>= fun v => visitLast visit v second := by
  induction first generalizing last with
  | nil => exact (pure_bind ..).symm
  | cons n rest ih =>
      rw [List.cons_append, visitLast, visitLast]
      split
      · exact ih last
      · rw [bind_assoc]
        exact congrArg (visit n >>= ·) (funext ih)

/-- The state in which the statements of a program are visited. -/
def State.opened (s : State) : State :=
  ({ s with clock := s.clock.look.2 } : State).count.2.enterLevel

/-- Whether the time is over before the first statement of a program. -/
def State.overdue (s : State) : Bool :=
  s.clock.look.1 || ({ s with clock := s.clock.look.2 } : State).count.1

variable {s : State}

/-- The check at the end of a run declares nothing. -/
theorem globals_checkGlobals : (runFrom env s checkGlobals).2.globals = s.globals := by
  change (runFrom env s ((pollution? env s).forM _)).2.globals = _
  cases pollution? env s with
  | none => rfl
  | some f => rfl

/-- The globals after a program are those after its last statement. -/
theorem globals_visitProgram {n : Node} (fuel : Nat) (program : n.kind = .program)
    (new : s.kept? n.id = none) (shallow : s.depth < maxDepth) :
    (runFrom env s (visitWithin (fuel + 1) n)).2.globals =
      if s.count.1 then s.globals
      else (runFrom env s.count.2.enterLevel
        (visitLast (visitWithin fuel) .undefined n.parts)).2.globals := by
  have rule : n.kind.rule? = some {} := program ▸ rfl
  have evaluated : ¬ n.isComment := by
    rw [Node.isComment, program]
    decide
  rw [visitWithin_succ, runFrom_evaluateOnce, new]
  simp only
  rw [if_neg evaluated, runFrom_evaluate]
  split
  · rfl
  · rw [if_neg (Nat.not_le.2 shallow), dispatch_of_plain rule, runFrom_bind]
    rcases runFrom env s.count.2.enterLevel (visitLast (visitWithin fuel) .undefined n.parts) with
      ⟨_ | v, t⟩
    · rfl
    · rfl

theorem globals_run {t : Tree} (program : t.root.kind = .program) (r : Registry) (clock : Clock)
    (b : Bundle) :
    (runFrom env (initial r t clock b) (run t)).2.globals =
      if (initial r t clock b).overdue then []
      else (runFrom env (initial r t clock b).opened
        (visitLast (visitWithin (maxDepth - 1)) .undefined t.root.parts)).2.globals := by
  let s := initial r t clock b
  let u : State := { s with clock := s.clock.look.2 }
  have new : u.kept? t.root.id = none := kept?_initial r t clock b t.root.id
  have shallow : u.depth < maxDepth := Nat.zero_lt_succ 199
  have visited : (runFrom env u (visit t.root)).2.globals = _ :=
    globals_visitProgram (maxDepth - 1) program new shallow
  have checked : (runFrom env u (visit t.root >>= fun _ => checkGlobals)).2.globals =
      (runFrom env u (visit t.root)).2.globals := by
    rw [runFrom_bind]
    rcases runFrom env u (visit t.root) with ⟨_ | v, w⟩
    · rfl
    · exact globals_checkGlobals
  rw [run, runFrom_bind, runFrom_checkDeadline, State.overdue]
  cases s.clock.look.1 with
  | true => rfl
  | false => exact checked.trans visited

theorem SameBelow.globals {p : Pair} (h : SameBelow bound p) :
    p.left.globals = p.right.globals := by
  obtain ⟨s, _, _, _, _⟩ := h
  rfl

/-- At their starts, the runs of two trees keep nothing for the nodes of the smaller one. -/
theorem sameBelow_initial {small large : Tree} (le : small.size ≤ large.size) (r : Registry)
    (clock : Clock) (b : Bundle) :
    SameBelow small.size ⟨(initial r small clock b).opened, (initial r large clock b).opened⟩ := by
  have left : small.size ≤ (Array.replicate small.size (none : Option Value)).size :=
    Nat.le_of_eq Array.size_replicate.symm
  have right : small.size ≤ (Array.replicate large.size (none : Option Value)).size :=
    Nat.le_trans le (Nat.le_of_eq Array.size_replicate.symm)
  refine .mk (initial r large clock b).opened (Array.replicate small.size none) left right ?_
  intro id below
  change _ = (Array.replicate large.size none)[id]?
  rw [Array.getElem?_replicate, Array.getElem?_replicate, if_pos below,
    if_pos (Nat.lt_of_lt_of_le below le)]

/-- Visiting some nodes only adds global names. -/
theorem visitLast_extends {fuel : Nat} (last : Value) (nodes : List Node) :
    s.globals.Extends (runFrom env s (visitLast (visitWithin fuel) last nodes)).2.globals := by
  have holds : (scoping.coupling env).Holds ⟨s, s⟩ (scoping.coupling env).Val
      (visitLast (visitWithin fuel) last nodes) (visitLast (visitWithin fuel) last nodes) :=
    visitLast_holds ⟨rfl, trivial⟩ fun c _ m inside q =>
      visitWithin_at scoping_lawful.lasting.walks fuel fun _ _ => trivial
  exact (Invariant.of_holds trivial holds).1.step.globals

/-- From states that agree on the nodes that both runs visit, visiting more of them only adds global
names. -/
theorem SameBelow.visitLast_extends {p : Pair} (start : SameBelow bound p) {fuel : Nat}
    {last : Value} {first : List Node} (second : List Node)
    (below : ∀ c ∈ first, ∀ m : Node, m.Within c → m.id < bound) :
    (runFrom env p.left (visitLast (visitWithin fuel) last first)).2.globals.Extends
      (runFrom env p.right (visitLast (visitWithin fuel) last (first ++ second))).2.globals := by
  have visits :
      ∀ c ∈ first, (resized env bound).Visits (visitWithin fuel) (visitWithin fuel) c := by
    intro c mem m inside q
    exact visitWithin_at resized_walks fuel fun k deep => below c mem k (deep.trans inside)
  have ends : (resized env bound).Ends p (resized env bound).Val
      (runFrom env p.left (visitLast (visitWithin fuel) last first))
      (runFrom env p.right (visitLast (visitWithin fuel) last first)) :=
    visitLast_holds rfl visits start
  rw [visitLast_append, runFrom_bind]
  generalize runFrom env p.left (visitLast (visitWithin fuel) last first) = end₁,
    runFrom env p.right (visitLast (visitWithin fuel) last first) = end₂ at ends
  cases ends with
  | value leads _ =>
      rw [leads.inv.globals]
      exact Script.visitLast_extends _ second
  -- A fault among the first nodes ends both runs, with the same names.
  | fault e leads _ =>
      rw [leads.inv.globals]
      exact .refl _
  | excused excused => exact excused.elim

/-- Statements at the end of a program only add global names. -/
theorem globals_extend (env : Env) (clock : Clock) (b : Bundle) (root : Node)
    (statements more : List Node) :
    let globals := fun t : Tree =>
      (runFrom env (initial env.registry t clock b) (run t)).2.globals
    (globals (programTree root statements)).Extends
      (globals (programTree root (statements ++ more))) := by
  intro globals
  obtain ⟨le, added, parts⟩ := programTree_append root statements more
  have start := sameBelow_initial le env.registry clock b
  have late : (initial env.registry (programTree root (statements ++ more)) clock b).overdue =
      (initial env.registry (programTree root statements) clock b).overdue := rfl
  simp only [globals]
  rw [globals_run rfl, globals_run rfl, parts, late]
  split
  · exact .nil _
  · exact start.visitLast_extends added fun c part m inside => id_lt_programTree part inside

end Programs

/-- However the visit of a function ends, the scopes around it have the names that they had, in the
same order, but for the name of a declaration in the nearest function. Whatever is visited, the
global names come first among those afterwards, and none that was not inferred becomes inferred. So
the names that count against a program stay when statements are added at its end. -/
theorem Engine.functions_isolate_names :
    (∀ (env : Env) (s : State) (n : Node),
      let t := (runFrom env s (visit n)).2
      (n.kind.isFunction → n.OwnNameOnly s.outlines t.outlines) ∧
        s.globals.names <+: t.globals.names ∧
        ∀ name v, s.globals.find? name = some v → v.inferred = false →
          ∃ w, t.globals.find? name = some w ∧ w.inferred = false) ∧
      ∀ (env : Env) (clock : Clock) (b : Bundle) (root : Node) (statements more : List Node),
        let globals := fun t : Tree =>
          (runFrom env (initial env.registry t clock b) (run t)).2.globals
        (ownGlobals (globals (programTree root statements))).Sublist
          (ownGlobals (globals (programTree root (statements ++ more)))) := by
  constructor
  · intro env s n t
    have extended : s.globals.Extends t.globals :=
      (scoping_lawful.visitWithin env trivial maxDepth n).step.globals
    refine ⟨outlines_visitWithin, extended.names_prefix, ?_⟩
    intro name v found settled
    exact extended.find?_settled found settled
  · intro env clock b root statements more globals
    exact (globals_extend env clock b root statements more).ownGlobals_sublist

/-- The declaration `function f() { var x; y = null; }`. -/
def localFunction : Node :=
  let x : Node := { kind := .identifier, role := some .name, text := "x" }
  let assigned : Node := {
    kind := .assignmentExpression
    children := [{ kind := .identifier, role := some .left, text := "y" },
      { kind := .nullLiteral, role := some .right }] }
  let body : Node := {
    kind := .statementBlock, role := some .body
    children := [
      { kind := .variableDeclaration,
        children := [{ kind := .variableDeclarator, children := [x] }] },
      { kind := .expressionStatement, children := [assigned] }] }
  { kind := .functionDeclaration
    children := [{ kind := .identifier, role := some .name, text := "f" }, body] }

theorem Engine.functions_isolate_names_localFunction :
    let env : Env := { registry := ⟨#[], []⟩, file := "names.js", lines := .ofChars [] }
    let s : State := {
      bundle := {}, window := .unknown, results := #[], globals := [("g", .null)]
      scopes := [{ kind := .block }, { kind := .function, names := [("a", .null)] }] }
    let t := (runFrom env s (visit localFunction)).2
    localFunction.kind.isFunction ∧ localFunction.OwnNameOnly s.outlines t.outlines ∧
      (∃ w, t.globals.find? "g" = some w ∧ w.inferred = false) ∧
      t.outlines = [(.block, []), (.function, ["a", "f"])] ∧ t.globals.names = ["g", "y"] := by
  intro env s t
  obtain ⟨isolated, -, settled⟩ := functions_isolate_names.1 env s localFunction
  refine ⟨rfl, isolated rfl, settled "g" .null rfl rfl, ?_, ?_⟩
  · decide +kernel
  · decide +kernel

end AddonAudit.Script
