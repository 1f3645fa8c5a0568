import AddonAudit.Proofs.Engine.Expression
import AddonAudit.Proofs.Engine.Ladder

/-!
# Coupled statements and the rules of nodes

If two ways to visit keep a lawful coupling on the nodes below a node, then running the rule of that
node keeps it.
-/

namespace AddonAudit.Script

/-- The declarations that an action makes in the scope of its rule. -/
def Action.ownDeclarations : Action → List Declaration
  | .functionExpression | .arrowFunction | .methodDefinition => [.variable]
  | .forIn | .catchClause => [.letting, .constant]
  | _ => []

/-- Whether a declaration goes to the scope of a rule. -/
def Rule.takes (rule : Rule) (d : Declaration) : Bool :=
  rule.dynamic || rule.block && d ≠ .variable

/-- The scope of a rule takes what its action declares. -/
theorem Rule.takes_ownDeclarations {kind : Kind} {rule : Rule} {action : Action}
    (found : kind.rule? = some rule) (acts : rule.action = some action) :
    ∀ d ∈ action.ownDeclarations, rule.takes d = true := by
  cases kind <;> cases found <;> cases acts <;> decide

namespace Coupling

variable {C : Coupling} {p : Pair}

/-- A scope that takes a declaration takes every name. -/
theorem Lawful.takes (L : C.Lawful) {d : Declaration} (inside : p.left.scopes.any d.goesTo = true) :
    C.Takes p d := fun _ => L.closed.inside inside

end Coupling

end AddonAudit.Script

namespace AddonAudit.Script.Engine

open Coupling

/-- A rule that names no action and no scope visits all parts. -/
theorem dispatch_of_plain {visit : Visit} {n : Node} (rule : n.kind.rule? = some {}) :
    dispatch visit n = (do
      let _ ← visitLast visit .undefined n.parts
      return .undefined) := by
  rw [dispatch, rule]
  rfl

/-- The rule of a function runs its action in a scope of its own. -/
theorem dispatch_of_function {visit : Visit} {n : Node} {action : Action}
    (rule : n.kind.rule? = some (.function action)) :
    dispatch visit n = inRuleScope (.function action) n.kind (runAction visit n action) := by
  rw [dispatch, rule]
  exact bind_pure _

/-- The rule of a value runs its action. -/
theorem dispatch_of_value {visit : Visit} {n : Node} {action : Action}
    (rule : n.kind.rule? = some (.value action)) :
    dispatch visit n = runAction visit n action := by
  rw [dispatch, rule]
  exact bind_pure _

/-- Function declarations have a scope and a receiver of their own. -/
theorem rule_of_functionDeclaration {kind : Kind} {rule : Rule} (found : kind.rule? = some rule)
    (acts : rule.action = some .functionDeclaration) :
    rule = .function .functionDeclaration ∧ kind ≠ .arrowFunction := by
  cases kind <;> cases found <;> cases acts <;> exact ⟨rfl, nofun⟩

theorem inRuleScope_function {α : Type} {action : Action} {kind : Kind}
    (own : kind ≠ .arrowFunction) (x : Engine α) :
    inRuleScope (.function action) kind x = inScope .function (inReceiver x) :=
  congrArg (inScope .function) (if_neg own)

/-- A function declaration, run in its scope, declares a variable around the scope and does the rest
inside. -/
theorem inScope_functionDeclaration (visit : Visit) (n : Node) :
    inScope .function (inReceiver (functionDeclaration visit n)) = (do
      let f ← newFunction
      (n.child? .name).forM fun name => declare name.text f .variable
      inScope .function (inReceiver (functionBody visit n))
      return f) := by
  refine ext fun env s => ?_
  have inside : ∀ (f : Value) (t : State),
      runFrom env t (do inScope .function (inReceiver (functionBody visit n)); return f) =
        runFrom env t (inScope .function (inReceiver (do functionBody visit n; return f))) := by
    intro f t
    rw [runFrom_bind, runFrom_inScope, runFrom_inReceiver, runFrom_inScope, runFrom_inReceiver,
      runFrom_bind]
    rcases runFrom env (t.enterScope .function).enterReceiver (functionBody visit n) with ⟨_ | _, u⟩
    · rfl
    · rfl
  let f : Value := .function (s.onHeap Heap.newObject).1
  let made : State := (s.onHeap Heap.newObject).2
  rw [runFrom_inScope, runFrom_inReceiver, functionDeclaration]
  cases n.child? .name with
  | none =>
      have ran := inside f made
      rw [runFrom_inScope, runFrom_inReceiver] at ran
      exact ran.symm
  | some name =>
      have ran := inside f (made.declare name.text f .variable)
      rw [runFrom_inScope, runFrom_inReceiver] at ran
      exact ran.symm

/-- The names in the pattern of a declarator. A declarator of a single name has none. -/
def declaratorPattern (n : Node) : List String :=
  match n.child? .name with
  | some name => if name.kind = .identifier then [] else patternNames name
  | none => []

/-- How an action declares names outside of its own scope, if it does so. -/
def outerKind? (n : Node) : Action → Option Declaration
  | .functionDeclaration | .variableDeclaration => some .variable
  | .lexicalDeclaration => some (lexicalKind n)
  | .classDeclaration | .importStatement => some .letting
  | .forIn => (loopKind? n).filter (· = .variable)
  | _ => none

/-- The names that an action declares outside of its own scope without a look at the globals. -/
def looseNamesOf (n : Node) : Action → List String
  | .functionDeclaration | .classDeclaration => (n.child? .name).toList.map (·.text)
  | .variableDeclaration | .lexicalDeclaration =>
    (n.parts.filter (·.kind = .variableDeclarator)).flatMap declaratorPattern
  | .forIn => patternNamesAs .left n.children
  | .importStatement =>
    let clauses := n.parts.filter (·.kind = .importClause)
    (clauses.flatMap fun c => c.parts.flatMap importBindings).map (·.text)
  | _ => []

/-- A node declares a name outside of its own scope without a look at the globals: as the name of a
function, of a class or of an import, in a pattern, or as a variable in the head of a loop over a
collection. -/
def DeclaresLoosely (n : Node) (d : Declaration) (name : String) : Prop :=
  ∃ action, n.kind.rule?.bind (·.action) = some action ∧ outerKind? n action = some d ∧
    name ∈ looseNamesOf n action

end AddonAudit.Script.Engine

namespace AddonAudit.Script.Coupling

open Engine

/-- What a node declares without a check may be bound. -/
def Permits (C : Coupling) (p : Pair) (n : Node) : Prop :=
  ∀ d name, DeclaresLoosely n d name → C.reach.Binds p.left (some d) name

variable {C : Coupling} {p q : Pair} {n : Node}

theorem Permits.of_unbounded (unbounded : C.reach = {}) : C.Permits p n := by
  intro d name _
  rw [unbounded]
  trivial

theorem Permits.mono (h : C.Permits p n) (L : C.Lawful) (step : C.Step p q) : C.Permits q n :=
  fun d name loose => L.closed.later (h d name loose) step

theorem Permits.entered (h : C.Permits p n) (L : C.Lawful) (b : Bracket) :
    C.Permits (p.map b.enter) n :=
  fun d name loose => L.closed.entered b (h d name loose)

end AddonAudit.Script.Coupling

namespace AddonAudit.Script.Engine

open Coupling

variable {C : Coupling} {p : Pair} {v w : Visit} {n : Node} (L : C.Lawful)

include L

section Declarations

omit L in
theorem givenValue?_holds (h : C.VisitsBelow v w n) :
    C.Holds p (fun q => Option.Rel (C.Val q)) (givenValue? v n) (givenValue? w n) := by
  unfold givenValue?
  cases found : n.child? .value with
  | none => exact .ret fun _ => .none
  | some c => exact (h.child found).here.bind fun _ _ _ _ value => .ret fun _ => .some value

/-- Whether a variable without a value is declared again depends on the names alone. -/
theorem declareGiven_holds {d : Declaration} {given given' : Option Value}
    (related : Option.Rel (C.Val p) given given') :
    C.Holds p Same (declareGiven d n given) (declareGiven d n given') := by
  cases related with
  | some value => exact declareChecked_holds L value
  | none =>
      refine .onState fun inv => ?_
      rw [L.declared n.text inv]
      split
      · exact .ret fun _ => rfl
      · exact declareChecked_holds L (L.bare .undefined)

/-- A single name is checked before it is declared, the names in a pattern are not. -/
theorem declarator_holds {d : Declaration} (h : C.VisitsBelow v w n)
    (may : C.MayBind p (some d) (declaratorPattern n)) :
    C.Holds p Same (declarator v d n) (declarator w d n) := by
  unfold declarator
  unfold declaratorPattern at may
  cases found : n.child? .name with
  | none => exact .ret fun _ => rfl
  | some name =>
      rw [found] at may
      refine (givenValue?_holds h).bind fun q _ _ step given => ?_
      split
      · exact declareGiven_holds L given
      next pattern =>
        simp only [if_neg pattern] at may
        exact bind_holds L (h.child found) (may.mono L step)

theorem declarators_holds {d : Declaration} {nodes : List Node}
    (h : ∀ c ∈ nodes, C.Visits v w c) (may : C.MayBind p (some d)
      ((nodes.filter (·.kind = .variableDeclarator)).flatMap declaratorPattern)) :
    C.Holds p Same (declarators v d nodes) (declarators w d nodes) := by
  induction nodes generalizing p with
  | nil => exact .ret fun _ => rfl
  | cons n rest ih =>
      have head : n.kind = .variableDeclarator →
          C.Holds p Same (declarator v d n) (declarator w d n) := by
        intro kind
        refine declarator_holds L (h n List.mem_cons_self).below (may.subset fun name mem => ?_)
        have kept : n ∈ (n :: rest).filter (·.kind = .variableDeclarator) :=
          List.mem_filter.2 ⟨List.mem_cons_self, decide_eq_true kind⟩
        exact List.mem_flatMap.2 ⟨n, kept, mem⟩
      refine (Holds.when rfl fun kind => head (of_decide_eq_true kind)).bind fun _ _ _ step _ => ?_
      refine ih (fun c mem => h c (List.mem_cons_of_mem n mem)) ?_
      refine (may.subset fun name mem => ?_).mono L step
      obtain ⟨c, kept, inside⟩ := List.mem_flatMap.1 mem
      obtain ⟨later, kind⟩ := List.mem_filter.1 kept
      exact List.mem_flatMap.2 ⟨c, List.mem_filter.2 ⟨List.mem_cons_of_mem n later, kind⟩, inside⟩

theorem declaration_holds {d : Declaration} (h : C.VisitsBelow v w n) (may : C.MayBind p (some d)
      ((n.parts.filter (·.kind = .variableDeclarator)).flatMap declaratorPattern)) :
    C.Holds p C.Val (declaration v d n) (declaration w d n) :=
  (declarators_holds L (fun c mem => h c (Node.mem_of_parts mem)) may).bind fun _ _ _ _ _ =>
    .ret fun _ => L.bare .undefined

theorem bindParameters_holds (h : C.VisitsBelow v w n) (takes : C.Takes p .variable) :
    C.Holds p Same (bindParameters v n) (bindParameters w n) := by
  refine (bindAs_holds L h takes.mayBind).bind fun _ _ _ step _ => ?_
  cases found : n.child? .parameters with
  | none => exact .ret fun _ => rfl
  | some list =>
      refine bindEach_holds L (fun c mem => ?_) (takes.mono L step).mayBind
      exact (h.child found).below c (Node.mem_of_parts mem)

/-- The parameters of a function are declared in its scope. -/
theorem functionBody_holds (h : C.VisitsBelow v w n)
    (takes : C.Takes p .variable := by exact .of_unbounded rfl) :
    C.Holds p Same (functionBody v n) (functionBody w n) :=
  (bindParameters_holds L h takes).bind fun _ _ _ _ _ => visitAs_holds L h

/-- Declaring the name of a node, if it has one. -/
theorem declareName_holds {f f' : Value} {d : Declaration} (value : C.Val p f f')
    (may : C.MayBind p (some d) ((n.child? .name).toList.map (·.text)) := by
      exact .of_unbounded rfl) :
    C.Holds p Same ((n.child? .name).forM fun name => declare name.text f d)
      ((n.child? .name).forM fun name => declare name.text f' d) := by
  cases found : n.child? .name with
  | none => exact .ret fun _ => rfl
  | some name =>
      rw [found] at may
      exact declare_holds L value (may _ _ rfl List.mem_cons_self)

/-- The name is declared as a variable before the scope of parameters and body is entered. -/
theorem declaredFunction_holds (h : C.VisitsBelow v w n)
    (may : C.MayBind p (some .variable) (looseNamesOf n .functionDeclaration)) :
    C.Holds p C.Val (inScope .function (inReceiver (functionDeclaration v n)))
      (inScope .function (inReceiver (functionDeclaration w n))) := by
  rw [inScope_functionDeclaration, inScope_functionDeclaration]
  refine (newFunction_holds L).bind fun q f f' first value => ?_
  refine (declareName_holds L value (may.mono L first)).bind fun r _ _ step _ => ?_
  have body : C.Holds r Same (inScope .function (inReceiver (functionBody v n)))
      (inScope .function (inReceiver (functionBody w n))) := by
    refine withinSame_holds L (.scope .function) ?_
    exact withinSame_holds L .receiver (functionBody_holds L h (L.takes rfl))
  exact body.bind fun t _ _ step' _ => .ret fun _ => C.mono value (C.trans step step')

theorem functionExpression_holds (h : C.VisitsBelow v w n) (takes : C.Takes p .variable) :
    C.Holds p C.Val (functionExpression v n) (functionExpression w n) := by
  refine (newFunction_holds L).bind fun q f f' first value => ?_
  have own := takes.mono L first
  refine (declareName_holds L value own.mayBind).bind fun r _ _ step _ => ?_
  refine (functionBody_holds L h (own.mono L step)).bind fun t _ _ step' _ => .ret fun _ => ?_
  exact C.mono value (C.trans step step')

theorem arrowFunction_holds (h : C.VisitsBelow v w n) (takes : C.Takes p .variable) :
    C.Holds p C.Val (arrowFunction v n) (arrowFunction w n) := by
  refine (newFunction_holds L).bind fun q f f' first value => ?_
  refine (functionBody_holds L h (takes.mono L first)).bind fun r _ _ step _ => ?_
  exact .ret fun _ => C.mono value step

theorem methodDefinition_holds (h : C.VisitsBelow v w n) (takes : C.Takes p .variable) :
    C.Holds p C.Val (methodDefinition v n) (methodDefinition w n) := by
  refine (newFunction_holds L).bind fun q f f' first value => ?_
  refine (visitComputed_holds h).bind fun r _ _ step _ => ?_
  have own := takes.mono L (C.trans first step)
  refine (functionBody_holds L h own).bind fun t _ _ step' _ => .ret fun _ => ?_
  exact C.mono value (C.trans step step')

omit L in
theorem mem_of_classParts {c : Node} (h : c ∈ classParts n) : c ∈ n.children := by
  unfold classParts at h
  split at h
  · exact Node.mem_of_parts (List.mem_filter.1 h).1
  · exact Node.mem_of_parts h

theorem classExpression_holds (h : C.VisitsBelow v w n) :
    C.Holds p C.Val (classExpression v n) (classExpression w n) :=
  (visitEach_holds fun c mem => h c (mem_of_classParts mem)).bind fun _ _ _ _ _ =>
    newFunction_holds L

theorem classDeclaration_holds (h : C.VisitsBelow v w n)
    (may : C.MayBind p (some .letting) (looseNamesOf n .classDeclaration)) :
    C.Holds p C.Val (classDeclaration v n) (classDeclaration w n) := by
  refine (classExpression_holds L h).bind fun q c c' first value => ?_
  refine (declareName_holds L value (may.mono L first)).bind fun r _ _ step _ => ?_
  exact .ret fun _ => C.mono value step

end Declarations

section Statements

/-- The loop over a ladder visits only what is inside of the statement. -/
theorem ifStatement_holds (h : C.VisitsBelow v w n) :
    C.Holds p C.Val (ifStatement v n) (ifStatement w n) := by
  rw [ifStatement_eq_visitEach, ifStatement_eq_visitEach]
  refine (visitEach_holds fun r mem m inside => ?_).bind fun _ _ _ _ _ => ?_
  · obtain ⟨c, child, deeper⟩ := below_of_mem_rungs mem
    exact h c child m (inside.trans deeper)
  · exact .ret fun _ => L.bare .undefined

/-- The head of a loop declares variables around the loop, other names inside. -/
theorem forIn_holds (h : C.VisitsBelow v w n)
    (outer : C.MayBind p (outerKind? n .forIn) (looseNamesOf n .forIn))
    (takes : ∀ d ∈ Action.forIn.ownDeclarations, C.Takes p d) :
    C.Holds p C.Val (forIn v n) (forIn w n) := by
  refine (visitAs_holds L h).bind fun q _ _ step _ => ?_
  have may : C.MayBind q (loopKind? n) (patternNamesAs .left n.children) := by
    intro d name given mem
    rcases d with - | - | -
    · have around : outerKind? n .forIn = some .variable := by
        rw [outerKind?, given]
        rfl
      exact outer.mono L step _ _ around mem
    · exact (takes .letting (by decide)).mono L step name
    · exact (takes .constant (by decide)).mono L step name
  refine (bindAs_holds L h may).bind fun _ _ _ _ _ => ?_
  exact (visitAs_holds L h).bind fun _ _ _ _ _ => .ret fun _ => L.bare .undefined

theorem catchClause_holds (h : C.VisitsBelow v w n) (takes : C.Takes p .letting) :
    C.Holds p C.Val (catchClause v n) (catchClause w n) := by
  refine (bindAs_holds L h takes.mayBind).bind fun _ _ _ _ _ => ?_
  exact (visitAs_holds L h).bind fun _ _ _ _ _ => .ret fun _ => L.bare .undefined

theorem declareImports_holds {nodes : List Node}
    (may : C.MayBind p (some .letting) (nodes.map (·.text))) :
    C.Holds p Same (declareImports nodes) (declareImports nodes) := by
  induction nodes generalizing p with
  | nil => exact .ret fun _ => rfl
  | cons n rest ih =>
      have first := may _ _ rfl List.mem_cons_self
      refine (declare_holds L (L.bare .unknown) first).bind fun _ _ _ step _ => ih ?_
      exact (may.subset fun _ mem => List.mem_cons_of_mem _ mem).mono L step

theorem importStatement_holds
    (may : C.MayBind p (some .letting) (looseNamesOf n .importStatement) := by
      exact .of_unbounded rfl) :
    C.Holds p C.Val (importStatement n) (importStatement n) :=
  (declareImports_holds L may).bind fun _ _ _ _ _ => .ret fun _ => L.bare .undefined

end Statements

/-- Every action keeps a lawful coupling, but a function declaration only together with its
scope. -/
theorem runAction_holds {action : Action} (h : C.VisitsBelow v w n)
    (other : action ≠ .functionDeclaration)
    (may : C.MayBind p (outerKind? n action) (looseNamesOf n action) := by exact .of_unbounded rfl)
    (takes : ∀ d ∈ action.ownDeclarations, C.Takes p d := by exact fun _ _ => .of_unbounded rfl) :
    C.Holds p C.Val (runAction v n action) (runAction w n action) := by
  cases action with
  | ifStatement => exact ifStatement_holds L h
  | forIn => exact forIn_holds L h may takes
  | catchClause => exact catchClause_holds L h (takes _ List.mem_cons_self)
  | importStatement => exact importStatement_holds L may
  | variableDeclaration => exact declaration_holds L h may
  | lexicalDeclaration => exact declaration_holds L h may
  | functionDeclaration => exact absurd rfl other
  | functionExpression => exact functionExpression_holds L h (takes _ List.mem_cons_self)
  | arrowFunction => exact arrowFunction_holds L h (takes _ List.mem_cons_self)
  | methodDefinition => exact methodDefinition_holds L h (takes _ List.mem_cons_self)
  | classDeclaration => exact classDeclaration_holds L h may
  | classExpression => exact classExpression_holds L h
  | identifier => exact identifierValue_holds L
  | thisValue => exact .onState fun _ => .ret L.receiver
  | unknown => exact visitUnknown_holds L h
  | number => exact .ret fun _ => L.bare (.number _)
  | string => exact (stringValue_holds L).imp fun _ _ _ _ _ => And.left
  | template => exact templateValue_holds L h
  | regex =>
      exact (Holds.updateWith L.newObject).bind fun _ _ _ _ handle => .ret fun _ => handle false
  | boolean => exact .ret fun _ => L.bare (.bool _)
  | null => exact .ret fun _ => L.bare .null
  | undefined => exact .ret fun _ => L.bare .undefined
  | object => exact objectValue_holds L h
  | array => exact arrayValue_holds L h
  | assignment => exact assignment_holds L h
  | augmentedAssignment => exact augmentedAssignment_holds L h
  | update => exact updateValue_holds L h
  | binary => exact binaryValue_holds L h
  | unary => exact unaryValue_holds L h
  | ternary => exact ternaryValue_holds L h
  | call => exact callExpression_holds L h
  | construct => exact newExpression_holds L h
  | member => exact memberValue_holds L h
  | subscript => exact memberValue_holds L h

/-- The scopes of a rule are brackets around its body, which declares names in them. What may be
bound around them may be bound inside. -/
theorem inRuleScope_holds {rule : Rule} {kind : Kind} {x y : Engine Value}
    {outer : Option Declaration} {names : List String} (may : C.MayBind p outer names)
    (body : ∀ q, C.MayBind q outer names → (∀ d, rule.takes d = true → C.Takes q d) →
      C.Holds q C.Val x y) :
    C.Holds p C.Val (inRuleScope rule kind x) (inRuleScope rule kind y) := by
  have inFunction : ∀ (q : Pair) (d : Declaration),
      (q.map (Bracket.scope .function).enter).left.scopes.any d.goesTo = true := by
    intro q d
    cases d <;> rfl
  unfold inRuleScope
  split
  · refine within_holds L (.scope .function) ?_
    have inside := may.entered L (.scope .function)
    split
    · exact body _ inside fun d _ => L.takes (inFunction p d)
    · refine within_holds L .receiver (body _ (inside.entered L .receiver) fun d _ => ?_)
      exact L.takes (inFunction p d)
  next static =>
    have block : ∀ d, rule.takes d = true → rule.block = true ∧ d ≠ .variable := by
      intro d taken
      rw [Rule.takes, Bool.eq_false_iff.2 static] at taken
      exact (Bool.and_eq_true_iff.1 taken).imp_right of_decide_eq_true
    split
    · refine within_holds L (.scope .block) ?_
      refine body _ (may.entered L (.scope .block)) fun d taken => L.takes ?_
      rcases d with - | - | -
      · exact absurd rfl (block _ taken).2
      · rfl
      · rfl
    next bare => exact body p may fun d taken => absurd (block d taken).1 bare

/-- Running the rule of a node keeps a lawful coupling if the visits below the node do, and if the
names that it declares without a check may be bound. -/
theorem dispatch_holds (h : C.VisitsBelow v w n)
    (may : C.Permits p n := by exact .of_unbounded rfl) :
    C.Holds p C.Val (dispatch v n) (dispatch w n) := by
  unfold dispatch
  split
  · exact visitUnknown_holds L h
  next rule found =>
      refine .bind (?_ : C.Holds p C.Val _ _) fun q _ _ _ value => .ret fun _ => ?_
      · cases acts : rule.action with
        | none =>
            have nothing : C.MayBind p none [] := .assigned
            exact inRuleScope_holds L nothing fun q _ _ => visitBranches_holds L h
        | some action =>
            have outer : C.MayBind p (outerKind? n action) (looseNamesOf n action) := by
              intro d name given mem
              refine may d name ⟨action, ?_, given, mem⟩
              rw [found, Option.bind_some, acts]
            by_cases declares : action = .functionDeclaration
            · subst declares
              obtain ⟨rfl, own⟩ := rule_of_functionDeclaration found acts
              rw [inRuleScope_function own, inRuleScope_function own]
              exact declaredFunction_holds L h outer
            · refine inRuleScope_holds L outer fun q may takes =>
                runAction_holds L h declares may ?_
              exact fun d mem => takes d (Rule.takes_ownDeclarations found acts d mem)
      · split
        · exact value
        · exact L.bare .undefined

omit L in
theorem dispatch_of_string (literal : n.kind = .string) : dispatch v n = stringValue n :=
  dispatch_of_value (by rw [literal]; rfl)

/-- Running the rule of a node gives values of the node. -/
theorem dispatch_at (h : C.VisitsBelow v w n)
    (may : C.Permits p n := by exact .of_unbounded rfl) :
    C.Holds p (C.At n) (dispatch v n) (dispatch w n) := by
  by_cases literal : n.kind = .string
  · rw [dispatch_of_string literal, dispatch_of_string literal]
    exact stringValue_holds L
  · exact (dispatch_holds L h may).imp fun _ _ _ _ _ value =>
      ⟨value, fun same => absurd same literal⟩

end AddonAudit.Script.Engine
