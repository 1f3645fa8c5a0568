import AddonAudit.Proofs.Engine.FirstVisits

/-!
# Statements and rules make first visits

If the visits below a node are first visits, running the rule of the node makes first visits, and so
does evaluating the node.
-/

namespace AddonAudit.Script.Engine

open Node hiding id

variable {env : Env} {May : Fault → Prop} {visit : Visit} {n : Node}

section Statements

theorem newFunction_once {ids : List Nat} : Once env May ids newFunction :=
  .ofHolds fun _ => newFunction_holds quiet_lawful

theorem declareName_once {ids : List Nat} {f : Value} {d : Declaration} :
    Once env May ids ((n.child? .name).forM fun name => declare name.text f d) :=
  .ofHolds fun _ => declareName_holds quiet_lawful (quiet_val f)

theorem givenValue?_once (h : VisitsOnceBelow env May visit n) :
    Once env May (idsAs .value n.children) (givenValue? visit n) := by
  unfold givenValue?
  cases found : n.child? .value with
  | none => exact .ret _
  | some c =>
      exact ((h.part found).here.subset (ids_subset_idsAs found)).before fun _ => .ret _

theorem declarator_once {d : Declaration} (h : VisitsOnceBelow env May visit n) :
    Once env May (idsAll n.children) (declarator visit d n) := by
  refine .forM fun name found => ?_
  refine .inRoles (.inRole h.distinct (by decide) (givenValue?_once h) fun given => ?_)
  split
  · refine .ofHolds fun _ => declareGiven_holds quiet_lawful ?_
    exact Coupling.related_self fun v _ => quiet_val v
  · have bound := (bind_once (d := some d) (h.part found)).subset (ids_subset_idsAs found)
    exact .inLastRole (by decide) bound

theorem declarators_once {d : Declaration} {nodes : List Node} (apart : Apart nodes)
    (h : ∀ c ∈ nodes, VisitsOnce env May visit c) :
    Once env May (idsAll nodes) (declarators visit d nodes) := by
  refine .each rfl (fun _ _ => rfl) apart fun c mem => .when ?_
  exact (declarator_once (h c mem).below).subset (idsAll_children_subset c)

theorem declaration_once {d : Declaration} (h : VisitsOnceBelow env May visit n) :
    Once env May (idsAll n.children) (declaration visit d n) := by
  have declared := (declarators_once (d := d) h.apart h.parts).subset (idsAll_parts_subset n)
  exact declared.before fun _ => .ret _

/-- A function binds a single parameter or a list of them before its body. -/
theorem functionBody_once {used : List Role} (h : VisitsOnceBelow env May visit n)
    (new : Role.parameter ∉ used ∧ Role.parameters ∉ used ∧ Role.body ∉ used) :
    Once env May (idsExcept used n.children) (functionBody visit n) := by
  obtain ⟨single, many, body⟩ := new
  have first : Once env May (idsAs .parameter n.children)
      (bindAs visit (some .variable) .parameter n.children) := bindAs_once fun c mem => h.child mem
  have list : Once env May (idsAs .parameters n.children)
      ((n.child? .parameters).forM fun list => bindEach visit (some .variable) list.parts) := by
    refine .forM fun list found => Once.subset ?_ (ids_subset_idsAs found)
    have visits := (h.part found).below
    refine (bindEach_once visits.apart visits.parts).subset fun _ mem => ?_
    exact idsAll_children_subset list (idsAll_parts_subset list mem)
  rw [functionBody, bindParameters, bind_assoc]
  refine .inRole h.distinct single first fun _ => ?_
  refine .inRole h.distinct ?_ list fun _ => ?_
  · simpa using many
  · exact .inLastRole (by simpa using body) (visitAs_once h)

theorem functionDeclaration_once (h : VisitsOnceBelow env May visit n) :
    Once env May (idsAll n.children) (functionDeclaration visit n) := by
  refine newFunction_once.after fun f => ?_
  have named : Once env May [] ((n.child? .name).forM fun name => declareFunction name.text f) :=
    .forM fun name _ => .updateWith fun _ => rfl
  refine named.after fun _ => ?_
  exact (Once.inRoles (functionBody_once h (by decide))).before fun _ => .ret f

theorem functionExpression_once (h : VisitsOnceBelow env May visit n) :
    Once env May (idsAll n.children) (functionExpression visit n) := by
  refine newFunction_once.after fun f => declareName_once.after fun _ => ?_
  exact (Once.inRoles (functionBody_once h (by decide))).before fun _ => .ret f

theorem arrowFunction_once (h : VisitsOnceBelow env May visit n) :
    Once env May (idsAll n.children) (arrowFunction visit n) := by
  refine newFunction_once.after fun f => ?_
  exact (Once.inRoles (functionBody_once h (by decide))).before fun _ => .ret f

theorem methodDefinition_once (h : VisitsOnceBelow env May visit n) :
    Once env May (idsAll n.children) (methodDefinition visit n) := by
  refine newFunction_once.after fun f => ?_
  refine .inRoles (.inRole h.distinct (by decide) (visitComputed_once h) fun _ => ?_)
  exact (functionBody_once h (by decide)).before fun _ => .ret f

theorem classExpression_once (h : VisitsOnceBelow env May visit n) :
    Once env May (idsAll n.children) (classExpression visit n) := by
  have apart : Apart (classParts n) := by
    unfold classParts
    split
    · exact h.apart.sublist List.filter_sublist
    · exact h.apart
  have visited := visitEach_once apart fun c mem => h.child (mem_of_classParts mem)
  exact (visited.subset (idsAll_subset fun _ => mem_of_classParts)).before fun _ => newFunction_once

theorem classDeclaration_once (h : VisitsOnceBelow env May visit n) :
    Once env May (idsAll n.children) (classDeclaration visit n) :=
  (classExpression_once h).before fun _ => declareName_once.before fun _ => .ret _

theorem forIn_once (h : VisitsOnceBelow env May visit n) :
    Once env May (idsAll n.children) (forIn visit n) := by
  refine .inRoles (.inRole h.distinct (by decide) (visitAs_once h) fun _ => ?_)
  refine .inRole h.distinct (by decide) (bindAs_once fun c mem => h.child mem) fun _ => ?_
  exact (Once.inLastRole (by decide) (visitAs_once h)).before fun _ => .ret _

theorem catchClause_once (h : VisitsOnceBelow env May visit n) :
    Once env May (idsAll n.children) (catchClause visit n) := by
  refine .inRoles
    (.inRole h.distinct (by decide) (bindAs_once fun c mem => h.child mem) fun _ => ?_)
  exact (Once.inLastRole (by decide) (visitAs_once h)).before fun _ => .ret _

theorem ifStatement_once (h : VisitsOnceBelow env May visit n) :
    Once env May (idsAll n.children) (ifStatement visit n) := by
  have visits : ∀ r ∈ rungs n, VisitsOnce env May visit r := by
    intro r mem
    obtain ⟨c, child, deeper⟩ := below_of_mem_rungs mem
    refine ⟨(h.distinct.child child).inside deeper, fun m inside => ?_⟩
    exact h.visits c child m (inside.trans deeper)
  have below : idsAll (rungs n) ⊆ idsAll n.children := by
    intro id mem
    obtain ⟨r, found, inside⟩ := mem_idsAll.1 mem
    obtain ⟨c, child, deeper⟩ := below_of_mem_rungs found
    exact mem_idsAll.2 ⟨c, child, deeper.ids_subset inside⟩
  rw [ifStatement_eq_visitEach]
  exact ((visitEach_once (apart_rungs h.distinct) visits).subset below).before fun _ => .ret _

end Statements

section Rules

/-- Every action makes first visits, if the methods of an object literal do. -/
theorem runAction_once {action : Action} (h : VisitsOnceBelow env May visit n)
    (methods : action = .object → ∀ id, ∀ m ∈ n.parts, m.kind = .methodDefinition →
      Once env May m.ids (objectPart visit id m)) :
    Once env May (idsAll n.children) (runAction visit n action) := by
  cases action with
  | ifStatement => exact ifStatement_once h
  | forIn => exact forIn_once h
  | catchClause => exact catchClause_once h
  | importStatement => exact .ofHolds fun _ => importStatement_holds quiet_lawful
  | variableDeclaration => exact declaration_once h
  | lexicalDeclaration => exact declaration_once h
  | functionDeclaration => exact functionDeclaration_once h
  | functionExpression => exact functionExpression_once h
  | arrowFunction => exact arrowFunction_once h
  | methodDefinition => exact methodDefinition_once h
  | classDeclaration => exact classDeclaration_once h
  | classExpression => exact classExpression_once h
  | identifier => exact .ofHolds fun _ => identifierValue_holds quiet_lawful
  | thisValue => exact .onState fun s => .ret s.receiver
  | unknown => exact visitUnknown_once h
  | number => exact .ret _
  | string => exact .ofHolds fun _ => stringValue_holds quiet_lawful
  | template => exact templateValue_once h
  | regex => exact onHeap_once.before fun _ => .ret _
  | boolean => exact .ret _
  | null => exact .ret _
  | undefined => exact .ret _
  | object => exact objectValue_once h (methods rfl)
  | array => exact arrayValue_once h
  | assignment => exact assignment_once h
  | augmentedAssignment => exact augmentedAssignment_once h
  | update => exact updateValue_once h
  | binary => exact binaryValue_once h
  | unary => exact unaryValue_once h
  | ternary => exact ternaryValue_once h
  | call => exact callExpression_once h
  | construct => exact newExpression_once h
  | member => exact memberValue_once h
  | subscript => exact memberValue_once h

theorem inRuleScope_once {ids : List Nat} {rule : Rule} {kind : Kind} {x : Engine Value}
    (h : Once env May ids x) : Once env May ids (inRuleScope rule kind x) := by
  unfold inRuleScope
  split
  · refine .within (.scope .function) ?_
    split
    · exact h
    · exact .within .receiver h
  · split
    · exact .within (.scope .block) h
    · exact h

/-- Only object literals are evaluated as such. -/
theorem kind_of_object {kind : Kind} {rule : Rule} (found : kind.rule? = some rule)
    (acts : rule.action = some .object) : kind = .object := by
  cases kind <;> cases found <;> cases acts
  rfl

/-- Running the rule of a node makes first visits below the node. -/
theorem dispatch_once (h : VisitsOnceBelow env May visit n)
    (methods : n.kind = .object → ∀ id, ∀ m ∈ n.parts, m.kind = .methodDefinition →
      Once env May m.ids (objectPart visit id m)) :
    Once env May (idsAll n.children) (dispatch visit n) := by
  unfold dispatch
  split
  · exact visitUnknown_once h
  next rule found =>
      refine (inRuleScope_once ?_).before fun _ => .ret _
      split
      next action acts =>
          refine runAction_once h fun isObject => methods (kind_of_object found ?_)
          rw [acts, isObject]
      next => exact visitBranches_once h fun roles named => nodup_of_rule found named

/-- Evaluating a node keeps its value after the first visits below it. -/
theorem evaluateOnce_once {x : Engine Value} (late : May .timeout) (deep : May .depthExceeded)
    (h : Once env May (idsAll n.children) x) :
    Once env May n.ids (evaluateOnce n x) := by
  intro s free
  have here : n.id ∈ n.ids := (Within.self n).mem_ids
  rw [runFrom_evaluateOnce, free.kept? here]
  simp only
  split
  · exact ⟨.of_eq rfl, nofun⟩
  rw [runFrom_evaluate]
  split
  · refine ⟨.of_eq rfl, fun e same => ?_⟩
    cases same
    exact late
  split
  · refine ⟨.of_eq rfl, fun e same => ?_⟩
    cases same
    exact deep
  have below : Free (idsAll n.children) s.count.2.enterLevel :=
    (free.subset (idsAll_children_subset n)).of_eq rfl
  obtain ⟨inside, may⟩ := h _ below
  have entered : KeptInside (· ∈ n.ids) s s.count.2.enterLevel := .of_eq rfl
  have left : ∀ t : State, KeptInside (· ∈ n.ids) t t.leaveLevel := fun _ => .of_eq rfl
  have inside' := entered.trans (inside.subset (idsAll_children_subset n))
  generalize runFrom env s.count.2.enterLevel x = ran at inside' may
  rcases ran with ⟨e | v, t⟩
  · refine ⟨inside'.trans (left t), fun e' same => ?_⟩
    cases same
    exact may e rfl
  · exact ⟨inside'.trans ((left t).trans (.keep here v)), nofun⟩

end Rules

end AddonAudit.Script.Engine
