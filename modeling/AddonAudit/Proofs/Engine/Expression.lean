import AddonAudit.Proofs.Engine.Chain
import AddonAudit.Proofs.Engine.Target

/-!
# Coupled expressions

Literals, assignments, operators and calls keep a lawful coupling if the visits of their parts do.
-/

namespace AddonAudit.Script.Engine

open Coupling

variable {C : Coupling} {p : Pair} {v w : Visit} {n : Node}

section Literals

variable (L : C.Lawful)

include L

theorem identifierValue_holds : C.Holds p C.Val (identifierValue n) (identifierValue n) := by
  unfold identifierValue
  split
  · exact .ret fun _ => L.bare .undefined
  · exact .ret fun _ => L.bare (.number _)
  · exact .ret fun _ => L.bare (.number _)
  · exact seekVariable_holds L

/-- The records that both runs make for a literal may be carried by its values. -/
theorem checkPreference_holds {literal : String} :
    C.Holds p (fun q a b => ∀ text, C.At n q { Value.string text with provisional := a }
      { Value.string text with provisional := b }) (checkPreference literal n)
      (checkPreference literal n) := by
  unfold checkPreference
  split
  · exact .ret fun _ text => ⟨L.bare (.string text), fun _ => L.literal text⟩
  · refine (findingAt_holds L).bind ?_
    rintro q finding _ - ⟨rfl, here, own⟩
    exact recordPreference_holds L here own

theorem reportTests_holds {tests : List PatternTest} (known : ∀ t ∈ tests, t ∈ Battery.literals) :
    C.Holds p Same (reportTests n tests) (reportTests n tests) := by
  induction tests generalizing p with
  | nil => exact .ret fun _ => rfl
  | cons t rest ih =>
      obtain ⟨first, others⟩ := List.forall_mem_cons.1 known
      refine (findingAt_holds L).bind ?_
      rintro q finding _ - ⟨rfl, here, own⟩
      have warranted : C.Warrants (t.decorate finding) :=
        .inl (own ▸ List.mem_append_right _ (List.mem_map_of_mem first))
      exact (record_holds L (f := t.decorate finding) here warranted).bind
        fun _ _ _ _ _ => ih others

omit L in
/-- The tests that match a literal are tests for literals. -/
theorem mem_of_matching {literal : String} {t : PatternTest} (h : t ∈ Battery.matching literal) :
    t ∈ Battery.literals := by
  unfold Battery.matching at h
  split at h
  · cases h
  · exact (List.mem_filter.1 h).1

theorem stringValue_holds : C.Holds p (C.At n) (stringValue n) (stringValue n) := by
  refine (checkPreference_holds L).bind fun q _ _ _ carried => ?_
  refine (reportTests_holds L fun _ => mem_of_matching).bind fun r _ _ step _ => ?_
  exact .ret fun _ => (carried _).mono step

theorem templatePieces_holds {d : Draft} {nodes : List Node} (h : ∀ c ∈ nodes, C.Visits v w c) :
    C.Holds p Same (templatePieces v n d nodes) (templatePieces w n d nodes) := by
  induction nodes generalizing p d with
  | nil => exact .ret fun _ => rfl
  | cons c rest ih =>
      have tail : ∀ c ∈ rest, C.Visits v w c := fun c' mem => h c' (List.mem_cons_of_mem c mem)
      rw [templatePieces, templatePieces]
      split
      · refine (h c List.mem_cons_self).here.bind fun q a b _ value => ?_
        simp only [(L.alike value).isDirty]
        split
        · exact ih tail
        · refine onHeap_holds fun inv => ?_
          rw [(L.heap inv).toText (L.alike value)]
          exact ih tail
      · exact ih tail
      · exact ih tail

theorem templateValue_holds (h : C.VisitsBelow v w n) :
    C.Holds p C.Val (templateValue v n) (templateValue w n) := by
  refine (templatePieces_holds L fun c mem => h c (Node.mem_of_parts mem)).bind ?_
  rintro q d _ - rfl
  exact .ret fun _ => L.bare (.ofLiteral _ _)

theorem propertyKey_holds (h : C.Visits v w n) :
    C.Holds p Same (propertyKey v n) (propertyKey w n) := by
  unfold propertyKey
  split
  · exact .ret fun _ => rfl
  · exact .ret fun _ => rfl
  · exact h.here.bind fun _ _ _ _ value => keyName_holds L value
  · exact .ret fun _ => rfl

theorem setProperty_holds {id : ObjectId} {name : String} {a b : Value} (handle : C.Handle p id id)
    (value : C.Val p a b) : C.Holds p Same (setProperty id name a) (setProperty id name b) :=
  .update fun inv => L.setProperty name inv (handle false) rfl value

/-- A part stores its value in the object that both runs have made. -/
theorem objectPart_holds {id : ObjectId} (handle : C.Handle p id id) (h : C.Visits v w n) :
    C.Holds p Same (objectPart v id n) (objectPart w id n) := by
  unfold objectPart
  split
  · cases found : n.child? .key with
    | none => exact .ret fun _ => rfl
    | some key =>
        refine (propertyKey_holds L (h.below.child found)).bind ?_
        rintro q name _ step rfl
        refine (valueAs_holds L h.below .undefined).bind fun r _ _ step' value => ?_
        exact setProperty_holds L (handle.mono (C.trans step step')) value
  · refine (seekVariable_holds L).bind fun q _ _ step value => ?_
    exact setProperty_holds L (handle.mono step) value
  · refine h.here.bind fun q _ _ step value => ?_
    cases found : n.child? .name with
    | none => exact .ret fun _ => rfl
    | some key =>
        refine (propertyKey_holds L (h.below.child found)).bind ?_
        rintro r name _ step' rfl
        exact setProperty_holds L (handle.mono (C.trans step step')) (C.mono value step')
  · exact h.here.bind fun _ _ _ _ _ => .ret fun _ => rfl

theorem objectParts_holds {id : ObjectId} {nodes : List Node} (handle : C.Handle p id id)
    (h : ∀ c ∈ nodes, C.Visits v w c) :
    C.Holds p Same (objectParts v id nodes) (objectParts w id nodes) := by
  induction nodes generalizing p with
  | nil => exact .ret fun _ => rfl
  | cons n rest ih =>
      refine (objectPart_holds L handle (h n List.mem_cons_self)).bind fun q _ _ step _ => ?_
      exact ih (handle.mono step) fun c mem => h c (List.mem_cons_of_mem n mem)

/-- Both runs make the object under the same number before its parts are visited. -/
theorem objectValue_holds (h : C.VisitsBelow v w n) :
    C.Holds p C.Val (objectValue v n) (objectValue w n) := by
  refine (Holds.updateWith L.newObject).bind fun q id id' _ handle => ?_
  obtain rfl := handle.eq L
  have parts := objectParts_holds L handle fun c mem => h c (Node.mem_of_parts mem)
  exact parts.bind fun r _ _ step _ => .ret fun _ => handle.mono step false

omit L in
theorem elementValues_holds {nodes : List Node} (h : ∀ c ∈ nodes, C.Visits v w c) :
    C.Holds p C.Args (elementValues v nodes) (elementValues w nodes) := by
  induction nodes generalizing p with
  | nil => exact .ret fun _ => .nil
  | cons n rest ih =>
      have tail : ∀ c ∈ rest, C.Visits v w c := fun c mem => h c (List.mem_cons_of_mem n mem)
      rw [elementValues, elementValues]
      split
      · exact ih tail
      · refine (h n List.mem_cons_self).at_node.bind fun q _ _ _ value => ?_
        refine (ih tail).bind fun r _ _ step values => .ret fun _ => ?_
        exact .cons ⟨rfl, value.mono step⟩ values

theorem arrayValue_holds (h : C.VisitsBelow v w n) :
    C.Holds p C.Val (arrayValue v n) (arrayValue w n) := by
  refine (elementValues_holds fun c mem => h c (Node.mem_of_parts mem)).bind ?_
  intro q values values' _ related
  have seconds : List.Forall₂ (C.Val q) (values.map Prod.snd) (values'.map Prod.snd) := by
    rw [List.forall₂_map_left_iff, List.forall₂_map_right_iff]
    exact related.imp fun _ _ both => both.2.1
  refine (Holds.updateWith fun inv => L.newArray inv seconds).bind fun r _ _ _ handle => ?_
  exact .ret fun _ => handle false

end Literals

section Expressions

variable (L : C.Lawful)

include L

/-- Both operands are children, and without one of them all parts are visited. -/
theorem withBoth_holds {step step' : Node → Node → Engine Value} (h : C.VisitsBelow v w n)
    (both : ∀ left right, C.Visits v w left → C.Visits v w right →
      C.Holds p C.Val (step left right) (step' left right)) :
    C.Holds p C.Val (withBoth v n step) (withBoth w n step') := by
  unfold withBoth
  split
  next left right foundLeft foundRight =>
      exact both left right (h.child foundLeft) (h.child foundRight)
  next => exact visitUnknown_holds L h

theorem assignment_holds (h : C.VisitsBelow v w n) :
    C.Holds p C.Val (assignment v n) (assignment w n) := by
  refine withBoth_holds L h fun left right visitLeft visitRight => ?_
  refine (resolve_holds L visitLeft).bind fun q _ _ _ place => ?_
  refine visitRight.here.bind fun r _ _ step value => ?_
  refine (assign_holds L (place.mono step) value).bind fun t _ _ step' _ => ?_
  exact .ret fun _ => C.mono value step'

theorem augmentedAssignment_holds (h : C.VisitsBelow v w n) :
    C.Holds p C.Val (augmentedAssignment v n) (augmentedAssignment w n) := by
  refine withBoth_holds L h fun left right visitLeft visitRight => ?_
  refine (resolve_holds L visitLeft).bind fun q _ _ _ place => ?_
  refine (readTarget_holds L place).bind fun r _ _ step current => ?_
  refine visitRight.here.bind fun t _ _ step' value => ?_
  refine onHeap_holds fun inv => ?_
  have result := Operator.binary_related (L.heap inv) (fun _ => L.bare) L.alike
    (C.mono current step') value (BinaryOp.ofText (augmentedOperator (n.textOf .operator)))
  refine (assign_holds L (place.mono (C.trans step step')) result).bind fun u _ _ step'' _ => ?_
  exact .ret fun _ => C.mono result step''

/-- The values before and after a step are bare. -/
theorem stepTarget_holds {target target' : Target} {current current' : Value}
    (place : C.Place p target target') (value : C.Val p current current') :
    C.Holds p C.Val (stepTarget target current n) (stepTarget target' current' n) := by
  refine onHeap_holds fun inv => ?_
  rw [(L.heap inv).toNumber (L.alike value), (L.alike value).isDirty]
  have bare : ∀ x, (if current'.isDirty then Value.unknown else .number x).IsBare := by
    intro x
    split
    · exact .unknown
    · exact .number x
  refine (assign_holds L place (L.bare (bare _))).bind fun q _ _ _ _ => .ret fun _ => ?_
  split
  · exact L.bare (bare _)
  · exact L.bare (bare _)

theorem updateValue_holds (h : C.VisitsBelow v w n) :
    C.Holds p C.Val (updateValue v n) (updateValue w n) := by
  unfold updateValue
  cases found : n.child? .argument with
  | none => exact visitUnknown_holds L h
  | some argument =>
      refine (resolve_holds L (h.child found)).bind fun q _ _ _ place => ?_
      refine (readTarget_holds L place).bind fun r _ _ step current => ?_
      cases place.mono step with
      | name name => exact stepTarget_holds L (.name name) current
      | member name base => exact stepTarget_holds L (.member name base) current
      | pattern => exact .ret fun _ => L.bare .unknown
      | unknown => exact .ret fun _ => L.bare .unknown

/-- A link visits its right side only. -/
theorem applyLink_holds {left left' : Value} (h : ∀ c, n.child? .right = some c → C.Visits v w c)
    (value : C.Val p left left') :
    C.Holds p C.Val (applyLink v left n) (applyLink w left' n) := by
  refine (valueAs_holds_of_child L h .unknown).bind fun q right right' step other => ?_
  refine onHeap_holds fun inv => .ret fun _ => ?_
  exact Operator.binary_related (L.heap inv) (fun _ => L.bare) L.alike (C.mono value step) other _

end Expressions

mutual

/-- A chain keeps the coupling, link by link down the left sides. -/
theorem bareChainValue_holds (L : C.Lawful) : ∀ {n : Node} {p : Pair}, C.VisitsBelow v w n →
    C.Holds p C.Val (bareChainValue v n) (bareChainValue w n)
  | ⟨kind, role, id, start, text, missing, children⟩, p, h => by
      rw [bareChainValue, bareChainValue, chainValue, chainValue]
      refine (chainLeft_holds L h).bind fun _ _ _ _ left => ?_
      exact applyLink_holds L (fun _ => h.child) left

theorem chainLeft_holds (L : C.Lawful) : ∀ {nodes : List Node} {p : Pair},
    (∀ c ∈ nodes, C.Visits v w c) →
      C.Holds p C.Val (chainLeft (fun _ x => x) v nodes) (chainLeft (fun _ x => x) w nodes)
  | [], p, _ => .ret fun _ => L.bare .unknown
  | n :: rest, p, h => by
      have head := h n List.mem_cons_self
      rw [chainLeft, chainLeft]
      split
      · split
        · exact bareChainValue_holds L head.below
        · exact head.here
      · exact chainLeft_holds L fun c mem => h c (List.mem_cons_of_mem n mem)

end

section Calls

variable (L : C.Lawful)

include L

theorem binaryValue_holds (h : C.VisitsBelow v w n) :
    C.Holds p C.Val (binaryValue v n) (binaryValue w n) := by
  rw [binaryValue_eq_bareChainValue, binaryValue_eq_bareChainValue]
  exact bareChainValue_holds L h

theorem unaryValue_holds (h : C.VisitsBelow v w n) :
    C.Holds p C.Val (unaryValue v n) (unaryValue w n) := by
  refine (valueAs_holds L h .unknown).bind fun q operand operand' _ value => ?_
  refine onHeap_holds fun inv => .ret fun _ => ?_
  rw [Operator.unary_congr (L.heap inv) (L.alike value)]
  exact L.bare (Operator.unary_isBare ..)

/-- Both branches are visited, so which one is chosen does not change the states. -/
theorem ternaryValue_holds (h : C.VisitsBelow v w n) :
    C.Holds p C.Val (ternaryValue v n) (ternaryValue w n) := by
  refine (valueAs_holds L h .unknown).bind fun q condition condition' _ test => ?_
  refine (valueAs_holds L h .unknown).bind fun r _ _ _ consequence => ?_
  refine (valueAs_holds L h .unknown).bind fun t _ _ step alternative => ?_
  rw [(L.alike test).isDirty, (L.alike test).truthy]
  split
  · exact .ret fun _ => L.bare .unknown
  · refine .ret fun _ => ?_
    split
    · exact C.mono consequence step
    · exact alternative

omit L in
theorem argumentValues_holds (h : C.VisitsBelow v w n) :
    C.Holds p C.Args (argumentValues v n) (argumentValues w n) := by
  unfold argumentValues
  cases found : n.child? .arguments with
  | none => exact .ret fun _ => .nil
  | some list =>
      have visits := h.child found
      simp only
      split
      · exact elementValues_holds fun c mem => by rwa [List.mem_singleton.1 mem]
      · exact elementValues_holds fun c mem => visits.below c (Node.mem_of_parts mem)

theorem calleeValue_holds (h : C.Visits v w n) :
    C.Holds p C.Val (calleeValue v n) (calleeValue w n) := by
  unfold calleeValue
  split
  case h_3 => exact h.here
  all_goals
    refine (memberTarget_holds L h.below).bind ?_
    rintro q ⟨base, name⟩ ⟨base', _⟩ - ⟨related, rfl⟩
    exact getMember_holds L related

theorem callExpression_holds (h : C.VisitsBelow v w n) :
    C.Holds p C.Val (callExpression v n) (callExpression w n) := by
  unfold callExpression
  cases found : n.child? .function with
  | none => exact visitUnknown_holds L h
  | some callee =>
      refine (calleeValue_holds L (h.child found)).bind fun q _ _ _ called => ?_
      refine (argumentValues_holds h).bind fun r _ _ step args => ?_
      exact callValue_holds L (C.mono called step) args

theorem newExpression_holds (h : C.VisitsBelow v w n) :
    C.Holds p C.Val (newExpression v n) (newExpression w n) := by
  refine (valueAs_holds L h .unknown).bind fun q _ _ _ called => ?_
  refine (argumentValues_holds h).bind fun r _ _ step args => ?_
  refine (Holds.updateWith L.newObject).bind fun t _ _ step' handle => ?_
  rw [(L.alike called).entity]
  split
  · exact callValue_holds L (C.mono called (C.trans step step')) (args.mono step')
  · exact .ret fun _ => handle false

theorem memberValue_holds (h : C.VisitsBelow v w n) :
    C.Holds p C.Val (memberValue v n) (memberValue w n) := by
  refine (memberTarget_holds L h).bind ?_
  rintro q ⟨base, name⟩ ⟨base', _⟩ - ⟨related, rfl⟩
  exact getMember_holds L related

end Calls

end AddonAudit.Script.Engine
