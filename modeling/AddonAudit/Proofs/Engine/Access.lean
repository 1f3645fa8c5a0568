import AddonAudit.Proofs.Engine.Lawful
import AddonAudit.Script.Engine.Access

/-!
# Coupled reads, writes and calls

Hooks decide alike on both sides of a lawful coupling, and reading, writing and calling keep it.
-/

namespace AddonAudit.Script

open Engine Coupling

variable {C : Coupling} {p : Pair} (L : C.Lawful)

/-- Decisions of hooks that stand for each other. -/
inductive Coupling.Decision (C : Coupling) (p : Pair) : Outcome → Outcome → Prop where
  | silent : C.Decision p .silent .silent
  | flag (advice : Advice) : C.Decision p (.flag advice) (.flag advice)
  | value {v w : Value} : C.Val p v w → C.Decision p (.value v) (.value w)

/-- Arguments that stand for each other: values of the same nodes. -/
abbrev Coupling.Args (C : Coupling) (p : Pair) : Arguments → Arguments → Prop :=
  List.Forall₂ fun a b => a.1 = b.1 ∧ C.At a.1 p a.2 b.2

theorem Coupling.Args.mono {q : Pair} {args args' : Arguments} (h : C.Args p args args')
    (step : C.Step p q) : C.Args q args args' :=
  h.imp fun _ _ ⟨node, value⟩ => ⟨node, value.mono step⟩

theorem Coupling.Args.get? {args args' : Arguments} (h : C.Args p args args') (index : Nat) :
    Option.Rel (C.Val p) (Arguments.get? args index) (Arguments.get? args' index) := by
  induction h generalizing index with
  | nil => exact .none
  | cons head _ ih =>
      cases index with
      | zero => exact .some head.2.1
      | succ index => exact ih index

/-- An entity within reach stands for itself. -/
theorem Coupling.Lawful.ofEntity {id : EntityId} (L : C.Lawful) (known : C.reach.Entity id) :
    C.Val p (.ofEntity id) (.ofEntity id) := by
  refine L.plain (.ofEntity id) ⟨fun same => ?_, fun setter => ?_, fun unwrapped => ?_⟩
  · cases same
    exact known
  · cases setter
  · cases unwrapped

/-- The entity of a value is within reach. -/
theorem Coupling.Lawful.entity {v w : Value} {id : EntityId} (L : C.Lawful) (value : C.Val p v w)
    (found : v.entity = some id) : C.reach.Entity id :=
  (L.closed.admits value).entity found

namespace Hook

include L

theorem returnsInterface_holds {name : String} :
    C.Holds p C.Decision (returnsInterface name) (returnsInterface name) := by
  refine onRegistry_holds L ?_
  split
  next found => exact .ret fun _ => .value (L.ofEntity (L.closed.entities.lookup? found))
  · exact .ret fun _ => .silent

theorem typedByInterface_holds {args args' : Arguments} (related : C.Args p args args') :
    C.Holds p C.Decision (typedByInterface args) (typedByInterface args') := by
  have same : (args.get? 0).bind (·.entity) = (args'.get? 0).bind (·.entity) := by
    cases related with
    | nil => rfl
    | cons head _ => exact (L.alike head.2.1).entity
  have known : ∀ id, (args'.get? 0).bind (·.entity) = some id → C.reach.Entity id := by
    intro id found
    rw [← same] at found
    obtain ⟨v, given, entity⟩ := Option.bind_eq_some_iff.1 found
    obtain ⟨w, value⟩ := related_left (related.get? 0) given
    exact L.entity value entity
  rw [typedByInterface, typedByInterface, same]
  split
  next id found =>
    refine onRegistry_holds L ?_
    split
    · exact .ret fun _ => .value (L.ofEntity (known id found))
    · exact .ret fun _ => .silent
  · exact .ret fun _ => .silent

theorem dropInlineLiterals_holds {args args' : Arguments} (related : C.Args p args args') :
    C.Holds p Same (dropInlineLiterals args) (dropInlineLiterals args') := by
  induction args generalizing p args' with
  | nil =>
      cases related with
      | nil => exact .ret fun _ => rfl
  | cons a args ih =>
      cases related with
      | cons head tail =>
          obtain ⟨same, value, literal⟩ := head
          refine (Holds.when (by rw [same]) fun inline => ?_).bind ?_
          · exact dropProvisional_holds L value (literal (of_decide_eq_true inline))
          · exact fun q _ _ step _ => ih (Args.mono tail step)

theorem writesPreference_holds {args args' : Arguments} (related : C.Args p args args') :
    C.Holds p C.Decision (writesPreference args) (writesPreference args') := by
  refine (dropInlineLiterals_holds L related).bind fun q _ _ step _ => ?_
  have first := (related.mono step).get? 0
  generalize args.get? 0 = a, args'.get? 0 = b at first
  cases first with
  | none => exact .ret fun _ => .silent
  | some value =>
      simp only [(L.alike value).isDirty]
      split
      · exact .ret fun _ => .silent
      · refine onHeap_holds fun inv => ?_
        simp only [(L.heap inv).toText (L.alike value)]
        split
        · exact .ret fun _ => .silent
        · exact .ret fun _ => .flag _

theorem setsAttribute_holds {args args' : Arguments} (related : C.Args p args args') :
    C.Holds p C.Decision (setsAttribute args) (setsAttribute args') := by
  have first := related.get? 0
  unfold setsAttribute
  generalize args.get? 0 = a, args'.get? 0 = b at first
  cases first with
  | none => exact .ret fun _ => .silent
  | some value =>
      refine onHeap_holds fun inv => ?_
      simp only [(L.heap inv).toText (L.alike value), (L.alike value).isDirty]
      split
      · exact .ret fun _ => .silent
      · exact .ret fun _ => .flag _

theorem createsElement_holds {tag tag' : Option Value} (related : Option.Rel (C.Val p) tag tag') :
    C.Holds p C.Decision (createsElement tag) (createsElement tag') := by
  cases related with
  | none => exact .ret fun _ => .silent
  | some value =>
      simp only [createsElement, (L.alike value).isDirty]
      split
      · exact .ret fun _ => .flag _
      · refine onHeap_holds fun inv => ?_
        simp only [(L.heap inv).toText (L.alike value)]
        split
        · exact .ret fun _ => .flag _
        · exact .ret fun _ => .silent

/-- A test that does not tell values apart that look alike answers alike for arguments. -/
theorem any_congr {test : Value → Bool} (blind : ∀ v w : Value, v.Alike w → test v = test w)
    {o o' : Option Value} (related : Option.Rel (C.Val p) o o') : o.any test = o'.any test := by
  cases related with
  | none => rfl
  | some value => exact blind _ _ (L.alike value)

theorem insertsMarkup_related {args args' : Arguments} (related : C.Args p args args') :
    C.Decision p (insertsMarkup args) (insertsMarkup args') := by
  rw [insertsMarkup, insertsMarkup, any_congr L (fun _ _ alike => alike.isDirty) (related.get? 1)]
  split
  · exact .flag _
  · exact .silent

theorem addsListener_related {args args' : Arguments} (related : C.Args p args args') :
    C.Decision p (addsListener args) (addsListener args') := by
  have blind : ∀ v w : Value, v.Alike w →
      (!v.isDirty && v.truthy) = (!w.isDirty && w.truthy) := by
    intro v w alike
    rw [alike.isDirty, alike.truthy]
  rw [addsListener, addsListener, any_congr L blind (related.get? 3)]
  split
  · exact .flag _
  · exact .silent

/-- At a call, hooks decide alike. -/
theorem onCall_holds {hook : CallHook} {args args' : Arguments} (related : C.Args p args args') :
    C.Holds p C.Decision (onCall hook args) (onCall hook args') := by
  cases hook with
  | typedByInterface => exact typedByInterface_holds L related
  | returnsInterface name => exact returnsInterface_holds L
  | writesPreference => exact writesPreference_holds L related
  | readsPreference =>
      exact (dropInlineLiterals_holds L related).bind fun _ _ _ _ _ => .ret fun _ => .silent
  | setsAttribute => exact setsAttribute_holds L related
  | createsElement argument => exact createsElement_holds L (related.get? argument)
  | insertsMarkup => exact .ret fun _ => insertsMarkup_related L related
  | addsListener => exact .ret fun _ => addsListener_related L related

theorem setsMarkup_holds {name : String} {v w : Value} (value : C.Val p v w) :
    C.Holds p C.Decision (setsMarkup name v) (setsMarkup name w) := by
  simp only [setsMarkup, (L.alike value).isDirty]
  split
  · exact .ret fun _ => .flag _
  · refine onHeap_holds fun inv => ?_
    simp only [(L.heap inv).toText (L.alike value)]
    split
    · exact .ret fun _ => .flag _
    · exact .ret fun _ => .silent

/-- At a write, hooks decide alike. -/
theorem onSet_holds {hook : SetHook} {name : String} {v w : Value} (value : C.Val p v w) :
    C.Holds p C.Decision (onSet hook name v) (onSet hook name w) := by
  cases hook with
  | extendsPrototype => exact .ret fun _ => .flag _
  | setsHandler =>
      simp only [onSet, (L.alike value).isString]
      split
      · exact .ret fun _ => .flag _
      · exact .ret fun _ => .silent
  | setsMarkup => exact setsMarkup_holds L value
  | exposesProperties => exact .ret fun _ => .flag _
  | changesEngine => exact .ret fun _ => .flag _

theorem danger?_holds {check : DangerCheck} {args args' : Arguments}
    (related : C.Args p args args') :
    C.Holds p Same (danger? check args) (danger? check args') := by
  cases check with
  | stringTimer =>
      simp only [danger?, any_congr L (fun _ _ alike => alike.isString) (related.get? 0)]
      split
      · exact .ret fun _ => rfl
      · exact .ret fun _ => rfl
  | insecureRequest =>
      have second := related.get? 1
      unfold danger?
      generalize args.get? 1 = a, args'.get? 1 = b at second
      cases second with
      | none => exact .ret fun _ => rfl
      | some value =>
          simp only [(L.alike value).isDirty]
          split
          · exact .ret fun _ => rfl
          · refine onHeap_holds fun inv => ?_
            simp only [(L.heap inv).toText (L.alike value)]
            split
            · exact .ret fun _ => rfl
            · exact .ret fun _ => rfl

end Hook

/-- Targets of an assignment that stand for each other. -/
inductive Coupling.Place (C : Coupling) (p : Pair) : Target → Target → Prop where
  | name (name : String) : C.Place p (.variable name) (.variable name)
  | member {base base' : Value} (name : String) : C.Val p base base' →
      C.Place p (.member base name) (.member base' name)
  | pattern : C.Place p .pattern .pattern
  | unknown : C.Place p .unknown .unknown

theorem Coupling.Place.mono {q : Pair} {t t' : Target} (h : C.Place p t t') (step : C.Step p q) :
    C.Place q t t' := by
  cases h with
  | name name => exact .name name
  | member name base => exact .member name (C.mono base step)
  | pattern => exact .pattern
  | unknown => exact .unknown

namespace Engine

include L

omit L in
theorem valueOf_isPlain (entity : EntityId) (b : Behavior) : (valueOf entity b).IsPlain := by
  unfold valueOf
  split
  · exact ⟨rfl, rfl⟩
  · exact ⟨rfl, rfl⟩

omit L in
/-- The value of an entity refers to no other entity. -/
theorem valueOf_admitted {entity : EntityId} (known : C.reach.Entity entity) (b : Behavior) :
    C.reach.Admits (valueOf entity b) := by
  unfold valueOf
  split
  · refine ⟨fun held => ?_, fun setter => ?_, fun unwrapped => ?_⟩
    · cases held
    · cases setter
    · cases unwrapped
  · refine ⟨fun same => ?_, fun setter => ?_, fun unwrapped => ?_⟩
    · cases same
      exact known
    · cases setter
    · cases unwrapped

/-- The value of an entity is plain, and the same on both sides. -/
theorem entityValue_holds {entity : EntityId} {n : Node} (known : C.reach.Entity entity) :
    C.Holds p (fun _ v w => v = w ∧ v.IsPlain ∧ C.reach.Admits v) (entityValue entity n)
      (entityValue entity n) := by
  have target := L.closed.entities.dealias known
  refine onRegistry_holds L ?_
  refine (Holds.when rfl fun reported => flag_holds L ?_).bind fun q _ _ _ _ => .ret fun _ => ?_
  · refine L.closed.loud target fun quiet => ?_
    rw [quiet.dangerousOnRead] at reported
    cases reported
  · exact ⟨rfl, valueOf_isPlain .., valueOf_admitted target _⟩

/-- A name that is not found is that of an entity, or becomes a global that no entity guards. -/
theorem seekVariable_holds {name : String} {n : Node} :
    C.Holds p C.Val (seekVariable name n) (seekVariable name n) := by
  refine .onState fun inv => ?_
  have found := L.find name inv
  generalize left : p.left.find? name = a, right : p.right.find? name = b at found
  cases found with
  | some value => exact .ret fun _ => value
  | none =>
      refine onRegistry_holds L ?_
      split
      next entity global =>
        refine (entityValue_holds L (L.closed.entities.global? global)).imp ?_
        rintro q v _ - - ⟨rfl, plain, admitted⟩
        exact L.plain plain admitted
      next absent =>
        have free : C.reach.Binds p.left none name := by
          refine L.closed.free ?_
          rintro ⟨entity, global, -⟩
          rw [absent] at global
          cases global
        refine (Holds.update fun inv => L.infer name inv left right free).bind ?_
        exact fun q _ _ _ _ => .ret fun _ => L.bare (.ofUnknown _ _)

theorem hookedValue_holds {entity : EntityId} {n : Node} (known : C.reach.Entity entity) :
    C.Holds p (fun _ v w => v = w ∧ v.IsPlain ∧ C.reach.Admits v) (hookedValue entity n)
      (hookedValue entity n) := by
  refine onRegistry_holds L ?_
  cases hooked : (C.left.registry.behavior entity).onGet with
  | none => exact entityValue_holds L known
  | some hook =>
      cases hook with
      | unwraps =>
          have alarm : C.reach.Alarm := by
            refine L.closed.loud known fun quiet => ?_
            rw [quiet.onGet] at hooked
            cases hooked
          refine .ret fun _ => ⟨rfl, ⟨rfl, rfl⟩, fun held => ?_, fun setter => ?_, fun _ => alarm⟩
          · cases held
          · cases setter

theorem readEntity_holds {entity : EntityId} {n : Node} (known : C.reach.Entity entity) :
    C.Holds p C.Val (readEntity entity n) (readEntity entity n) := by
  refine onRegistry_holds L ?_
  refine (hookedValue_holds L known).bind ?_
  rintro q v _ - ⟨rfl, plain, admitted⟩
  refine .ret fun _ => ?_
  split
  · refine L.plain ⟨plain.object?, plain.provisional⟩ { admitted with setter := fun same => ?_ }
    cases same
    exact known
  · exact L.plain plain admitted

omit L in
theorem stringLength?_congr {base base' : Value} (alike : base.Alike base') (name : String) :
    stringLength? base name = stringLength? base' name := by
  rw [stringLength?, stringLength?, alike.string?]

omit L in
theorem stringLength?_isBare {base v : Value} {name : String}
    (found : stringLength? base name = some v) : v.IsBare := by
  unfold stringLength? at found
  split at found
  · obtain ⟨s, -, rfl⟩ := Option.map_eq_some_iff.1 found
    exact .number _
  · cases found

/-- The present values of a property stand for each other. -/
theorem property_related {base base' : Value} (name : String) (inv : C.Inv p)
    (related : C.Val p base base') :
    Option.Rel (C.Val p) (base.object?.bind fun id => p.left.heap.get? id name)
      (base'.object?.bind fun id => p.right.heap.get? id name) := by
  rw [← (L.alike related).object?]
  cases held : base.object? with
  | none => exact .none
  | some id => exact L.property name inv related held

/-- Reading a property keeps a lawful coupling. -/
theorem getMember_holds {base base' : Value} {name : String} {n : Node}
    (related : C.Val p base base') :
    C.Holds p C.Val (getMember base name n) (getMember base' name n) := by
  have admitted := L.closed.admits related
  refine onRegistry_holds L ?_
  simp only [← (L.alike related).entity, ← stringLength?_congr (L.alike related),
    ← (L.alike related).unwrapped]
  split
  next entity found =>
    obtain ⟨parent, here, resolved⟩ := Option.bind_eq_some_iff.1 found
    refine readEntity_holds L (L.closed.entities.resolve? (fun e same => ?_) resolved)
    cases same
    exact admitted.entity here
  refine onHeap_holds fun inv => ?_
  have found := property_related L name inv related
  generalize (base.object?.bind fun id => p.left.heap.get? id name) = a,
    (base'.object?.bind fun id => p.right.heap.get? id name) = b at found
  cases found with
  | some value => exact .ret fun _ => value
  | none =>
      cases length : stringLength? base name with
      | some v => exact .ret fun _ => L.bare (stringLength?_isBare length)
      | none =>
          simp only
          split
          next entity found =>
            split at found
            · exact readEntity_holds L (L.closed.entities.deep found)
            · cases found
          · refine .ret fun _ => L.plain ⟨rfl, rfl⟩ ⟨fun held => ?_, fun setter => ?_, fun h => ?_⟩
            · cases held
            · cases setter
            · exact admitted.unwrapped h

/-- The guard of a property is within reach, and the same on both sides. -/
theorem guardOf?_holds {base base' : Value} {name : String} (related : C.Val p base base') :
    C.Holds p (fun _ a b => a = b ∧ ∀ id, a = some id → C.reach.Entity id) (guardOf? base name)
      (guardOf? base' name) := by
  refine onRegistry_holds L (onHeap_holds fun inv => .ret fun _ => ⟨?_, fun id guard => ?_⟩)
  · have setters : ((base.object?.bind fun id => p.left.heap.get? id name).bind (·.setter)) =
        ((base'.object?.bind fun id => p.right.heap.get? id name).bind (·.setter)) := by
      have found := property_related L name inv related
      generalize (base.object?.bind fun id => p.left.heap.get? id name) = a,
        (base'.object?.bind fun id => p.right.heap.get? id name) = b at found
      cases found with
      | none => rfl
      | some value => exact (L.alike value).setter
    simp only [(L.alike related).entity, setters]
  · rw [Option.orElse_eq_orElse, Option.orElse_eq_or, Option.or_eq_some_iff] at guard
    rcases guard with resolved | ⟨-, setter⟩
    · exact L.closed.entities.resolve? (fun _ => (L.closed.admits related).entity) resolved
    · obtain ⟨present, held, hooked⟩ := Option.bind_eq_some_iff.1 setter
      obtain ⟨w, value⟩ := related_left (property_related L name inv related) held
      exact (L.closed.admits value).setter hooked

theorem runSetHook_holds {entity : EntityId} {name : String} {v w : Value} {n : Node}
    (value : C.Val p v w) (known : C.reach.Entity entity) :
    C.Holds p Same (runSetHook entity name v n) (runSetHook entity name w n) := by
  refine onRegistry_holds L ?_
  split
  · exact .ret fun _ => rfl
  next hook hooked =>
    have alarm : C.reach.Alarm := by
      refine L.closed.loud known fun quiet => ?_
      rw [quiet.onSet] at hooked
      cases hooked
    refine (Hook.onSet_holds L value).bind fun q a b _ decision => ?_
    cases decision with
    | silent => exact .ret fun _ => rfl
    | flag advice => exact flag_holds L alarm
    | value _ => exact .ret fun _ => rfl

theorem storeMember_holds {guard : Option EntityId} {base base' v w : Value} {name : String}
    {n : Node} (related : C.Val p base base') (value : C.Val p v w)
    (known : ∀ id, guard = some id → C.reach.Entity id) :
    C.Holds p Same (storeMember guard base name v n) (storeMember guard base' name w n) := by
  refine onRegistry_holds L ?_
  simp only [(L.alike related).entity]
  split
  · exact setVariable_holds L value
  · have checked : C.Holds p Same (guard.forM fun id => checkOverwrite id name v n false)
        (guard.forM fun id => checkOverwrite id name w n false) := by
      cases guard with
      | none => exact .ret fun _ => rfl
      | some id => exact checkOverwrite_holds L value (known id rfl)
    refine (Holds.when rfl fun _ => checked).bind fun q _ _ step _ => ?_
    rw [← (L.alike related).object?]
    cases held : base.object? with
    | none => exact .ret fun _ => rfl
    | some id =>
        exact .update fun inv =>
          L.setProperty name inv (C.mono related step) held (C.mono value step)

/-- Writing a property keeps a lawful coupling. -/
theorem setMember_holds {base base' v w : Value} {name : String} {n : Node}
    (related : C.Val p base base') (value : C.Val p v w) :
    C.Holds p Same (setMember base name v n) (setMember base' name w n) := by
  have warned : C.Holds p Same (Engine.when base.unwrapped (flagUnwrapped n))
      (Engine.when base'.unwrapped (flagUnwrapped n)) :=
    .when (L.alike related).unwrapped fun unwrapped =>
      flag_holds L ((L.closed.admits related).unwrapped unwrapped)
  refine warned.bind fun q _ _ step _ => ?_
  refine (guardOf?_holds L (C.mono related step)).bind ?_
  rintro r guard _ step' ⟨rfl, known⟩
  have hooked : C.Holds r Same (guard.forM fun id => runSetHook id name v n)
      (guard.forM fun id => runSetHook id name w n) := by
    cases guard with
    | none => exact .ret fun _ => rfl
    | some id => exact runSetHook_holds L (C.mono value (C.trans step step')) (known id rfl)
  refine hooked.bind fun t _ _ step'' _ => ?_
  have later := C.trans (C.trans step step') step''
  exact storeMember_holds L (C.mono related later) (C.mono value later) known

theorem readTarget_holds {target target' : Target} {n : Node}
    (place : C.Place p target target') :
    C.Holds p C.Val (readTarget target n) (readTarget target' n) := by
  cases place with
  | name name => exact seekVariable_holds L
  | member name base => exact getMember_holds L base
  | pattern => exact .ret fun _ => L.bare .unknown
  | unknown => exact .ret fun _ => L.bare .unknown

theorem assign_holds {target target' : Target} {v w : Value} {n : Node}
    (place : C.Place p target target') (value : C.Val p v w) :
    C.Holds p Same (assign target v n) (assign target' w n) := by
  cases place with
  | name name => exact setVariable_holds L value
  | member name base => exact setMember_holds L base value
  | pattern => exact .ret fun _ => rfl
  | unknown => exact .ret fun _ => rfl

theorem checkDanger_holds {entity : EntityId} {danger : Option Danger} {args args' : Arguments}
    {n : Node} (related : C.Args p args args') (alarm : danger ≠ none → C.reach.Alarm) :
    C.Holds p Same (checkDanger entity danger args n) (checkDanger entity danger args' n) := by
  cases danger with
  | none => exact .ret fun _ => rfl
  | some danger =>
      have flagged : ∀ {q advice}, C.Holds q Same (flag (some entity) advice n)
          (flag (some entity) advice n) := flag_holds L (alarm (Option.some_ne_none _))
      cases danger with
      | always => exact flagged
      | check check =>
          refine (Hook.danger?_holds L related).bind ?_
          rintro q advice _ - rfl
          cases advice with
          | none => exact .ret fun _ => rfl
          | some advice => exact flagged

/-- Calling a value keeps a lawful coupling. -/
theorem callValue_holds {callee callee' : Value} {args args' : Arguments} {n : Node}
    (called : C.Val p callee callee') (related : C.Args p args args') :
    C.Holds p C.Val (callValue callee args n) (callValue callee' args' n) := by
  have unknown : ∀ q, C.Val q .unknown .unknown := fun q => L.bare .unknown
  rw [callValue, callValue, ← (L.alike called).entity]
  split
  · exact .ret fun _ => unknown p
  next entity here =>
    have known := L.entity called here
    refine onRegistry_holds L ?_
    have danger : (C.left.registry.behavior entity).dangerous ≠ none → C.reach.Alarm :=
      fun dangerous => L.closed.loud known fun quiet => dangerous quiet.dangerous
    refine (checkDanger_holds L related danger).bind fun q _ _ step _ => ?_
    split
    · exact .ret fun _ => unknown q
    next hook hooked =>
      have alarm : C.reach.Alarm := by
        refine L.closed.loud known fun quiet => ?_
        rw [quiet.onCall] at hooked
        cases hooked
      refine (Hook.onCall_holds L (related.mono step)).bind fun r a b _ decision => ?_
      cases decision with
      | silent => exact .ret fun _ => unknown r
      | flag advice => exact (flag_holds L alarm).bind fun t _ _ _ _ => .ret fun _ => unknown t
      | value value => exact .ret fun _ => value

theorem keyName_holds {key key' : Value} (value : C.Val p key key') :
    C.Holds p Same (keyName key) (keyName key') := by
  rw [keyName, keyName, (L.alike value).isDirty]
  split
  · exact .ret fun _ => rfl
  · refine onHeap_holds fun inv => .ret fun _ => ?_
    exact (L.heap inv).toText (L.alike value)

end Engine

end AddonAudit.Script
