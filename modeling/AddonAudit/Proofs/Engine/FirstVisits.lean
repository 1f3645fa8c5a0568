import AddonAudit.Proofs.Engine.Once

/-!
# Expressions make first visits

An action visits the children of its node, or nodes inside of them, each at most once and never two
of which one is inside of the other. So if the visits below a node are first visits, the action
makes first visits. The one exception are the methods of an object literal, and what is asked of
them is left as a hypothesis.
-/

namespace AddonAudit.Script

open Engine
open Node hiding id

variable {env : Env} {May : Fault → Prop} {visit : Visit} {n : Node}

/-- The visits of all nodes inside of a node are first visits. -/
structure VisitsOnce (env : Env) (May : Fault → Prop) (visit : Visit) (n : Node) : Prop where
  distinct : n.Distinct
  visits : ∀ m : Node, m.Within n → Once env May m.ids (visit m)

/-- The visits of all nodes below a node are first visits. -/
structure VisitsOnceBelow (env : Env) (May : Fault → Prop) (visit : Visit) (n : Node) : Prop where
  distinct : n.Distinct
  visits : ∀ c ∈ n.children, ∀ m : Node, m.Within c → Once env May m.ids (visit m)

theorem VisitsOnce.here (h : VisitsOnce env May visit n) : Once env May n.ids (visit n) :=
  h.visits n (.self n)

theorem VisitsOnce.below (h : VisitsOnce env May visit n) : VisitsOnceBelow env May visit n :=
  ⟨h.distinct, fun _ mem m inside => h.visits m (.child mem inside)⟩

/-- It is enough that the visits of nodes with different numbers inside of the root are. -/
theorem VisitsOnceBelow.inside {root : Node} (inside : n.Within root) (distinct : n.Distinct)
    (h : ∀ {m : Node}, m.Within root → m.Distinct → Once env May m.ids (visit m)) :
    VisitsOnceBelow env May visit n := by
  refine ⟨distinct, fun c mem m deeper => ?_⟩
  exact h ((deeper.trans (.ofChild mem)).trans inside) ((distinct.child mem).inside deeper)

theorem VisitsOnceBelow.child (h : VisitsOnceBelow env May visit n) {c : Node}
    (mem : c ∈ n.children) : VisitsOnce env May visit c :=
  ⟨h.distinct.child mem, h.visits c mem⟩

theorem VisitsOnceBelow.part (h : VisitsOnceBelow env May visit n) {role : Role} {c : Node}
    (found : n.child? role = some c) : VisitsOnce env May visit c :=
  h.child (mem_of_child? found)

theorem VisitsOnceBelow.parts (h : VisitsOnceBelow env May visit n) :
    ∀ c ∈ n.parts, VisitsOnce env May visit c :=
  fun _ mem => h.child (mem_of_parts mem)

theorem VisitsOnceBelow.apart (h : VisitsOnceBelow env May visit n) : Apart n.parts :=
  h.distinct.apart.sublist List.filter_sublist

theorem idsAll_parts_subset (n : Node) : idsAll n.parts ⊆ idsAll n.children :=
  idsAll_subset fun _ => mem_of_parts

namespace Engine

section Parts

theorem visitEach_once {nodes : List Node} (apart : Apart nodes)
    (h : ∀ c ∈ nodes, VisitsOnce env May visit c) :
    Once env May (idsAll nodes) (visitEach visit nodes) :=
  .each rfl (fun _ _ => rfl) apart fun c mem => (h c mem).here

theorem visitLast_once {nodes : List Node} {last : Value} (apart : Apart nodes)
    (h : ∀ c ∈ nodes, VisitsOnce env May visit c) :
    Once env May (idsAll nodes) (visitLast visit last nodes) := by
  induction nodes generalizing last with
  | nil => exact .ret last
  | cons n rest ih =>
      obtain ⟨head, tail⟩ := apart.cons
      have others : ∀ last, Once env May (idsAll rest) (visitLast visit last rest) := fun _ =>
        ih tail fun c mem => h c (List.mem_cons_of_mem n mem)
      rw [visitLast]
      split
      · exact (others last).subset (List.subset_append_right ..)
      · exact (h n List.mem_cons_self).here.bind others head

/-- The branches of a rule name no role twice. -/
theorem nodup_of_rule {kind : Kind} {rule : Rule} {roles : List Role}
    (found : kind.rule? = some rule) (named : rule.branches = .roles roles) : roles.Nodup := by
  cases kind <;> cases found <;> cases named <;> decide

theorem apart_branchParts (distinct : n.Distinct) {branches : Branches}
    (nodup : ∀ roles, branches = .roles roles → roles.Nodup) : Apart (branchParts n branches) := by
  have parts : Apart n.parts := distinct.apart.sublist List.filter_sublist
  cases branches with
  | all => exact parts
  | roles list =>
      refine List.pairwise_flatMap.2 ⟨fun role _ => parts.sublist List.filter_sublist, ?_⟩
      refine (nodup list rfl).imp fun {role other} ne c mem d mem' => ?_
      have inRole : c.role = some role := by simpa using (List.mem_filter.1 mem).2
      have inOther : d.role = some other := by simpa using (List.mem_filter.1 mem').2
      refine distinct.disjoint (mem_of_childrenAs mem) (mem_of_childrenAs mem') ?_
      rintro rfl
      exact ne (Option.some.inj (inRole.symm.trans inOther))

theorem visitBranches_once {branches : Branches} (h : VisitsOnceBelow env May visit n)
    (nodup : ∀ roles, branches = .roles roles → roles.Nodup) :
    Once env May (idsAll n.children) (visitBranches visit n branches) := by
  have visits : ∀ c ∈ branchParts n branches, VisitsOnce env May visit c := fun c mem =>
    h.child (mem_of_branchParts mem)
  exact (visitLast_once (apart_branchParts h.distinct nodup) visits).subset
    (idsAll_subset fun _ => mem_of_branchParts)

theorem visitUnknown_once (h : VisitsOnceBelow env May visit n) :
    Once env May (idsAll n.children) (visitUnknown visit n) := by
  have all : Once env May (idsAll n.children) (visitBranches visit n .all) :=
    visitBranches_once h nofun
  exact all.before fun _ => .ret _

theorem valueAs_once {role : Role} {absent : Value} (h : VisitsOnceBelow env May visit n) :
    Once env May (idsAs role n.children) (valueAs visit n role absent) := by
  unfold valueAs
  cases found : n.child? role with
  | none => exact .ret absent
  | some c => exact (h.part found).here.subset (ids_subset_idsAs found)

theorem visitAs_once {role : Role} (h : VisitsOnceBelow env May visit n) :
    Once env May (idsAs role n.children) (visitAs visit n role) :=
  (valueAs_once h).before fun _ => .ret ()

theorem keyName_once {ids : List Nat} {key : Value} : Once env May ids (keyName key) :=
  .ofHolds fun _ => keyName_holds quiet_lawful (quiet_val key)

theorem memberTarget_once (h : VisitsOnceBelow env May visit n) :
    Once env May (idsAll n.children) (memberTarget visit n) := by
  refine .inRoles (.inRole h.distinct (by decide) (valueAs_once h) fun base => ?_)
  split
  · refine (Once.inLastRole (by decide) (valueAs_once h)).before fun key => ?_
    exact keyName_once.before fun name => .ret (base, name)
  · exact .ret _

theorem bindMember_once (h : VisitsOnceBelow env May visit n) :
    Once env May (idsAll n.children) (bindMember visit n) := by
  refine (memberTarget_once h).before ?_
  rintro ⟨base, name⟩
  exact .ofHolds fun _ => setMember_holds quiet_lawful (quiet_val base) (quiet_val .unknown)

theorem visitComputed_once {role : Role} (h : VisitsOnceBelow env May visit n) :
    Once env May (idsAs role n.children) (visitComputed visit n role) := by
  refine .forM fun key found => .when ?_
  exact ((h.part found).here.subset (ids_subset_idsAs found)).before fun _ => .ret ()

theorem bindName_once {ids : List Nat} {d : Option Declaration} :
    Once env May ids (bindName d n) :=
  .ofHolds fun _ => bindName_holds quiet_lawful

end Parts

section Patterns

mutual

/-- Binding a pattern visits nothing but defaults, computed keys and members inside of it. -/
theorem bind_once {d : Option Declaration} : ∀ {n : Node}, VisitsOnce env May visit n →
    Once env May n.ids (Engine.bind visit d n)
  | ⟨kind, role, id, start, text, missing, children⟩, h => by
      have below := h.below
      have member : Once env May (idsAll children) (if d.isNone then
          bindMember visit ⟨kind, role, id, start, text, missing, children⟩ else pure ()) := by
        split
        · exact bindMember_once below
        · exact .ret ()
      have each : ∀ c ∈ children, VisitsOnce env May visit c := fun c mem => below.child mem
      refine Once.subset ?_ (idsAll_children_subset _)
      unfold Engine.bind
      split
      · exact bindName_once
      · exact bindName_once
      · refine .inRoles (.inRole h.distinct (by decide) (visitAs_once below) fun _ => ?_)
        exact .inLastRole (by decide) (bindAs_once each)
      · refine .inRoles (.inRole h.distinct (by decide) (visitAs_once below) fun _ => ?_)
        exact .inLastRole (by decide) (bindAs_once each)
      · refine .inRoles (.inRole h.distinct (by decide) (visitComputed_once below) fun _ => ?_)
        exact .inLastRole (by decide) (bindAs_once each)
      · exact bindEach_once h.distinct.apart each
      · exact bindEach_once h.distinct.apart each
      · exact bindEach_once h.distinct.apart each
      · exact member
      · exact member
      · exact .ret ()

theorem bindEach_once {d : Option Declaration} : ∀ {nodes : List Node}, Apart nodes →
    (∀ c ∈ nodes, VisitsOnce env May visit c) →
    Once env May (idsAll nodes) (bindEach visit d nodes)
  | [], _, _ => .ret ()
  | n :: rest, apart, h => by
      obtain ⟨head, tail⟩ := apart.cons
      have others := bindEach_once (d := d) tail fun c mem => h c (List.mem_cons_of_mem n mem)
      rw [bindEach]
      exact (bind_once (h n List.mem_cons_self)).bind (fun _ => others) head

theorem bindAs_once {d : Option Declaration} {role : Role} : ∀ {nodes : List Node},
    (∀ c ∈ nodes, VisitsOnce env May visit c) →
    Once env May (idsAs role nodes) (bindAs visit d role nodes)
  | [], _ => .ret ()
  | n :: rest, h => by
      have others : Once env May (idsAs role rest) (bindAs visit d role rest) :=
        bindAs_once fun c mem => h c (List.mem_cons_of_mem n mem)
      rw [bindAs]
      split
      next inRole =>
          refine (bind_once (h n List.mem_cons_self)).subset fun id mem => ?_
          exact mem_idsAs.2 ⟨n, List.mem_cons_self, inRole, mem⟩
      next =>
          refine others.subset fun id mem => ?_
          obtain ⟨c, found, inRole, inside⟩ := mem_idsAs.1 mem
          exact mem_idsAs.2 ⟨c, List.mem_cons_of_mem n found, inRole, inside⟩

end

mutual

theorem resolve_once : ∀ {n : Node}, VisitsOnce env May visit n →
    Once env May n.ids (resolve visit n)
  | ⟨kind, role, id, start, text, missing, children⟩, h => by
      have below := h.below
      have sub := idsAll_children_subset ⟨kind, role, id, start, text, missing, children⟩
      have member : Once env May (Node.ids ⟨kind, role, id, start, text, missing, children⟩) (do
          let (base, name) ← memberTarget visit ⟨kind, role, id, start, text, missing, children⟩
          return Target.member base name) :=
        ((memberTarget_once below).subset sub).before fun _ => .ret _
      unfold resolve
      split
      · exact .ret _
      · exact member
      · exact member
      · exact (resolveFirst_once fun c mem => below.child mem).subset sub
      · exact (bind_once h).before fun _ => .ret _
      · exact (bind_once h).before fun _ => .ret _
      · exact h.here.before fun _ => .ret _

theorem resolveFirst_once : ∀ {nodes : List Node}, (∀ c ∈ nodes, VisitsOnce env May visit c) →
    Once env May (idsAll nodes) (resolveFirst visit nodes)
  | [], _ => .ret _
  | n :: rest, h => by
      rw [resolveFirst]
      split
      · refine (resolveFirst_once fun c mem => h c (List.mem_cons_of_mem n mem)).subset ?_
        exact List.subset_append_right ..
      · exact (resolve_once (h n List.mem_cons_self)).subset (List.subset_append_left ..)

end

end Patterns

section Literals

theorem templatePieces_once {d : Draft} {nodes : List Node} (apart : Apart nodes)
    (h : ∀ c ∈ nodes, VisitsOnce env May visit c) :
    Once env May (idsAll nodes) (templatePieces visit n d nodes) := by
  induction nodes generalizing d with
  | nil => exact .ret _
  | cons c rest ih =>
      obtain ⟨head, tail⟩ := apart.cons
      have others : ∀ d, Once env May (idsAll rest) (templatePieces visit n d rest) :=
        fun _ => ih tail fun c' mem => h c' (List.mem_cons_of_mem c mem)
      rw [templatePieces]
      split
      · refine (h c List.mem_cons_self).here.bind (fun v => ?_) head
        split
        · exact others _
        · exact .onHeap fun _ => others _
      · exact (others _).subset (List.subset_append_right ..)
      · exact (others _).subset (List.subset_append_right ..)

theorem templateValue_once (h : VisitsOnceBelow env May visit n) :
    Once env May (idsAll n.children) (templateValue visit n) := by
  have pieces :=
    templatePieces_once (n := n) (d := { position := n.start.offset + 1 }) h.apart h.parts
  exact (pieces.subset (idsAll_parts_subset n)).before fun _ => .ret _

theorem propertyKey_once (h : VisitsOnce env May visit n) :
    Once env May n.ids (propertyKey visit n) := by
  unfold propertyKey
  split
  · exact .ret _
  · exact .ret _
  · exact h.here.before fun _ => keyName_once
  · exact .ret _

theorem setProperty_once {ids : List Nat} {id : ObjectId} {name : String} {v : Value} :
    Once env May ids (setProperty id name v) :=
  .updateWith fun _ => rfl

/-- A part of an object literal visits its key before its value; a method is left out here. -/
theorem objectPart_once {id : ObjectId} (h : VisitsOnce env May visit n)
    (method : n.kind = .methodDefinition → Once env May n.ids (objectPart visit id n)) :
    Once env May n.ids (objectPart visit id n) := by
  by_cases isMethod : n.kind = .methodDefinition
  · exact method isMethod
  unfold objectPart
  split
  next =>
      refine .forM fun key found => Once.subset ?_ (idsAll_children_subset n)
      have named := (propertyKey_once (h.below.part found)).subset (ids_subset_idsAs found)
      refine .inRoles (.inRole h.distinct (by decide) named fun name => ?_)
      exact (Once.inLastRole (by decide) (valueAs_once h.below)).before fun _ => setProperty_once
  next =>
      have sought : Once env May n.ids (seekVariable n.text n) :=
        .ofHolds fun _ => seekVariable_holds quiet_lawful
      exact sought.before fun _ => setProperty_once
  next kind => exact absurd kind isMethod
  next => exact h.here.before fun _ => .ret ()

theorem objectParts_once {id : ObjectId} {nodes : List Node} (apart : Apart nodes)
    (h : ∀ c ∈ nodes, Once env May c.ids (objectPart visit id c)) :
    Once env May (idsAll nodes) (objectParts visit id nodes) :=
  .each rfl (fun _ _ => rfl) apart h

theorem onHeap_once {ids : List Nat} {f : Heap → ObjectId × Heap} :
    Once env May ids (onHeap f) :=
  .updateWith fun _ => rfl

theorem objectValue_once (h : VisitsOnceBelow env May visit n)
    (methods : ∀ id, ∀ m ∈ n.parts, m.kind = .methodDefinition →
      Once env May m.ids (objectPart visit id m)) :
    Once env May (idsAll n.children) (objectValue visit n) := by
  refine onHeap_once.after fun id => ?_
  have parts :=
    objectParts_once h.apart fun m mem => objectPart_once (h.parts m mem) (methods id m mem)
  exact (parts.subset (idsAll_parts_subset n)).before fun _ => .ret _

theorem elementValues_once {nodes : List Node} (apart : Apart nodes)
    (h : ∀ c ∈ nodes, VisitsOnce env May visit c) :
    Once env May (idsAll nodes) (elementValues visit nodes) := by
  induction nodes with
  | nil => exact .ret _
  | cons n rest ih =>
      obtain ⟨head, tail⟩ := apart.cons
      have others := ih tail fun c mem => h c (List.mem_cons_of_mem n mem)
      rw [elementValues]
      split
      · exact others.subset (List.subset_append_right ..)
      · refine (h n List.mem_cons_self).here.bind (fun v => ?_) head
        exact others.before fun _ => .ret _

theorem arrayValue_once (h : VisitsOnceBelow env May visit n) :
    Once env May (idsAll n.children) (arrayValue visit n) := by
  have values := (elementValues_once h.apart h.parts).subset (idsAll_parts_subset n)
  exact values.before fun _ => onHeap_once.before fun _ => .ret _

end Literals

section Expressions

theorem assign_once {ids : List Nat} {target : Target} {v : Value} {m : Node} :
    Once env May ids (assign target v m) :=
  .ofHolds fun _ => assign_holds quiet_lawful (quiet_place target) (quiet_val v)

theorem readTarget_once {ids : List Nat} {target : Target} {m : Node} :
    Once env May ids (readTarget target m) :=
  .ofHolds fun _ => readTarget_holds quiet_lawful (quiet_place target)

theorem callValue_once {ids : List Nat} {f : Value} {args : Arguments} {m : Node} :
    Once env May ids (callValue f args m) :=
  .ofHolds fun _ => callValue_holds quiet_lawful (quiet_val f) (quiet_args args)

theorem getMember_once {ids : List Nat} {base : Value} {name : String} {m : Node} :
    Once env May ids (getMember base name m) :=
  .ofHolds fun _ => getMember_holds quiet_lawful (quiet_val base)

/-- The two sides are visited one after the other, or all parts are. -/
theorem withBoth_once {step : Node → Node → Engine Value} (h : VisitsOnceBelow env May visit n)
    (both : ∀ left right, n.child? .left = some left → n.child? .right = some right →
      Once env May (idsAll n.children) (step left right)) :
    Once env May (idsAll n.children) (withBoth visit n step) := by
  unfold withBoth
  split
  next left right foundLeft foundRight => exact both left right foundLeft foundRight
  next => exact visitUnknown_once h

theorem assignment_once (h : VisitsOnceBelow env May visit n) :
    Once env May (idsAll n.children) (assignment visit n) := by
  refine withBoth_once h fun left right foundLeft foundRight => ?_
  have resolved := (resolve_once (h.part foundLeft)).subset (ids_subset_idsAs foundLeft)
  have visited := (h.part foundRight).here.subset (ids_subset_idsAs foundRight)
  refine .inRoles (.inRole h.distinct (by decide) resolved fun target => ?_)
  refine (Once.inLastRole (by decide) visited).before fun v => ?_
  exact assign_once.before fun _ => .ret v

theorem augmentedAssignment_once (h : VisitsOnceBelow env May visit n) :
    Once env May (idsAll n.children) (augmentedAssignment visit n) := by
  refine withBoth_once h fun left right foundLeft foundRight => ?_
  have resolved := (resolve_once (h.part foundLeft)).subset (ids_subset_idsAs foundLeft)
  have visited := (h.part foundRight).here.subset (ids_subset_idsAs foundRight)
  refine .inRoles (.inRole h.distinct (by decide) resolved fun target => ?_)
  refine readTarget_once.after fun current => ?_
  refine (Once.inLastRole (by decide) visited).before fun v => ?_
  exact .onHeap fun _ => assign_once.before fun _ => .ret _

theorem updateValue_once (h : VisitsOnceBelow env May visit n) :
    Once env May (idsAll n.children) (updateValue visit n) := by
  unfold updateValue
  cases found : n.child? .argument with
  | none => exact visitUnknown_once h
  | some argument =>
      have stepped : ∀ target current, Once env May [] (stepTarget target current n) :=
        fun target current => .ofHolds fun _ =>
          stepTarget_holds quiet_lawful (quiet_place target) (quiet_val current)
      have resolved := (resolve_once (h.part found)).subset (ids_subset_idsAs found)
      refine (resolved.subset idsAs_subset_idsAll).before fun target => ?_
      refine readTarget_once.after fun current => ?_
      split
      · exact .ret _
      · exact .ret _
      · exact stepped _ current

theorem applyLink_once {left : Value} (h : VisitsOnceBelow env May visit n) :
    Once env May (idsAs .right n.children) (applyLink visit left n) :=
  (valueAs_once h).before fun _ => .onHeap fun _ => .ret _

mutual

theorem bareChainValue_once : ∀ {n : Node}, VisitsOnceBelow env May visit n →
    Once env May (idsAll n.children) (bareChainValue visit n)
  | ⟨kind, role, id, start, text, missing, children⟩, h => by
      rw [bareChainValue, chainValue]
      have left := chainLeft_once fun c mem => h.child mem
      refine .inRoles (.inRole h.distinct (by decide) left fun v => ?_)
      exact .inLastRole (by decide) (applyLink_once h)

theorem chainLeft_once : ∀ {nodes : List Node}, (∀ c ∈ nodes, VisitsOnce env May visit c) →
    Once env May (idsAs .left nodes) (chainLeft (fun _ x => x) visit nodes)
  | [], _ => .ret _
  | n :: rest, h => by
      have head := h n List.mem_cons_self
      rw [chainLeft]
      split
      next side =>
          have sub : n.ids ⊆ idsAs .left (n :: rest) := fun id mem =>
            mem_idsAs.2 ⟨n, List.mem_cons_self, side, mem⟩
          split
          · exact ((bareChainValue_once head.below).subset (idsAll_children_subset n)).subset sub
          · exact head.here.subset sub
      next =>
          refine (chainLeft_once fun c mem => h c (List.mem_cons_of_mem n mem)).subset ?_
          intro id mem
          obtain ⟨c, found, inRole, inside⟩ := mem_idsAs.1 mem
          exact mem_idsAs.2 ⟨c, List.mem_cons_of_mem n found, inRole, inside⟩

end

theorem binaryValue_once (h : VisitsOnceBelow env May visit n) :
    Once env May (idsAll n.children) (binaryValue visit n) := by
  rw [binaryValue_eq_bareChainValue]
  exact bareChainValue_once h

theorem unaryValue_once (h : VisitsOnceBelow env May visit n) :
    Once env May (idsAll n.children) (unaryValue visit n) :=
  ((valueAs_once h).subset idsAs_subset_idsAll).before fun _ => .onHeap fun _ => .ret _

theorem ternaryValue_once (h : VisitsOnceBelow env May visit n) :
    Once env May (idsAll n.children) (ternaryValue visit n) := by
  refine .inRoles (.inRole h.distinct (by decide) (valueAs_once h) fun condition => ?_)
  refine .inRole h.distinct (by decide) (valueAs_once h) fun consequence => ?_
  refine (Once.inLastRole (by decide) (valueAs_once h)).before fun alternative => ?_
  split
  · exact .ret _
  · exact .ret _

theorem argumentValues_once (h : VisitsOnceBelow env May visit n) :
    Once env May (idsAs .arguments n.children) (argumentValues visit n) := by
  unfold argumentValues
  cases found : n.child? .arguments with
  | none => exact .ret _
  | some list =>
      have visits := h.part found
      refine Once.subset ?_ (ids_subset_idsAs found)
      simp only
      split
      · have single : Apart [list] := List.pairwise_singleton _ list
        have alone := elementValues_once single fun c mem => by
          rw [List.mem_singleton.1 mem]
          exact visits
        exact alone.subset (List.append_subset.2 ⟨fun _ mem => mem, List.nil_subset _⟩)
      · refine (elementValues_once visits.below.apart visits.below.parts).subset ?_
        exact fun _ mem => idsAll_children_subset list (idsAll_parts_subset list mem)

theorem calleeValue_once (h : VisitsOnce env May visit n) :
    Once env May n.ids (calleeValue visit n) := by
  have member : Once env May n.ids
      (do let (base, name) ← memberTarget visit n; getMember base name n) := by
    refine ((memberTarget_once h.below).subset (idsAll_children_subset n)).before ?_
    exact fun _ => getMember_once
  unfold calleeValue
  split
  · exact member
  · exact member
  · exact h.here

theorem callExpression_once (h : VisitsOnceBelow env May visit n) :
    Once env May (idsAll n.children) (callExpression visit n) := by
  unfold callExpression
  cases found : n.child? .function with
  | none => exact visitUnknown_once h
  | some callee =>
      have called := (calleeValue_once (h.part found)).subset (ids_subset_idsAs found)
      refine .inRoles (.inRole h.distinct (by decide) called fun f => ?_)
      exact (Once.inLastRole (by decide) (argumentValues_once h)).before fun _ => callValue_once

theorem newExpression_once (h : VisitsOnceBelow env May visit n) :
    Once env May (idsAll n.children) (newExpression visit n) := by
  refine .inRoles (.inRole h.distinct (by decide) (valueAs_once h) fun f => ?_)
  refine (Once.inLastRole (by decide) (argumentValues_once h)).before fun args => ?_
  refine onHeap_once.after fun id => ?_
  split
  · exact callValue_once
  · exact .ret _

theorem memberValue_once (h : VisitsOnceBelow env May visit n) :
    Once env May (idsAll n.children) (memberValue visit n) :=
  (memberTarget_once h).before fun _ => getMember_once

end Expressions

end Engine

end AddonAudit.Script
