import AddonAudit.Proofs.Engine.Access
import AddonAudit.Proofs.Node

/-!
# Coupled visits of parts

An action visits parts of its node through a function that it is given. Two such functions that keep
a coupling on the nodes below a node keep it when they visit its parts, bind the names of a pattern
or look for the target of an assignment.
-/

namespace AddonAudit.Script

open Engine Coupling

/-- Two ways to visit keep a coupling on every node inside of a node. -/
def Coupling.Visits (C : Coupling) (v w : Visit) (n : Node) : Prop :=
  ∀ m : Node, m.Within n → ∀ p, C.Holds p (C.At m) (v m) (w m)

/-- Two ways to visit keep a coupling on every node below a node. -/
def Coupling.VisitsBelow (C : Coupling) (v w : Visit) (n : Node) : Prop :=
  ∀ c ∈ n.children, C.Visits v w c

variable {C : Coupling} {p : Pair} {v w : Visit} {n : Node}

namespace Coupling

theorem Visits.at_node (h : C.Visits v w n) : C.Holds p (C.At n) (v n) (w n) :=
  h n (.self n) p

theorem Visits.here (h : C.Visits v w n) : C.Holds p C.Val (v n) (w n) :=
  h.at_node.imp fun _ _ _ _ _ => And.left

theorem Visits.below (h : C.Visits v w n) : C.VisitsBelow v w n := fun _ mem m inside =>
  h m (.child mem inside)

theorem VisitsBelow.child {role : Role} {c : Node} (h : C.VisitsBelow v w n)
    (found : n.child? role = some c) : C.Visits v w c :=
  h c (Node.mem_of_child? found)

end Coupling

/-- Names that may be bound by a declaration. Without a declaration they are assigned to, which
makes a check of its own. -/
def Coupling.MayBind (C : Coupling) (p : Pair) (d : Option Declaration) (names : List String) :
    Prop :=
  ∀ declaration name, d = some declaration → name ∈ names →
    C.reach.Binds p.left (some declaration) name

/-- A scope takes every name that is declared in some way. -/
def Coupling.Takes (C : Coupling) (p : Pair) (d : Declaration) : Prop :=
  ∀ name, C.reach.Binds p.left (some d) name

namespace Coupling

variable {d : Declaration} {names more : List String}

theorem MayBind.of_unbounded {d : Option Declaration} (unbounded : C.reach = {}) :
    C.MayBind p d names := by
  intro declaration name _ _
  rw [unbounded]
  trivial

theorem MayBind.mono {q : Pair} {d : Option Declaration} (h : C.MayBind p d names) (L : C.Lawful)
    (step : C.Step p q) : C.MayBind q d names :=
  fun _ _ given mem => L.closed.later (h _ _ given mem) step

theorem MayBind.entered {d : Option Declaration} (h : C.MayBind p d names) (L : C.Lawful)
    (b : Bracket) : C.MayBind (p.map b.enter) d names :=
  fun _ _ given mem => L.closed.entered b (h _ _ given mem)

theorem MayBind.subset {d : Option Declaration} (h : C.MayBind p d names)
    (fewer : ∀ name ∈ more, name ∈ names) : C.MayBind p d more :=
  fun _ _ given mem => h _ _ given (fewer _ mem)

/-- An assignment declares nothing. -/
theorem MayBind.assigned : C.MayBind p none names := fun _ _ declares => nomatch declares

theorem Takes.of_unbounded (unbounded : C.reach = {}) : C.Takes p d := by
  intro name
  rw [unbounded]
  trivial

theorem Takes.mono {q : Pair} (h : C.Takes p d) (L : C.Lawful) (step : C.Step p q) : C.Takes q d :=
  fun name => L.closed.later (h name) step

theorem Takes.mayBind (h : C.Takes p d) : C.MayBind p (some d) names := by
  intro declaration name given _
  cases given
  exact h name

end Coupling

namespace Engine

mutual

/-- The names that a pattern binds. -/
def patternNames : Node → List String
  | ⟨kind, _, _, _, text, _, children⟩ =>
    match kind with
    | .identifier | .shorthandPropertyIdentifierPattern => [text]
    | .assignmentPattern | .objectAssignmentPattern => patternNamesAs .left children
    | .pairPattern => patternNamesAs .value children
    | .objectPattern | .arrayPattern | .restPattern => patternNamesOfEach children
    | _ => []

/-- The names that the patterns of a list bind. -/
def patternNamesOfEach : List Node → List String
  | [] => []
  | n :: rest => patternNames n ++ patternNamesOfEach rest

/-- The names that the first node in a role binds. -/
def patternNamesAs (role : Role) : List Node → List String
  | [] => []
  | n :: rest => if n.role = some role then patternNames n else patternNamesAs role rest

end

theorem visitEach_holds {nodes : List Node} (h : ∀ c ∈ nodes, C.Visits v w c) :
    C.Holds p Same (visitEach v nodes) (visitEach w nodes) := by
  induction nodes generalizing p with
  | nil => exact .ret fun _ => rfl
  | cons n rest ih =>
      refine (h n List.mem_cons_self).here.bind fun q _ _ _ _ => ?_
      exact ih fun c mem => h c (List.mem_cons_of_mem n mem)

theorem visitLast_holds {a b : Value} {nodes : List Node} (value : C.Val p a b)
    (h : ∀ c ∈ nodes, C.Visits v w c) :
    C.Holds p C.Val (visitLast v a nodes) (visitLast w b nodes) := by
  induction nodes generalizing p a b with
  | nil => exact .ret fun _ => value
  | cons n rest ih =>
      have tail : ∀ c ∈ rest, C.Visits v w c := fun c mem => h c (List.mem_cons_of_mem n mem)
      rw [visitLast, visitLast]
      split
      · exact ih value tail
      · exact (h n List.mem_cons_self).here.bind fun q _ _ _ last => ih last tail

theorem mem_of_branchParts {branches : Branches} {c : Node} (h : c ∈ branchParts n branches) :
    c ∈ n.children := by
  cases branches with
  | all => exact Node.mem_of_parts h
  | roles list =>
      obtain ⟨role, -, mem⟩ := List.mem_flatMap.1 h
      exact Node.mem_of_childrenAs mem

section

variable (L : C.Lawful)

include L

theorem visitBranches_holds {branches : Branches} (h : C.VisitsBelow v w n) :
    C.Holds p C.Val (visitBranches v n branches) (visitBranches w n branches) :=
  visitLast_holds (L.bare .undefined) fun c mem => h c (mem_of_branchParts mem)

theorem visitUnknown_holds (h : C.VisitsBelow v w n) :
    C.Holds p C.Val (visitUnknown v n) (visitUnknown w n) :=
  (visitBranches_holds L h).bind fun _ _ _ _ _ => .ret fun _ => L.bare .unknown

/-- Only the visits of the child with the role matter. -/
theorem valueAs_holds_of_child {role : Role} {absent : Value}
    (h : ∀ c, n.child? role = some c → C.Visits v w c) (bare : absent.IsBare) :
    C.Holds p C.Val (valueAs v n role absent) (valueAs w n role absent) := by
  unfold valueAs
  cases found : n.child? role with
  | none => exact .ret fun _ => L.bare bare
  | some c => exact (h c found).here

theorem valueAs_holds {role : Role} {absent : Value} (h : C.VisitsBelow v w n)
    (bare : absent.IsBare) :
    C.Holds p C.Val (valueAs v n role absent) (valueAs w n role absent) :=
  valueAs_holds_of_child L (fun _ => h.child) bare

theorem visitAs_holds {role : Role} (h : C.VisitsBelow v w n) :
    C.Holds p Same (visitAs v n role) (visitAs w n role) :=
  (valueAs_holds L h .undefined).bind fun _ _ _ _ _ => .ret fun _ => rfl

theorem memberTarget_holds (h : C.VisitsBelow v w n) :
    C.Holds p (fun q a b => C.Val q a.1 b.1 ∧ a.2 = b.2) (memberTarget v n) (memberTarget w n) := by
  refine (valueAs_holds L h .unknown).bind fun q base base' _ related => ?_
  split
  · refine (valueAs_holds L h .unknown).bind fun r key key' step value => ?_
    refine (keyName_holds L value).bind fun t name name' step' same => ?_
    exact .ret fun _ => ⟨C.mono related (C.trans step step'), same⟩
  · exact .ret fun _ => ⟨related, rfl⟩

theorem bindName_holds {d : Option Declaration}
    (may : C.MayBind p d [n.text] := by exact .of_unbounded rfl) :
    C.Holds p Same (bindName d n) (bindName d n) := by
  cases d with
  | none => exact setVariable_holds L (L.bare .unknown)
  | some d => exact declare_holds L (L.bare .unknown) (may _ _ rfl List.mem_cons_self)

theorem bindMember_holds (h : C.VisitsBelow v w n) :
    C.Holds p Same (bindMember v n) (bindMember w n) := by
  refine (memberTarget_holds L h).bind ?_
  rintro q ⟨base, name⟩ ⟨base', _⟩ - ⟨related, rfl⟩
  exact setMember_holds L related (L.bare .unknown)

omit L in
theorem visitComputed_holds {role : Role} (h : C.VisitsBelow v w n) :
    C.Holds p Same (visitComputed v n role) (visitComputed w n role) := by
  unfold visitComputed
  cases found : n.child? role with
  | none => exact .ret fun _ => rfl
  | some key =>
      exact .when rfl fun _ => (h.child found).here.bind fun _ _ _ _ _ => .ret fun _ => rfl

end

mutual

/-- Binding a pattern keeps a lawful coupling if its names may be bound. -/
theorem bind_holds (L : C.Lawful) {d : Option Declaration} : ∀ {n : Node} {p : Pair},
    C.Visits v w n → C.MayBind p d (patternNames n) → C.Holds p Same (bind v d n) (bind w d n)
  | ⟨kind, role, id, start, text, missing, children⟩, p, h, may => by
      have below := h.below
      have member : C.Holds p Same
          (if d.isNone then bindMember v ⟨kind, role, id, start, text, missing, children⟩
            else pure ())
          (if d.isNone then bindMember w ⟨kind, role, id, start, text, missing, children⟩
            else pure ()) := by
        split
        · exact bindMember_holds L below
        · exact .ret fun _ => rfl
      unfold patternNames at may
      unfold Engine.bind
      split
      · exact bindName_holds L may
      · exact bindName_holds L may
      · exact (visitAs_holds L below).bind fun _ _ _ step _ =>
          bindAs_holds L below (may.mono L step)
      · exact (visitAs_holds L below).bind fun _ _ _ step _ =>
          bindAs_holds L below (may.mono L step)
      · exact (visitComputed_holds below).bind fun _ _ _ step _ =>
          bindAs_holds L below (may.mono L step)
      · exact bindEach_holds L below may
      · exact bindEach_holds L below may
      · exact bindEach_holds L below may
      · exact member
      · exact member
      · exact .ret fun _ => rfl

theorem bindEach_holds (L : C.Lawful) {d : Option Declaration} :
    ∀ {nodes : List Node} {p : Pair}, (∀ c ∈ nodes, C.Visits v w c) →
    C.MayBind p d (patternNamesOfEach nodes) →
    C.Holds p Same (bindEach v d nodes) (bindEach w d nodes)
  | [], p, _, _ => .ret fun _ => rfl
  | n :: rest, p, h, may => by
      rw [bindEach, bindEach]
      rw [patternNamesOfEach] at may
      have first := may.subset fun _ mem => List.mem_append_left _ mem
      refine (bind_holds L (h n List.mem_cons_self) first).bind fun q _ _ step _ => ?_
      refine bindEach_holds L (fun c mem => h c (List.mem_cons_of_mem n mem)) ?_
      exact (may.subset fun _ mem => List.mem_append_right _ mem).mono L step

theorem bindAs_holds (L : C.Lawful) {d : Option Declaration} {role : Role} :
    ∀ {nodes : List Node} {p : Pair}, (∀ c ∈ nodes, C.Visits v w c) →
    C.MayBind p d (patternNamesAs role nodes) →
    C.Holds p Same (bindAs v d role nodes) (bindAs w d role nodes)
  | [], p, _, _ => .ret fun _ => rfl
  | n :: rest, p, h, may => by
      rw [bindAs, bindAs]
      rw [patternNamesAs] at may
      split
      next here =>
        rw [if_pos here] at may
        exact bind_holds L (h n List.mem_cons_self) may
      next other =>
        rw [if_neg other] at may
        exact bindAs_holds L (fun c mem => h c (List.mem_cons_of_mem n mem)) may

end

mutual

/-- Resolving a target keeps a lawful coupling. -/
theorem resolve_holds (L : C.Lawful) : ∀ {n : Node} {p : Pair}, C.Visits v w n →
    C.Holds p C.Place (resolve v n) (resolve w n)
  | ⟨kind, role, id, start, text, missing, children⟩, p, h => by
      have member : C.Holds p C.Place
          (do
            let (base, name) ← memberTarget v ⟨kind, role, id, start, text, missing, children⟩
            return .member base name)
          (do
            let (base, name) ← memberTarget w ⟨kind, role, id, start, text, missing, children⟩
            return .member base name) := by
        refine (memberTarget_holds L h.below).bind ?_
        rintro q ⟨base, name⟩ ⟨base', _⟩ - ⟨related, rfl⟩
        exact .ret fun _ => .member name related
      unfold resolve
      split
      · exact .ret fun _ => .name text
      · exact member
      · exact member
      · exact resolveFirst_holds L h.below
      · exact (bind_holds L h .assigned).bind fun _ _ _ _ _ => .ret fun _ => .pattern
      · exact (bind_holds L h .assigned).bind fun _ _ _ _ _ => .ret fun _ => .pattern
      · exact h.here.bind fun _ _ _ _ _ => .ret fun _ => .unknown

theorem resolveFirst_holds (L : C.Lawful) : ∀ {nodes : List Node} {p : Pair},
    (∀ c ∈ nodes, C.Visits v w c) → C.Holds p C.Place (resolveFirst v nodes) (resolveFirst w nodes)
  | [], p, _ => .ret fun _ => .unknown
  | n :: rest, p, h => by
      rw [resolveFirst, resolveFirst]
      split
      · exact resolveFirst_holds L fun c mem => h c (List.mem_cons_of_mem n mem)
      · exact resolve_holds L (h n List.mem_cons_self)

end

end Engine

end AddonAudit.Script
