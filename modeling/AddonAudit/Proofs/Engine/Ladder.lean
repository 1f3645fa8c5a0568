import AddonAudit.Proofs.Node
import AddonAudit.Script.Engine.Statement

/-!
# Ladders of conditions

A condition whose alternative is again a condition starts a ladder, which is walked in a loop over
its statements. The nodes that the loop visits are the rungs of the ladder. They have no node in
common, and they are visited from the top down.

The loop is shown to be the recursion down the alternatives: first the condition, then what it
guards, then the alternative. What the recursion does around the alternatives and around the
statements below the first is left open, since these may also be evaluated as nodes of their own.
-/

namespace AddonAudit.Script

namespace Node

variable {n m a l : Node}

/-- The statement that a ladder goes on with in an alternative: the first part, comments apart, if
that is a condition. -/
def elseIf? (n : Node) : Option Node :=
  (n.children.find? fun c => !(c.kind = .token || c.kind = .comment)).filter (·.kind = .ifStatement)

/-- The second node is a statement of the ladder that starts with the first one. -/
inductive OnLadder : Node → Node → Prop where
  | top (n : Node) : OnLadder n n
  | next {n a m l : Node} : n.child? .alternative = some a → a.elseIf? = some m → OnLadder m l →
      OnLadder n l

/-- The parts of a condition stand in the order of the grammar, as far as they are there. -/
def InOrder (n : Node) : Prop :=
  ((n.child? .condition).toList ++ (n.child? .consequence).toList ++
    (n.child? .alternative).toList).Sublist n.children

theorem mem_of_elseIf? (h : n.elseIf? = some m) : m ∈ n.children :=
  List.mem_of_find?_eq_some (Option.filter_eq_some_iff.1 h).1

theorem kind_of_elseIf? (h : n.elseIf? = some m) : m.kind = .ifStatement := by
  simpa using (Option.filter_eq_some_iff.1 h).2

/-- A search among children for the alternative. -/
theorem search_alternative {α : Type} {f : List Node → α} {absent : α} {found : Node → α}
    (nil : f [] = absent)
    (cons : ∀ c rest, f (c :: rest) = if c.role = some .alternative then found c else f rest)
    (n : Node) : f n.children = (n.child? .alternative).elim absent found := by
  rw [child?]
  induction n.children with
  | nil => exact nil
  | cons c rest ih =>
      rw [cons, List.find?_cons, ih]
      by_cases side : c.role = some .alternative
      · rw [if_pos side, decide_eq_true side, Option.elim_some]
      · rw [if_neg side, decide_eq_false side]

/-- A search among children for the statement that a ladder goes on with. -/
theorem search_elseIf? {α : Type} {f : List Node → Option α} {found : Node → α} (nil : f [] = none)
    (cons : ∀ c rest, f (c :: rest) = if c.kind = .token || c.kind = .comment then f rest
      else if c.kind = .ifStatement then some (found c) else none)
    (n : Node) : f n.children = n.elseIf?.map found := by
  rw [elseIf?]
  induction n.children with
  | nil => exact nil
  | cons c rest ih =>
      rw [cons, List.find?_cons, ih]
      cases decide (c.kind = .token) || decide (c.kind = .comment) with
      | true => rfl
      | false =>
          by_cases next : c.kind = .ifStatement
          · simp [next, Option.filter]
          · simp [next, Option.filter]

theorem OnLadder.within (h : n.OnLadder l) : l.Within n := by
  induction h with
  | top n => exact .self n
  | next found next _ ih => exact .child (mem_of_child? found) (.child (mem_of_elseIf? next) ih)

theorem sizeOf_lt_of_mem_children (h : m ∈ n.children) : sizeOf m < sizeOf n := by
  obtain ⟨kind, role, id, start, text, missing, children⟩ := n
  have smaller := List.sizeOf_lt_of_mem h
  simp only [mk.sizeOf_spec] at smaller ⊢
  omega

/-- Induction down a ladder. -/
theorem ladderInduction {P : Node → Prop}
    (step : ∀ n, (∀ a m, n.child? .alternative = some a → a.elseIf? = some m → P m) → P n)
    (n : Node) : P n :=
  step n fun _ m _ _ => ladderInduction step m
termination_by sizeOf n
decreasing_by
  rename_i found next
  have clause := sizeOf_lt_of_mem_children (mem_of_child? found)
  have deeper := sizeOf_lt_of_mem_children (mem_of_elseIf? next)
  exact Nat.lt_trans deeper clause

end Node

namespace Engine

variable {visit : Visit} {around : Node → Engine Value → Engine Value}

section Equations

/-- A ladder is its first statement and, if the alternative goes on with one, the ladder below. -/
theorem ladder_eq (n : Node) :
    ladder n = match n.child? .alternative with
      | none => ([n], none)
      | some a =>
        match a.elseIf? with
        | none => ([n], some a)
        | some m => (n :: (ladder m).1, (ladder m).2) := by
  have below := n.search_alternative (f := ladderBelow) (by rw [ladderBelow]) fun _ _ => by
    rw [ladderBelow]
  obtain ⟨kind, role, id, start, text, missing, children⟩ := n
  rw [ladder, below]
  cases Node.child? _ _ with
  | none => rfl
  | some a =>
      have next := a.search_elseIf? (f := ladderNext?) (by rw [ladderNext?]) fun _ _ => by
        rw [ladderNext?]
      obtain ⟨kind', role', id', start', text', missing', parts⟩ := a
      simp only [Option.elim_some, ladderElse, next]
      cases Node.elseIf? _ with
      | none => rfl
      | some m => rfl

/-- The loop runs over the statements of the ladder. -/
theorem mem_ladder {n l : Node} : l ∈ (ladder n).1 ↔ n.OnLadder l := by
  constructor
  · intro mem
    induction n using Node.ladderInduction with
    | step n ih =>
        rw [ladder_eq] at mem
        split at mem
        · rw [List.mem_singleton.1 mem]
          exact .top n
        next a found =>
            split at mem
            · rw [List.mem_singleton.1 mem]
              exact .top n
            next m next =>
                rcases List.mem_cons.1 mem with rfl | mem
                · exact .top l
                · exact .next found next (ih a m found next mem)
  · intro on
    induction on with
    | top n =>
        rw [ladder_eq]
        split
        · exact List.mem_singleton_self n
        · split
          · exact List.mem_singleton_self n
          · exact List.mem_cons_self
    | @next n a m l found next _ ih =>
        rw [ladder_eq, found]
        simp only [next]
        exact List.mem_cons_of_mem n ih

end Equations

section Rungs

variable {n r : Node}

/-- The condition of a statement and what it guards. -/
def guarded (n : Node) : List Node :=
  (n.child? .condition).toList ++ (n.child? .consequence).toList

/-- The nodes that a ladder has visited, from the top down: conditions and what they guard, and what
the last statement does otherwise. -/
def rungs (n : Node) : List Node :=
  (ladder n).1.flatMap guarded ++ (ladder n).2.toList

/-- The rungs below the first statement. -/
def lowerRungs (n : Node) : List Node :=
  match n.child? .alternative with
  | none => []
  | some a =>
    match a.elseIf? with
    | none => [a]
    | some m => rungs m

theorem rungs_eq (n : Node) : rungs n = guarded n ++ lowerRungs n := by
  rw [rungs, ladder_eq, lowerRungs]
  cases n.child? .alternative with
  | none => simp
  | some a =>
      cases next : a.elseIf? with
      | none => simp [next]
      | some m => simp [next, rungs]

theorem visitEach_append (first second : List Node) :
    visitEach visit (first ++ second) = (do
      visitEach visit first
      visitEach visit second) := by
  induction first with
  | nil => rw [List.nil_append, visitEach, pure_bind]
  | cons n rest ih =>
      rw [List.cons_append, visitEach, visitEach, ih]
      simp only [bind_assoc]

theorem visitAs_eq_visitEach (n : Node) (role : Role) :
    visitAs visit n role = visitEach visit (n.child? role).toList := by
  rw [visitAs, valueAs]
  cases n.child? role with
  | none => exact pure_bind _ _
  | some c => rfl

/-- The loop over a ladder visits the rungs in a row, each of them once. -/
theorem ifStatement_eq_visitEach (n : Node) :
    ifStatement visit n = (do
      visitEach visit (rungs n)
      return .undefined) := by
  have links : ∀ links, visitLadder visit links = visitEach visit (links.flatMap guarded) := by
    intro links
    induction links with
    | nil => rfl
    | cons n rest ih =>
        rw [List.flatMap_cons, guarded, visitEach_append, visitEach_append, visitLadder, ih,
          visitAs_eq_visitEach, visitAs_eq_visitEach, bind_assoc]
  rw [ifStatement, rungs]
  obtain ⟨statements, last⟩ := ladder n
  simp only
  rw [links, visitEach_append, bind_assoc]
  cases last with
  | none => rfl
  | some a => rfl

theorem mem_guarded :
    r ∈ guarded n ↔ n.child? .condition = some r ∨ n.child? .consequence = some r := by
  rw [guarded, List.mem_append, Option.mem_toList, Option.mem_toList]

/-- The rungs are the conditions of a ladder, what these guard, and the last alternative. -/
theorem mem_rungs :
    r ∈ rungs n ↔ ∃ l, n.OnLadder l ∧ (l.child? .condition = some r ∨
      l.child? .consequence = some r ∨ l.child? .alternative = some r ∧ r.elseIf? = none) := by
  induction n using Node.ladderInduction with
  | step n ih =>
      rw [rungs_eq, List.mem_append, mem_guarded]
      constructor
      · rintro ((condition | consequence) | deeper)
        · exact ⟨n, .top n, .inl condition⟩
        · exact ⟨n, .top n, .inr (.inl consequence)⟩
        · cases found : n.child? .alternative with
          | none =>
              simp only [lowerRungs, found] at deeper
              cases deeper
          | some a =>
              cases next : a.elseIf? with
              | none =>
                  simp only [lowerRungs, found, next, List.mem_singleton] at deeper
                  subst deeper
                  exact ⟨n, .top n, .inr (.inr ⟨found, next⟩)⟩
              | some m =>
                  simp only [lowerRungs, found, next] at deeper
                  obtain ⟨l, on, part⟩ := (ih a m found next).1 deeper
                  exact ⟨l, .next found next on, part⟩
      · rintro ⟨l, on, part⟩
        cases on with
        | top =>
            rcases part with condition | consequence | ⟨found, last⟩
            · exact .inl (.inl condition)
            · exact .inl (.inr consequence)
            · right
              simp only [lowerRungs, found, last, List.mem_singleton]
        | next found next on =>
            right
            simp only [lowerRungs, found, next]
            exact (ih _ _ found next).2 ⟨l, on, part⟩

/-- The rungs are below the first statement. -/
theorem below_of_mem_rungs (h : r ∈ rungs n) : ∃ c ∈ n.children, r.Within c := by
  obtain ⟨l, on, part⟩ := mem_rungs.1 h
  have child : r ∈ l.children := by
    rcases part with found | found | ⟨found, -⟩
    · exact Node.mem_of_child? found
    · exact Node.mem_of_child? found
    · exact Node.mem_of_child? found
  cases on.within with
  | self => exact ⟨r, child, .self r⟩
  | child mem deeper => exact ⟨_, mem, .trans (.ofChild child) deeper⟩

/-- The rungs below the first statement are inside of its alternative. -/
theorem within_of_mem_lowerRungs (h : r ∈ lowerRungs n) :
    ∃ a, n.child? .alternative = some a ∧ r.Within a := by
  unfold lowerRungs at h
  split at h
  · cases h
  next a found =>
      refine ⟨a, found, ?_⟩
      split at h
      · rw [List.mem_singleton.1 h]
        exact .self a
      next m next =>
          obtain ⟨c, mem, deeper⟩ := below_of_mem_rungs h
          exact .child (Node.mem_of_elseIf? next) (.child mem deeper)

theorem pairwise_toList {α : Type} {R : α → α → Prop} (o : Option α) : o.toList.Pairwise R := by
  cases o with
  | none => exact .nil
  | some a => exact List.pairwise_singleton R a

/-- No two rungs have a node in common. -/
theorem apart_rungs (distinct : n.Distinct) : Node.Apart (rungs n) := by
  induction n using Node.ladderInduction with
  | step n ih =>
      rw [rungs_eq]
      refine List.pairwise_append.2 ⟨?_, ?_, fun r mem r' mem' => ?_⟩
      · refine List.pairwise_append.2 ⟨pairwise_toList _, pairwise_toList _,
          fun r mem r' mem' => ?_⟩
        exact distinct.disjoint_of_roles (Option.mem_toList.1 mem) (Option.mem_toList.1 mem') nofun
      · unfold lowerRungs
        split
        · exact .nil
        next a found =>
            split
            · exact List.pairwise_singleton _ a
            next m next =>
                refine ih a m found next (distinct.inside ?_)
                exact .child (Node.mem_of_child? found) (.ofChild (Node.mem_of_elseIf? next))
      · obtain ⟨a, found, inside⟩ := within_of_mem_lowerRungs mem'
        have apart : r.ids.Disjoint a.ids := by
          rcases mem_guarded.1 mem with above | above
          · exact distinct.disjoint_of_roles above found nofun
          · exact distinct.disjoint_of_roles above found nofun
        exact fun id here there => apart here (inside.ids_subset there)

/-- If the parts of every statement stand in the order of the grammar, so do the rungs. -/
theorem idsAll_rungs_sublist (ordered : ∀ l, n.OnLadder l → l.InOrder) :
    (Node.idsAll (rungs n)).Sublist (Node.idsAll n.children) := by
  induction n using Node.ladderInduction with
  | step n ih =>
      have here : (Node.idsAll (guarded n ++ (n.child? .alternative).toList)).Sublist
          (Node.idsAll n.children) := Node.idsAll_sublist (ordered n (.top n))
      rw [rungs_eq]
      refine List.Sublist.trans ?_ here
      rw [Node.idsAll_append, Node.idsAll_append]
      refine List.Sublist.append (.refl _) ?_
      unfold lowerRungs
      split
      · exact List.nil_sublist _
      next a found =>
          rw [found]
          split
          · exact .refl _
          next m next =>
              have below := ih a m found next fun l on => ordered l (.next found next on)
              have inside : m.ids.Sublist a.ids :=
                (Node.Within.ofChild (Node.mem_of_elseIf? next)).ids_sublist
              have clause : Node.idsAll [a] = a.ids := by
                rw [Node.idsAll_eq, List.flatMap_singleton]
              rw [Option.toList_some, clause]
              exact (below.trans (Node.idsAll_children_sublist m)).trans inside

end Rungs

section Climb

mutual

/-- A ladder by recursion: a condition, what it guards, then the alternative. -/
def climb (around : Node → Engine Value → Engine Value) (visit : Visit) : Node → Engine Value
  | ⟨kind, role, id, start, text, missing, children⟩ => do
    let n : Node := ⟨kind, role, id, start, text, missing, children⟩
    visitAs visit n .condition
    visitAs visit n .consequence
    climbBelow around visit children

/-- The alternative among the children of a condition. -/
def climbBelow (around : Node → Engine Value → Engine Value) (visit : Visit) :
    List Node → Engine Value
  | [] => return .undefined
  | n :: rest =>
    if n.role = some .alternative then climbElse around visit n else climbBelow around visit rest

/-- An alternative. If it goes on with a condition, that is all there is to it. -/
def climbElse (around : Node → Engine Value → Engine Value) (visit : Visit) : Node → Engine Value
  | ⟨kind, role, id, start, text, missing, children⟩ => do
    let n : Node := ⟨kind, role, id, start, text, missing, children⟩
    let _ ← (match climbNext? around visit children with
      | some inner => around n do
        let _ ← inner
        return .undefined
      | none => visit n)
    return .undefined

/-- The condition that an alternative goes on with. -/
def climbNext? (around : Node → Engine Value → Engine Value) (visit : Visit) :
    List Node → Option (Engine Value)
  | [] => none
  | n :: rest =>
    if n.kind = .token || n.kind = .comment then climbNext? around visit rest
    else if n.kind = .ifStatement then some (around n (climb around visit n))
    else none

end

/-- The recursion, by the alternative and what that goes on with. -/
theorem climb_eq (n : Node) :
    climb around visit n = (do
      visitAs visit n .condition
      visitAs visit n .consequence
      match n.child? .alternative with
      | none => return .undefined
      | some a => do
        let _ ← (match a.elseIf? with
          | none => visit a
          | some m => around a do
            let _ ← around m (climb around visit m)
            return .undefined)
        return .undefined) := by
  have below :=
    n.search_alternative (f := climbBelow around visit) (by rw [climbBelow]) fun _ _ => by
    rw [climbBelow]
  obtain ⟨kind, role, id, start, text, missing, children⟩ := n
  rw [climb, below]
  cases Node.child? _ .alternative with
  | none => rfl
  | some a =>
      have next :=
        a.search_elseIf? (f := climbNext? around visit) (by rw [climbNext?]) fun _ _ => by
        rw [climbNext?]
      obtain ⟨kind', role', id', start', text', missing', parts⟩ := a
      simp only [Option.elim_some, climbElse, next]
      cases Node.elseIf? _ with
      | none => rfl
      | some m => rfl

/-- Walking a ladder in a loop is the recursion down its alternatives. -/
theorem ifStatement_eq_climb (n : Node) : ifStatement visit n = climb (fun _ x => x) visit n := by
  rw [ifStatement_eq_visitEach]
  induction n using Node.ladderInduction with
  | step n ih =>
      rw [climb_eq, rungs_eq, visitEach_append, guarded, visitEach_append, lowerRungs,
        visitAs_eq_visitEach, visitAs_eq_visitEach]
      cases found : n.child? .alternative with
      | none => simp only [visitEach, bind_assoc, pure_bind]
      | some a =>
          cases next : a.elseIf? with
          | none => simp only [next, visitEach, bind_assoc, pure_bind]
          | some m => simp only [next, bind_assoc, pure_bind, ← ih a m found next]

end Climb

end Engine

end AddonAudit.Script
