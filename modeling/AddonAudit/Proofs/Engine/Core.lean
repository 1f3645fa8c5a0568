import AddonAudit.Proofs.Engine.Walk

/-!
# What actions do not read

Actions read and change the names, the objects and the reports of a run. The kept values, the depth,
the count of nodes, the clock and the options are the business of visits alone. So two runs that
differ only in these stay together in every action.
-/

namespace AddonAudit.Script

open Engine Coupling

/-- A state with the kept values, the depth, the count of nodes and the clock of another one. -/
def State.withBook (s book : State) : State :=
  { s with
    results := book.results, depth := book.depth, visited := book.visited, clock := book.clock }

/-- A coupling of runs that differ only in what actions do not read. It survives a change of all the
rest on both sides at once, and every bracket. -/
structure Coupling.UpToBook (C : Coupling) : Prop where
  env : C.left = { C.right with options := C.left.options }
  val : ∀ {p v w}, C.Val p v w ↔ v = w
  literal : ∀ {v w}, C.Literal v w := by exact trivial
  book : ∀ {p}, C.Inv p → p.right = p.left.withBook p.right
  change : ∀ {p} (s : State), C.Inv p → C.Leads p (s.withBook p.left) (s.withBook p.right)
  enter : ∀ {p} (b : Bracket), C.Inv p → C.Inv (p.map b.enter)
  leave : ∀ {p q} (b : Bracket), C.Inv p → C.Inv q → C.Step (p.map b.enter) q →
    C.Leads p (b.leave q.left) (b.leave q.right)
  reach : C.reach = {} := by rfl

namespace Coupling.UpToBook

variable {C : Coupling} {p : Pair}

theorem pair (B : C.UpToBook) (inv : C.Inv p) : ∃ s t, p = ⟨s, s.withBook t⟩ :=
  ⟨p.left, p.right, congrArg (Pair.mk p.left) (B.book inv)⟩

theorem lawful (B : C.UpToBook) : C.Lawful where
  registry := (congrArg Env.registry B.env :)
  file := (congrArg Env.file B.env :)
  lines := (congrArg Env.lines B.env :)
  alike := by
    intro p v w value
    rw [B.val.1 value]
    exact .refl w
  plain _ _ := B.val.2 rfl
  heap := by
    intro p inv
    obtain ⟨s, t, rfl⟩ := B.pair inv
    exact .refl s.heap
  kinds := by
    intro p inv
    obtain ⟨s, t, rfl⟩ := B.pair inv
    rfl
  declared := by
    intro p name inv
    obtain ⟨s, t, rfl⟩ := B.pair inv
    rfl
  find := by
    intro p name inv
    obtain ⟨s, t, rfl⟩ := B.pair inv
    exact related_self fun _ _ => B.val.2 rfl
  receiver := by
    intro p inv
    obtain ⟨s, t, rfl⟩ := B.pair inv
    exact B.val.2 rfl
  property := by
    intro p v w id name inv _ _
    obtain ⟨s, t, rfl⟩ := B.pair inv
    exact related_self fun _ _ => B.val.2 rfl
  infer := by
    intro p name inv _ _ _
    obtain ⟨s, t, rfl⟩ := B.pair inv
    exact B.change (s.storeGlobal name { Value.unknown with inferred := true }) inv
  storeGlobal := by
    intro p v w name inv value _
    obtain ⟨s, t, rfl⟩ := B.pair inv
    obtain rfl := B.val.1 value
    exact B.change (s.storeGlobal name (v.named false)) inv
  declare := by
    intro p v w name d inv value _
    obtain ⟨s, t, rfl⟩ := B.pair inv
    obtain rfl := B.val.1 value
    exact B.change (s.declare name v d) inv
  overwrite := by
    intro p v w name inv value
    obtain ⟨s, t, rfl⟩ := B.pair inv
    obtain rfl := B.val.1 value
    unfold State.overwrite?
    change Option.Rel _ _ (Option.map _ (replace? name _ s.globals s.scopes))
    cases replace? name (fun old => v.named old.isConst) s.globals s.scopes with
    | none => exact .none
    | some found =>
        obtain ⟨old, globals, scopes⟩ := found
        exact .some ⟨rfl, B.change { s with globals, scopes } inv⟩
  setProperty := by
    intro p b b' id v w name inv _ _ value
    obtain ⟨s, t, rfl⟩ := B.pair inv
    obtain rfl := B.val.1 value
    exact B.change (s.setProperty id name v) inv
  newObject := by
    intro p inv
    obtain ⟨s, t, rfl⟩ := B.pair inv
    exact ⟨B.change (s.onHeap Heap.newObject).2 inv, fun _ => B.val.2 rfl⟩
  newArray := by
    intro p vs ws inv related
    obtain ⟨s, t, rfl⟩ := B.pair inv
    have same : vs = ws := by
      rw [← List.forall₂_eq_eq_eq]
      exact related.imp fun _ _ => B.val.1
    subst same
    exact ⟨B.change (s.onHeap (·.newArray vs.toArray)).2 inv, fun _ => B.val.2 rfl⟩
  record := by
    intro p severity f inv _ _
    obtain ⟨s, t, rfl⟩ := B.pair inv
    exact B.change (s.record severity f).2 inv
  carry := by
    intro p severity f text inv _ _
    obtain ⟨s, t, rfl⟩ := B.pair inv
    exact B.val.2 rfl
  carried _ _ _ _ := B.literal
  literal _ := B.literal
  drop := by
    intro p v w inv value _
    obtain ⟨s, t, rfl⟩ := B.pair inv
    obtain rfl := B.val.1 value
    exact related_self fun uid _ => B.change (s.drop uid) inv
  enter := B.enter
  leave := B.leave
  outside _ value := B.val.2 (B.val.1 value)
  closed := .of_unbounded B.reach

end Coupling.UpToBook

end AddonAudit.Script
