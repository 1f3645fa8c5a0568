import AddonAudit.Proofs.Bundle
import AddonAudit.Proofs.Engine.Kept

/-!
# Running again

After a run that went well the value of the root is kept, so a second run over the same tree visits
nothing. Only the look at the global names, which follows every walk, is taken again. Main
statement: `Engine.run_again`, the second run changes nothing but that it repeats the warning about
too many global names.
-/

namespace AddonAudit.Script

open Engine

/-- A run without a deadline never gets one. -/
theorem untimed_lawful : (holding (·.clock = none)).Lawful :=
  holding_lawful (fun clock same _ => same.trans clock) (fun _ clock stays => stays clock)
    fun _ _ clock => clock

/-- The bundle after the look at the global names. -/
def checkedBundle (env : Env) (s : State) : Bundle :=
  match pollution? env s with
  | some f => s.bundle.add .warning f
  | none => s.bundle

variable {env : Env} {s u : State} {t : Tree}

theorem runFrom_checkGlobals (env : Env) (s : State) :
    runFrom env s checkGlobals = (.ok (), { s with bundle := checkedBundle env s }) := by
  change runFrom env s ((pollution? env s).forM fun f => do let _ ← record .warning f) = _
  unfold checkedBundle
  cases pollution? env s with
  | some f => rfl
  | none => rfl

/-- Without a deadline, a run is a visit of the root and a look at the global names. -/
theorem runFrom_run (clock : s.clock = none) (t : Tree) :
    runFrom env s (run t) =
      match runFrom env s (visit t.root) with
      | (.ok _, u) => (.ok (), { u with bundle := checkedBundle env u })
      | (.error e, u) => (.error e, u) := by
  have waited : runFrom env s checkDeadline = (.ok (), s) := by
    cases s
    cases clock
    rfl
  rw [run, runFrom_bind, waited]
  change runFrom env s (visit t.root >>= fun _ => checkGlobals) = _
  rw [runFrom_bind]
  rcases runFrom env s (visit t.root) with ⟨_ | v, u⟩
  · rfl
  · exact runFrom_checkGlobals env u

/-- A run over a tree whose root has a kept value only looks at the global names. -/
theorem runFrom_run_of_visited (lax : env.options.strict = false) (clock : s.clock = none)
    (visited : t.root.isComment = true ∨ ∃ v, s.kept? t.root.id = some v) :
    runFrom env s (run t) = (.ok (), { s with bundle := checkedBundle env s }) := by
  have answered : ∃ v, runFrom env s (visit t.root) = (.ok v, s) := by
    change ∃ v, runFrom env s (evaluateOnce t.root _) = (.ok v, s)
    rw [runFrom_evaluateOnce, lax]
    cases kept : s.kept? t.root.id with
    | some v => exact ⟨v, rfl⟩
    | none =>
        rcases visited with comment | ⟨v, found⟩
        · exact ⟨.undefined, if_pos comment⟩
        · rw [kept] at found
          cases found
  obtain ⟨v, answer⟩ := answered
  rw [runFrom_run clock, answer]

/-- The warning about global names concerns all versions. -/
theorem pollution?_always {f : Finding} (found : pollution? env s = some f) :
    f.forVersions = none := by
  unfold pollution? at found
  simp only at found
  split at found
  · cases found
    rfl
  · cases found

/-- The state after a run that went well: its clock still has no deadline, and its root was
visited. -/
theorem visited_of_run (clock : s.clock = none) (room : t.root.id < s.results.size)
    (ok : (runFrom env s (run t)).1 = .ok ()) :
    (runFrom env s (run t)).2.clock = none ∧
      (t.root.isComment = true ∨ ∃ v, (runFrom env s (run t)).2.kept? t.root.id = some v) := by
  refine ⟨(untimed_lawful.run env clock t).inv, ?_⟩
  cases comment : t.root.isComment with
  | true => exact .inl rfl
  | false =>
      right
      rw [runFrom_run clock] at ok ⊢
      rcases walked : runFrom env s (visit t.root) with ⟨e | v, u⟩
      · rw [walked] at ok
        cases ok
      · have gave : (runFrom env s (visitWithin maxDepth t.root)).1 = .ok v := by
          change (runFrom env s (visit t.root)).1 = _
          rw [walked]
        have kept := kept?_of_visitWithin gave room comment
        change (runFrom env s (visit t.root)).2.kept? t.root.id = some v at kept
        rw [walked] at kept
        exact ⟨v, kept⟩

/-- After a run that went well, a second run over the same tree goes well. It leaves the whole state
as it is, unless the first one ended with too many global names: then it records the warning about
them once more, and changes nothing else. -/
theorem Engine.run_again (root : Node) (env : Env) (b : Bundle)
    (lax : env.options.strict = false)
    (ok : (runFrom env (initial env.registry (Tree.ofRoot root) none b)
      (run (Tree.ofRoot root))).1 = .ok ()) :
    let tree := Tree.ofRoot root
    let first := (runFrom env (initial env.registry tree none b) (run tree)).2
    (pollution? env first = none → runFrom env first (run tree) = (.ok (), first)) ∧
      ∀ f, pollution? env first = some f →
        runFrom env first (run tree) =
            (.ok (), { first with bundle := first.bundle.add .warning f }) ∧
          first.bundle.add .warning f ≠ first.bundle := by
  intro tree first
  have room := (free_initial root env.registry none b).room (Node.Within.self _).mem_ids
  obtain ⟨clock, visited⟩ := visited_of_run rfl room ok
  have again : runFrom env first (run tree) =
      (.ok (), { first with bundle := checkedBundle env first }) :=
    runFrom_run_of_visited lax clock visited
  constructor
  · intro few
    rw [again, checkedBundle, few]
  · intro f many
    refine ⟨?_, Bundle.add_ne_self (pollution?_always many)⟩
    rw [again, checkedBundle, many]

/-- The script `var a, b, c, d;`. -/
def fourGlobals : Node :=
  let declarator (name : String) : Node := {
    kind := .variableDeclarator
    children := [{ kind := .identifier, role := some .name, text := name }] }
  { kind := .program
    children :=
      [{ kind := .variableDeclaration, children := ["a", "b", "c", "d"].map declarator }] }

/-- A script with four global names is warned about twice. -/
theorem Engine.run_again_four_globals :
    let tree := Tree.ofRoot fourGlobals
    let env : Env := { registry := ⟨#[], []⟩, file := "four.js", lines := .ofChars [] }
    let start := initial env.registry tree none {}
    let first := (runFrom env start (run tree)).2
    (env.options.strict = false ∧ (runFrom env start (run tree)).1 = .ok ()) ∧
      ∃ f, pollution? env first = some f ∧
        runFrom env first (run tree) =
            (.ok (), { first with bundle := first.bundle.add .warning f }) ∧
          first.bundle.add .warning f ≠ first.bundle := by
  intro tree env start first
  have lax : env.options.strict = false := rfl
  have ok : (runFrom env start (run tree)).1 = .ok () := rfl
  obtain ⟨-, warned⟩ := run_again fourGlobals env {} lax ok
  have many : (pollution? env first).isSome = true := by decide +kernel
  obtain ⟨f, found⟩ := Option.isSome_iff_exists.1 many
  refine ⟨⟨lax, ok⟩, f, found, ?_⟩
  -- With the local names in the goal, comparing it to the fact would run the script again.
  simp only [first, start, tree]
  exact warned f found

end AddonAudit.Script
