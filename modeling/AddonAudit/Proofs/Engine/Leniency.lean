import AddonAudit.Proofs.Engine.Core
import AddonAudit.Proofs.Engine.Rerun

/-!
# Strict and lenient runs

A strict run differs from a lenient one only where a node is visited a second time: there it faults,
and the lenient run reads the kept value. So the two runs stay in the same state for as long as the
strict one goes on, and a strict run that does not fault in this way tells exactly how the lenient
run ends.
-/

namespace AddonAudit.Script

open Engine Coupling

/-- The same setting with a choice of strictness. -/
def Env.withStrict (env : Env) (strict : Bool) : Env :=
  { env with options := { env.options with strict } }

/-- How the lenient run of an engine compares with the strict one: it ends in the same way, or the
strict one came to a node a second time. -/
inductive Relaxed (strict lenient : Except Fault Unit × State) : Prop where
  | same (end_eq : lenient = strict)
  | again (kind : Kind) (line : Nat) (fault : strict.1 = .error (.retraversal kind line))

/-- A strict run beside a lenient one, in the same state. A second visit of a node is excused. -/
def leniency (env : Env) : Coupling where
  left := env.withStrict true
  right := env.withStrict false
  Inv p := ∃ s, p = ⟨s, s⟩
  Step _ _ := True
  Val _ v w := v = w
  Excused e := ∃ kind line, e = .retraversal kind line
  refl _ := trivial
  trans _ _ := trivial
  mono value _ := value

variable {env : Env}

theorem leniency_lawful : (leniency env).Lawful :=
  UpToBook.lawful {
    env := rfl
    val := .rfl
    book := by
      rintro _ ⟨s, rfl⟩
      rfl
    change := by
      rintro _ t ⟨s, rfl⟩
      exact ⟨⟨t.withBook s, rfl⟩, trivial⟩
    enter := by
      rintro _ b ⟨s, rfl⟩
      exact ⟨b.enter s, rfl⟩
    leave := by
      rintro _ _ b - ⟨s, rfl⟩ -
      exact ⟨⟨b.leave s, rfl⟩, trivial⟩ }

theorem leniency_walks : (leniency env).Walks fun _ => True where
  toLawful := leniency_lawful
  strict := .inr ⟨rfl, fun kind line => ⟨kind, line, rfl⟩⟩
  count := by
    rintro _ ⟨s, rfl⟩
    exact ⟨rfl, ⟨s.count.2, rfl⟩, trivial⟩
  depth := by
    rintro _ ⟨s, rfl⟩
    exact .inl rfl
  kept := by
    rintro _ n ⟨s, rfl⟩ -
    exact related_self fun _ _ => rfl
  keep := by
    rintro _ v _ n ⟨s, rfl⟩ - ⟨rfl, -⟩
    exact ⟨⟨s.keep n.id v, rfl⟩, trivial⟩
  faults _ _ := trivial
  late _ _ := trivial

theorem leniency_checkDeadline {p : Pair} :
    (leniency env).Holds p Same checkDeadline checkDeadline := by
  rintro ⟨s, rfl⟩
  rw [runFrom_checkDeadline, runFrom_checkDeadline]
  split
  · exact .fault _ ⟨⟨_, rfl⟩, trivial⟩ trivial
  · exact .value ⟨⟨_, rfl⟩, trivial⟩ rfl

/-- From the same state, a strict and a lenient run over a tree end in the same way, or the strict
one comes to a node a second time. -/
theorem lenient_eq_strict (env : Env) (s : State) (t : Tree) :
    Relaxed (runFrom (env.withStrict true) s (run t))
      (runFrom (env.withStrict false) s (run t)) := by
  have held : (leniency env).Holds ⟨s, s⟩ Same (run t) (run t) := by
    refine run_holds leniency_walks leniency_checkDeadline (fun _ => trivial) ?_
    rintro _ ⟨s, rfl⟩
    rfl
  have ends : (leniency env).Ends ⟨s, s⟩ Same (runFrom (env.withStrict true) s (run t))
      (runFrom (env.withStrict false) s (run t)) := held ⟨s, rfl⟩
  generalize runFrom (env.withStrict true) s (run t) = strict,
    runFrom (env.withStrict false) s (run t) = lenient at ends ⊢
  cases ends with
  | value leads same =>
      obtain ⟨s, here⟩ := leads.inv
      cases here
      cases same
      exact .same rfl
  | fault e leads _ =>
      obtain ⟨s, here⟩ := leads.inv
      cases here
      exact .same rfl
  | excused excused =>
      obtain ⟨kind, line, rfl⟩ := excused
      exact .again kind line rfl

/-- Strictness only checks. Where a strict run from the start goes well, so does the lenient one,
and it ends in the same state: with the same reports, objects, names and kept values. Where a strict
run faults for another reason than a second visit, the lenient one faults for the same reason in the
same state. -/
theorem Engine.strict_only_checks (env : Env) (t : Tree) (clock : Clock) (b : Bundle) :
    let start := initial env.registry t clock b
    let strict := runFrom (env.withStrict true) start (run t)
    let lenient := runFrom (env.withStrict false) start (run t)
    (strict.1 = .ok () → lenient = (.ok (), strict.2)) ∧
      ∀ e, strict.1 = .error e → (∀ kind line, e ≠ .retraversal kind line) →
        lenient = (.error e, strict.2) := by
  intro start strict lenient
  rcases lenient_eq_strict env start t with same | ⟨kind, line, again⟩
  · constructor
    · intro ok
      exact same.trans (Prod.ext ok rfl)
    · intro e fault _
      exact same.trans (Prod.ext fault rfl)
  · constructor
    · intro ok
      cases ok.symm.trans again
    · intro e fault other
      cases fault.symm.trans again
      exact absurd rfl (other kind line)

/-- The expression `((…(null)…))` with many parentheses. -/
def parenthesized : Nat → Node
  | 0 => { kind := .nullLiteral }
  | depth + 1 => { kind := .parenthesizedExpression, children := [parenthesized depth] }

/-- A strict run over four declarations goes well, and one over too many parentheses gives up: the
lenient runs do the same. -/
theorem Engine.strict_only_checks_four_globals_and_parentheses :
    let env : Env := { registry := ⟨#[], []⟩, file := "code.js", lines := .ofChars [] }
    let few := Tree.ofRoot fourGlobals
    let deep := Tree.ofRoot (parenthesized maxDepth)
    let few₀ := initial env.registry few none {}
    let deep₀ := initial env.registry deep none {}
    (runFrom (env.withStrict true) few₀ (run few)).1 = .ok () ∧
      runFrom (env.withStrict false) few₀ (run few) =
        (.ok (), (runFrom (env.withStrict true) few₀ (run few)).2) ∧
      (runFrom (env.withStrict true) deep₀ (run deep)).1 = .error .depthExceeded ∧
      runFrom (env.withStrict false) deep₀ (run deep) =
        (.error .depthExceeded, (runFrom (env.withStrict true) deep₀ (run deep)).2) := by
  intro env few deep few₀ deep₀
  have ok : (runFrom (env.withStrict true) few₀ (run few)).1 = .ok () := by decide +kernel
  have fault : (runFrom (env.withStrict true) deep₀ (run deep)).1 = .error .depthExceeded := by
    decide +kernel
  refine ⟨ok, (strict_only_checks env few none {}).1 ok, fault, ?_⟩
  refine (strict_only_checks env deep none {}).2 _ fault fun kind line same => ?_
  cases same

end AddonAudit.Script
