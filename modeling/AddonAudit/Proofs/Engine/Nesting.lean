import AddonAudit.Proofs.Analysis
import AddonAudit.Proofs.Engine.Core

/-!
# How deep visits are nested

A visit of a part starts while the visit of the node around it is open. To say how many visits are
open, a run is compared with one in which every visit is told the chain of open visits that ends
with its own, and that raises an alarm if it is about to evaluate a node at the end of a chain with
some property. A run that gives a value opens no chain that is longer than the greatest depth, and a
run that comes to such a chain ends there.

Only visits are links of such a chain. Looking for the target of an assignment goes through
parentheses, and binding a pattern goes through the patterns inside of it, without a visit.
-/

namespace AddonAudit.Script

open Engine Coupling

/-- Whether a visit of a node would evaluate it: its value is not kept, and it is no comment. -/
def State.evaluates (s : State) (n : Node) : Bool :=
  (s.kept? n.id).isNone && !n.isComment

namespace Engine

/-- Raise an alarm before the node at the end of a chain of visits is evaluated. -/
def soundAlarm (alarm : Fault) (P : List Node → Bool) (n : Node) (outer : List Node) :
    Engine Unit := do
  if (← get).evaluates n && P (n :: outer) then throw alarm

/-- The value of a node inside of other visits, the innermost one first, with an alarm at the end of
every chain with a property. -/
def visitInside (alarm : Fault) (P : List Node → Bool) : Nat → List Node → Node → Engine Value
  | 0, outer, n => do
    soundAlarm alarm P n outer
    evaluateOnce n (throw .depthExceeded)
  | fuel + 1, outer, n => do
    soundAlarm alarm P n outer
    evaluateOnce n (dispatch (visitInside alarm P fuel (n :: outer)) n)

/-- Analyse a whole tree, with an alarm at the end of every chain of visits with a property. -/
def runInside (alarm : Fault) (P : List Node → Bool) (fuel : Nat) (t : Tree) : Engine Unit := do
  checkDeadline
  let _ ← visitInside alarm P fuel [] t.root
  checkGlobals

/-- A run comes to a chain of open visits with a property: an alarm there makes a difference. -/
def Opens (env : Env) (s : State) (t : Tree) (fuel : Nat) (P : List Node → Bool) : Prop :=
  ∃ alarm, runFrom env s (runInside alarm P fuel t) ≠ runFrom env s (run t)

/-- A chain of visits is longer than the greatest depth. -/
def tooLong (chain : List Node) : Bool :=
  maxDepth < chain.length

variable {env : Env} {s : State} {n : Node} {x y : Engine Value}

theorem runFrom_soundAlarm (alarm : Fault) (P : List Node → Bool) (outer : List Node) :
    runFrom env s (soundAlarm alarm P n outer) =
      (if s.evaluates n && P (n :: outer) then .error alarm else .ok (), s) := by
  change runFrom env s (if _ then throw alarm else pure ()) = _
  split <;> rfl

theorem runFrom_evaluateOnce_of_evaluates (evaluates : s.evaluates n = true) :
    runFrom env s (evaluateOnce n x) = runFrom env s (evaluate n x) := by
  obtain ⟨absent, code⟩ := Bool.and_eq_true_iff.1 evaluates
  rw [runFrom_evaluateOnce, Option.isNone_iff_eq_none.1 absent]
  simp only [Bool.not_eq_true'] at code
  simp only [code, Bool.false_eq_true, if_false]

end Engine

/-- The same run on both sides, at least some levels deep. -/
def nest (env : Env) (k : Nat) : Coupling where
  left := env
  right := env
  Inv p := ∃ s, p = ⟨s, s⟩ ∧ k ≤ s.depth
  Step p q := q.left.depth = p.left.depth
  Val _ v w := v = w
  Excused e := e = .depthExceeded ∨ e = .timeout
  refl _ := rfl
  trans h h' := h'.trans h
  mono value _ := value

variable {env : Env} {k : Nat} {p : Pair} {n : Node} {x y : Engine Value}

theorem nest_lawful : (nest env k).Lawful :=
  UpToBook.lawful {
    env := rfl
    val := .rfl
    book := by
      rintro _ ⟨s, rfl, -⟩
      rfl
    change := by
      rintro _ t ⟨s, rfl, deep⟩
      exact ⟨⟨t.withBook s, rfl, deep⟩, rfl⟩
    enter := by
      rintro _ b ⟨s, rfl, deep⟩
      refine ⟨b.enter s, rfl, Nat.le_trans deep ?_⟩
      cases b with
      | scope kind => exact Nat.le_refl _
      | receiver => exact Nat.le_refl _
      | level => exact Nat.le_succ _
    leave := by
      rintro _ _ b ⟨s, rfl, deep⟩ ⟨t, rfl, -⟩ step
      have depth : (b.leave t).depth = s.depth := by
        cases b with
        | scope kind => exact step
        | receiver => exact step
        | level => exact congrArg (· - 1) step
      exact ⟨⟨b.leave t, rfl, depth ▸ deep⟩, depth⟩ }

/-- At the greatest depth no node is evaluated. -/
theorem nest_evaluate_of_le {s : State} (deep : maxDepth ≤ s.depth)
    {Q : Pair → Value → Value → Prop} {end₂ : Except Fault Value × State} :
    (nest env k).Ends p Q (runFrom env s (evaluate n x)) end₂ := by
  rw [runFrom_evaluate]
  split
  · exact .excused (.inr rfl)
  · exact .excused (.inl rfl)

/-- The level of a node is left as it was entered. -/
theorem nest_leaveLevel {s t u : State} (level : k ≤ s.depth)
    (h : (nest env (k + 1)).Leads ⟨s.count.2.enterLevel, s.count.2.enterLevel⟩ t u) :
    t = u ∧ k ≤ t.leaveLevel.depth ∧ t.leaveLevel.depth = s.depth := by
  obtain ⟨⟨_, same, -⟩, step⟩ := h
  cases same
  have depth : t.leaveLevel.depth = s.depth := congrArg (· - 1) step
  exact ⟨rfl, depth ▸ level, depth⟩

/-- Evaluating a node is one level deeper. -/
theorem nest_evaluate (body : ∀ q, (nest env (k + 1)).Holds q (nest env (k + 1)).Val x y) :
    (nest env k).Holds p (nest env k).Val (evaluate n x) (evaluate n y) := by
  rintro ⟨s, rfl, level⟩
  change (nest env k).Ends _ _ (runFrom env s (evaluate n x)) (runFrom env s (evaluate n y))
  rw [runFrom_evaluate, runFrom_evaluate]
  split
  · exact .excused (.inr rfl)
  split
  · exact .excused (.inl rfl)
  have ends : (nest env (k + 1)).Ends ⟨s.count.2.enterLevel, s.count.2.enterLevel⟩ _
      (runFrom env s.count.2.enterLevel x) (runFrom env s.count.2.enterLevel y) :=
    body _ ⟨s.count.2.enterLevel, rfl, Nat.succ_le_succ level⟩
  generalize runFrom env s.count.2.enterLevel x = end₁, runFrom env s.count.2.enterLevel y = end₂
    at ends
  cases ends with
  | @value t u v w leads value =>
      obtain ⟨rfl, deep, depth⟩ := nest_leaveLevel level leads
      obtain rfl : v = w := value
      exact .value ⟨⟨t.leaveLevel.keep n.id v, rfl, deep⟩, depth⟩ rfl
  | @fault t u e leads may =>
      obtain ⟨rfl, deep, depth⟩ := nest_leaveLevel level leads
      exact .fault e ⟨⟨t.leaveLevel, rfl, deep⟩, depth⟩ trivial
  | excused excused => exact .excused excused

/-- A node that is not evaluated is not the end of a chain. -/
theorem nest_unevaluated {s : State} (level : k ≤ s.depth) (unevaluated : s.evaluates n = false) :
    (nest env k).Ends ⟨s, s⟩ (nest env k).Val (runFrom env s (evaluateOnce n x))
      (runFrom env s (evaluateOnce n y)) := by
  have here : (nest env k).Leads ⟨s, s⟩ s s := ⟨⟨s, rfl, level⟩, rfl⟩
  rw [runFrom_evaluateOnce, runFrom_evaluateOnce]
  cases kept : s.kept? n.id with
  | some v =>
      simp only
      split
      · exact .fault _ here trivial
      · exact .value here rfl
  | none =>
      have comment : n.isComment = true := by
        simpa [State.evaluates, kept] using unevaluated
      simp only [comment, if_true]
      exact .value here rfl

/-- A visit and one with an alarm, one level outside of where their actions stay together. -/
theorem nest_watched (alarm : Fault) {outer : List Node}
    (body : outer.length < maxDepth →
      ∀ q, (nest env (outer.length + 1)).Holds q (nest env (outer.length + 1)).Val x y) :
    (nest env outer.length).Holds p (nest env outer.length).Val (evaluateOnce n x)
      (do soundAlarm alarm tooLong n outer; evaluateOnce n y) := by
  rintro ⟨s, rfl, level⟩
  change (nest env outer.length).Ends _ _ (runFrom env s (evaluateOnce n x))
    (runFrom env s (soundAlarm alarm tooLong n outer >>= fun _ => evaluateOnce n y))
  rw [runFrom_bind, runFrom_soundAlarm]
  cases evaluates : s.evaluates n with
  | false => exact nest_unevaluated level evaluates
  | true =>
      rw [runFrom_evaluateOnce_of_evaluates evaluates]
      by_cases deep : maxDepth ≤ outer.length
      · exact nest_evaluate_of_le (Nat.le_trans deep level)
      · have shallow := Nat.lt_of_not_le deep
        have short : tooLong (n :: outer) = false := decide_eq_false (Nat.not_lt.2 shallow)
        rw [short]
        change (nest env outer.length).Ends _ _ _ (runFrom env s (evaluateOnce n y))
        rw [runFrom_evaluateOnce_of_evaluates evaluates]
        exact nest_evaluate (body shallow) ⟨s, rfl, level⟩

/-- A visit ends as one with an alarm at the end of a chain that is too long, unless it is too deep
or the time is over. -/
theorem visitInside_nests (alarm : Fault) {fuel fuel' : Nat} (outer : List Node)
    (enough : maxDepth ≤ fuel + outer.length) (enough' : maxDepth ≤ fuel' + outer.length) :
    (nest env outer.length).Holds p (nest env outer.length).Val (visitWithin fuel n)
      (visitInside alarm tooLong fuel' outer n) := by
  induction fuel generalizing fuel' outer n p with
  | zero =>
      have deep : maxDepth ≤ outer.length := by omega
      cases fuel' <;> exact nest_watched alarm fun shallow => absurd shallow (Nat.not_lt.2 deep)
  | succ fuel ih =>
      cases fuel' with
      | zero =>
          have deep : maxDepth ≤ outer.length := by omega
          exact nest_watched alarm fun shallow => absurd shallow (Nat.not_lt.2 deep)
      | succ fuel' =>
          refine nest_watched alarm fun _ q => dispatch_holds nest_lawful fun c mem m inside p => ?_
          have chain : (n :: outer).length = outer.length + 1 := rfl
          have visits : (nest env (outer.length + 1)).Holds p (nest env (outer.length + 1)).Val
              (visitWithin fuel m) (visitInside alarm tooLong fuel' (n :: outer) m) :=
            ih (n :: outer) (by omega) (by omega)
          exact visits.imp fun _ _ _ _ _ value => ⟨value, fun _ => trivial⟩

/-- A run ends as one with an alarm at the end of a chain that is too long, unless it is too deep or
the time is over. -/
theorem runInside_nests (alarm : Fault) {fuel : Nat} (enough : maxDepth ≤ fuel) (t : Tree) :
    (nest env 0).Holds p Same (run t) (runInside alarm tooLong fuel t) := by
  have deadline : (nest env 0).Holds p Same checkDeadline checkDeadline := by
    rintro ⟨s, rfl, level⟩
    change (nest env 0).Ends _ _ (runFrom env s checkDeadline) (runFrom env s checkDeadline)
    rw [runFrom_checkDeadline]
    split
    · exact .excused (.inr rfl)
    · exact .value ⟨⟨_, rfl, Nat.zero_le _⟩, rfl⟩ rfl
  refine deadline.bind fun q _ _ _ _ => ?_
  have visits : (nest env 0).Holds q (nest env 0).Val (visit t.root)
      (visitInside alarm tooLong fuel [] t.root) :=
    visitInside_nests alarm [] (Nat.le_refl maxDepth) enough
  refine visits.bind fun _ _ _ _ _ => checkGlobals_holds nest_lawful ?_
  rintro ⟨s, rfl, -⟩
  rfl

/-- A run with an alarm is the run itself, or the run is too deep or the time is over. -/
theorem Engine.runInside_eq_or {s : State} (t : Tree) {fuel : Nat} (enough : maxDepth ≤ fuel)
    (alarm : Fault) :
    runFrom env s (runInside alarm tooLong fuel t) = runFrom env s (run t) ∨
      (runFrom env s (run t)).1 = .error .depthExceeded ∨
      (runFrom env s (run t)).1 = .error .timeout := by
  have ends : (nest env 0).Ends ⟨s, s⟩ Same (runFrom env s (run t))
      (runFrom env s (runInside alarm tooLong fuel t)) :=
    runInside_nests alarm enough t ⟨s, rfl, Nat.zero_le _⟩
  generalize runFrom env s (run t) = left, runFrom env s (runInside alarm tooLong fuel t) = right
    at ends
  cases ends with
  | value leads _ =>
      obtain ⟨_, same, -⟩ := leads.inv
      cases same
      exact .inl rfl
  | fault e leads _ =>
      obtain ⟨_, same, -⟩ := leads.inv
      cases same
      exact .inl rfl
  | excused excused => exact .inr (excused.imp (congrArg Except.error) (congrArg Except.error))

/-! ## Targets and patterns -/

/-- A target inside of a number of parentheses. -/
inductive InParentheses : Nat → Node → Node → Prop where
  | none (n : Node) : InParentheses 0 n n
  | around {k : Nat} {outer n inner : Node} (kind : outer.kind = .parenthesizedExpression)
      (first : outer.children.find? (·.kind ≠ .token) = some n) (rest : InParentheses k n inner) :
      InParentheses (k + 1) outer inner

/-- A pattern inside of a number of array and object patterns, in which it is the only part or the
value of the only pair. -/
inductive InPatterns : Nat → Node → Node → Prop where
  | none (n : Node) : InPatterns 0 n n
  | around {k : Nat} {outer n inner : Node} {before after : List Node}
      (kind : outer.kind = .arrayPattern ∨ outer.kind = .objectPattern)
      (parts : outer.children = before ++ n :: after)
      (tokens : ∀ c ∈ before ++ after, c.kind = .token) (rest : InPatterns k n inner) :
      InPatterns (k + 1) outer inner
  | pair {k : Nat} {outer n inner : Node} (kind : outer.kind = .pairPattern)
      (plain : ∀ key, outer.child? .key = some key → key.kind ≠ .computedPropertyName)
      (value : outer.child? .value = some n) (rest : InPatterns k n inner) :
      InPatterns k outer inner

namespace Engine

variable {visit : Visit} {d : Option Declaration}

theorem resolveFirst_of_find? {children : List Node} {n : Node}
    (first : children.find? (·.kind ≠ .token) = some n) :
    resolveFirst visit children = resolve visit n := by
  induction children with
  | nil => cases first
  | cons c rest ih =>
      rw [resolveFirst]
      by_cases token : c.kind = .token
      · rw [if_pos token]
        rw [List.find?_cons_of_neg (by simpa using token)] at first
        exact ih first
      · rw [if_neg token]
        rw [List.find?_cons_of_pos (by simpa using token)] at first
        cases first
        rfl

/-- Parentheses around a target are gone through without a visit. -/
theorem resolve_inParentheses {k : Nat} {target inner : Node} (h : InParentheses k target inner) :
    resolve visit target = resolve visit inner := by
  induction h with
  | none n => rfl
  | @around k outer n inner kind first rest ih =>
      obtain ⟨_, role, id, start, text, missing, children⟩ := outer
      cases kind
      have through : resolve visit
          ⟨.parenthesizedExpression, role, id, start, text, missing, children⟩ =
            resolveFirst visit children := by rw [resolve]
      rw [through, resolveFirst_of_find? first, ih]

theorem bind_token {n : Node} (token : n.kind = .token) : bind visit d n = pure () := by
  obtain ⟨_, role, id, start, text, missing, children⟩ := n
  cases token
  simp only [bind]

theorem bindEach_tokens {nodes : List Node} (tokens : ∀ c ∈ nodes, c.kind = .token) :
    bindEach visit d nodes = pure () := by
  induction nodes with
  | nil => rw [bindEach]
  | cons c rest ih =>
      obtain ⟨token, tokens⟩ := List.forall_mem_cons.1 tokens
      rw [bindEach, bind_token token, ih tokens]
      rfl

/-- Tokens bind nothing. -/
theorem bindEach_single {before after : List Node} {n : Node}
    (tokens : ∀ c ∈ before ++ after, c.kind = .token) :
    bindEach visit d (before ++ n :: after) = bind visit d n := by
  induction before with
  | nil =>
      have rest : bindEach visit d after = pure () := bindEach_tokens tokens
      rw [List.nil_append, bindEach, rest]
      exact bind_pure_unit
  | cons c before ih =>
      obtain ⟨token, tokens⟩ := List.forall_mem_cons.1 tokens
      rw [List.cons_append, bindEach, bind_token token]
      exact ih tokens

theorem bindAs_of_find? {role : Role} {children : List Node} {n : Node}
    (first : children.find? (·.role = some role) = some n) :
    bindAs visit d role children = bind visit d n := by
  induction children with
  | nil => cases first
  | cons c rest ih =>
      rw [bindAs]
      by_cases here : c.role = some role
      · rw [if_pos here]
        rw [List.find?_cons_of_pos (by simpa using here)] at first
        cases first
        rfl
      · rw [if_neg here]
        rw [List.find?_cons_of_neg (by simpa using here)] at first
        exact ih first

theorem visitComputed_of_plain {n : Node}
    (plain : ∀ key, n.child? .key = some key → key.kind ≠ .computedPropertyName) :
    visitComputed visit n .key = pure () := by
  unfold visitComputed
  cases found : n.child? .key with
  | none => rfl
  | some key =>
      have other : decide (key.kind = .computedPropertyName) = false :=
        decide_eq_false (plain key found)
      simp only [Option.forM, other]
      rfl

/-- Patterns around a pattern are gone through without a visit. -/
theorem bind_inPatterns {k : Nat} {pattern inner : Node} (h : InPatterns k pattern inner) :
    bind visit d pattern = bind visit d inner := by
  induction h with
  | none n => rfl
  | @around k outer n inner before after kind parts tokens rest ih =>
      have each : bind visit d outer = bindEach visit d outer.children := by
        obtain ⟨_, role, id, start, text, missing, children⟩ := outer
        rcases kind with same | same <;> cases same <;> simp only [bind]
      rw [each, parts, bindEach_single tokens, ih]
  | @pair k outer n inner kind plain value rest ih =>
      have through : bind visit d outer =
          visitComputed visit outer .key >>= fun _ => bindAs visit d .value outer.children := by
        obtain ⟨_, role, id, start, text, missing, children⟩ := outer
        cases kind
        simp only [bind]
      rw [through, visitComputed_of_plain plain, bindAs_of_find? value]
      exact ih

/-- The depth of visits is bounded by a fault: a run that gives a value opens no chain of visits
that is longer than the greatest depth, and without a deadline a run that comes to such a chain ends
because it is too deep. Nothing but visits counts: however many parentheses are around a target and
however many patterns are around a pattern, it is resolved and bound as it is without them. -/
theorem nesting_limits_visits_only (env : Env) (s : State) (t : Tree) {fuel : Nat}
    (enough : maxDepth ≤ fuel) :
    ((runFrom env s (run t)).1 = .ok () → ¬ Opens env s t fuel tooLong) ∧
      (s.clock = none → Opens env s t fuel tooLong →
        (runFrom env s (run t)).1 = .error .depthExceeded) ∧
      (∀ visit {k target inner}, InParentheses k target inner →
        resolve visit target = resolve visit inner) ∧
      ∀ visit d {k pattern inner}, InPatterns k pattern inner →
        bind visit d pattern = bind visit d inner := by
  refine ⟨?_, ?_, fun _ _ _ _ h => resolve_inParentheses h, fun _ _ _ _ _ h => bind_inPatterns h⟩
  · rintro ok ⟨alarm, differ⟩
    rcases runInside_eq_or t enough alarm with same | deep | late
    · exact differ same
    · exact nomatch ok.symm.trans deep
    · exact nomatch ok.symm.trans late
  · rintro untimed ⟨alarm, differ⟩
    rcases runInside_eq_or t enough alarm with same | deep | late
    · exact absurd same differ
    · exact deep
    · exact absurd rfl ((untimed_walking.run env untimed t).2 _ late)

/-- A number of parentheses around a node. -/
def parentheses : Nat → Node → Node
  | 0, n => n
  | k + 1, n => { kind := .parenthesizedExpression, role := n.role, children := [parentheses k n] }

theorem parentheses_kind_ne_token {k : Nat} {n : Node} (kind : n.kind ≠ .token) :
    (parentheses k n).kind ≠ .token := by
  cases k with
  | zero => exact kind
  | succ k => exact nofun

theorem inParentheses_parentheses {n : Node} (kind : n.kind ≠ .token) (k : Nat) :
    InParentheses k (parentheses k n) n := by
  induction k with
  | zero => exact .none n
  | succ k ih =>
      have first : [parentheses k n].find? (·.kind ≠ .token) = some (parentheses k n) :=
        List.find?_cons_of_pos (by simpa using parentheses_kind_ne_token kind)
      exact .around rfl first ih

/-- A script of one expression. -/
def expressionOnly (n : Node) : Tree :=
  .ofRoot { kind := .program, children := [{ kind := .expressionStatement, children := [n] }] }

/-- The scripts `((…x…)) = true;` and `((…true…));`, with one pair of parentheses more than the
greatest depth: the first one runs to its end, and the second one does not. -/
theorem nesting_limits_visits_only_parentheses :
    let x : Node := { kind := .identifier, role := some .left, text := "x" }
    let target := parentheses (maxDepth + 1) x
    let stored := expressionOnly {
      kind := .assignmentExpression
      children := [target, { kind := .trueLiteral, role := some .right }] }
    let value := expressionOnly (parentheses (maxDepth + 1) { kind := .trueLiteral })
    let env : Env := { registry := ⟨#[], []⟩, file := "deep.js", lines := .ofChars [] }
    (runFrom env (initial env.registry stored none {}) (run stored)).1 = .ok () ∧
      ¬ Opens env (initial env.registry stored none {}) stored maxDepth tooLong ∧
      (∀ visit, resolve visit target = resolve visit x) ∧
      Opens env (initial env.registry value none {}) value maxDepth tooLong ∧
      (runFrom env (initial env.registry value none {}) (run value)).1 = .error .depthExceeded := by
  intro x target stored value env
  have ok : (runFrom env (initial env.registry stored none {}) (run stored)).1 = .ok () := by
    decide +kernel
  have alarmed : (runFrom env (initial env.registry value none {})
      (runInside .timeout tooLong maxDepth value)).1 ≠
        (runFrom env (initial env.registry value none {}) (run value)).1 := by
    decide +kernel
  have opens : Opens env (initial env.registry value none {}) value maxDepth tooLong :=
    ⟨.timeout, fun same => alarmed (congrArg Prod.fst same)⟩
  obtain ⟨short, -, through, -⟩ :=
    nesting_limits_visits_only env (initial env.registry stored none {}) stored
      (Nat.le_refl maxDepth)
  obtain ⟨-, deep, -⟩ :=
    nesting_limits_visits_only env (initial env.registry value none {}) value (Nat.le_refl maxDepth)
  have around : InParentheses (maxDepth + 1) target x := inParentheses_parentheses (by decide) _
  exact ⟨ok, short ok, fun visit => through visit around, opens, deep rfl opens⟩

end Engine

end AddonAudit.Script
