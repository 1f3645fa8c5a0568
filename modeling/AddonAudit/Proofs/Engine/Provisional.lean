import AddonAudit.Proofs.Continuation
import AddonAudit.Proofs.Engine.AppendOnly
import AddonAudit.Proofs.Engine.Kept
import AddonAudit.Proofs.Engine.Overwrite

/-!
# Records that are taken back

A string literal that names a guarded preference is reported when it is visited, and its value
carries the number of the record. A call that reads or writes a preference takes back the records of
those arguments that are string literals. Other values may carry numbers of records that are older
than the call; they are never taken back, because only the values of string literals are, and a
literal inside of a call that was not visited before gets its number inside of the call.
-/

namespace AddonAudit.Script

open Engine Coupling Bundle

/-- No node inside of a node has a kept value. -/
def Node.Unvisited (n : Node) (s : State) : Prop :=
  ∀ m : Node, m.Within n → s.kept? m.id = none

theorem Node.Unvisited.inside {m n : Node} {s : State} (h : n.Unvisited s) (inside : m.Within n) :
    m.Unvisited s := fun k deep => h k (deep.trans inside)

theorem Node.Unvisited.of_eq {n : Node} {s t : State} (h : n.Unvisited s)
    (same : t.results = s.results) : n.Unvisited t := by
  intro m inside
  rw [State.kept?, same]
  exact h m inside

/-- What is kept under other numbers leaves a node unvisited. -/
theorem Node.Unvisited.after {n : Node} {s t : State} {ids : List Nat} (h : n.Unvisited s)
    (kept : KeptInside (· ∈ ids) s t) (apart : ids.Disjoint n.ids) : n.Unvisited t := by
  intro m inside
  rw [kept.kept? fun mem => apart mem inside.mem_ids]
  exact h m inside

/-- What a run keeps inside of a node that was not visited before: the bundle goes on from the one
at the start, and the kept values of string literals carry no earlier record. -/
structure Tracked (l : Ledger) (b : Bundle) (root : Node) (s : State) : Prop where
  continues : Continues l b s.bundle
  literals : ∀ m : Node, m.Within root → m.kind = .string → ∀ v, s.kept? m.id = some v → v.Recent b

/-- Tracking as an invariant: only the values of string literals carry no earlier record. -/
def tracking (l : Ledger) (b : Bundle) (root : Node) : Invariant where
  Inv := Tracked l b root
  Step _ _ := True
  Val _ _ := True
  Literal v := v.Recent b
  refl _ := trivial
  trans _ _ := trivial
  mono _ _ := trivial

variable {l : Ledger} {b : Bundle} {root n : Node} {s t : State} {env : Env} {fuel : Nat}

theorem Tracked.start (fits : s.bundle.Fits l) (new : root.Unvisited s) :
    Tracked l s.bundle root s := by
  refine ⟨.refl fits, fun m inside _ v kept => ?_⟩
  rw [new m inside] at kept
  cases kept

theorem Tracked.of_eq (h : Tracked l b root s) (bundle : t.bundle = s.bundle)
    (results : t.results = s.results) : Tracked l b root t := by
  refine ⟨bundle ▸ h.continues, fun m inside literal v kept => h.literals m inside literal v ?_⟩
  rwa [State.kept?, results] at kept

/-- A state with another bundle that goes on as well. -/
theorem Tracked.rebundle {c : Bundle} (h : Tracked l b root s) (continues : Continues l b c) :
    Tracked l b root { s with bundle := c } :=
  ⟨continues, h.literals⟩

theorem Tracked.keep {v : Value} (h : Tracked l b root s) (distinct : root.Distinct)
    (inside : n.Within root) (literal : n.kind = .string → v.Recent b) :
    Tracked l b root (s.keep n.id v) := by
  refine ⟨h.continues, fun m within string w kept => ?_⟩
  rw [State.kept?, State.keep, Array.getElem?_setIfInBounds] at kept
  split at kept
  next same =>
    obtain rfl := distinct.eq_of_id inside within same
    split at kept
    · cases kept
      exact literal string
    · cases kept
  next => exact h.literals m within string w kept

theorem tracking_of_eq (h : Tracked l b root s) (bundle : t.bundle = s.bundle)
    (results : t.results = s.results) : (tracking l b root).Leads s t :=
  ⟨h.of_eq bundle results, trivial⟩

theorem tracking_lasting (start : Numbered b) (distinct : root.Distinct) :
    (tracking l b root).Lasting (·.Within root) where
  plain _ _ := trivial
  find _ _ := trivial
  receiver _ := trivial
  kept _ _ := trivial
  property _ _ _ _ := trivial
  infer _ inv _ _ := tracking_of_eq inv rfl rfl
  storeGlobal _ inv _ _ := tracking_of_eq inv rfl rfl
  declare _ _ inv _ _ := tracking_of_eq inv rfl rfl
  overwrite inv _ found := tracking_of_eq inv (overwrite?_bundle found) (overwrite?_results found)
  setProperty _ inv _ _ _ := tracking_of_eq inv rfl rfl
  newObject inv := ⟨tracking_of_eq inv rfl rfl, fun _ => trivial⟩
  newArray inv _ := ⟨tracking_of_eq inv rfl rfl, fun _ => trivial⟩
  record severity f inv _ := ⟨inv.rebundle (inv.continues.push severity f), trivial⟩
  carry _ _ _ _ _ := trivial
  carried severity f text inv := push_recent inv.continues.grown severity f text
  literal _ := Value.IsPlain.recent (.string _)
  drop inv _ literal carried :=
    ⟨inv.rebundle (inv.continues.drop start (literal _ carried)), trivial⟩
  tick _ inv _ := tracking_of_eq inv rfl rfl
  keptLiteral inv inside literal kept := inv.literals _ inside literal _ kept
  keep inv inside value := ⟨inv.keep distinct inside value.2, trivial⟩
  faults _ := trivial
  enter bracket inv := by
    cases bracket <;> exact inv.of_eq rfl rfl
  leave bracket _ inv _ := by
    cases bracket <;> exact ⟨inv.of_eq rfl rfl, trivial⟩
  outside _ _ := trivial

/-- A first visit, however it ends, takes back no earlier record. -/
theorem visitWithin_continues (fits : s.bundle.Fits l) (distinct : n.Distinct)
    (new : n.Unvisited s) :
    Continues l s.bundle (runFrom env s (visitWithin fuel n)).2.bundle := by
  have lasting : (tracking l s.bundle n).Lasting (·.Within n) :=
    tracking_lasting fits.sound.numbered distinct
  exact (lasting.visitWithin env (.start fits new) fuel fun _ inside => inside).inv.continues

/-- The value of a callee keeps what visits keep. -/
theorem Invariant.Lasting.calleeValue {I : Invariant} {Known : Node → Prop} (K : I.Lasting Known)
    (env : Env) (inv : I.Inv s) (fuel : Nat) (known : ∀ m : Node, m.Within n → Known m)
    (unbounded : I.reach = {} := by rfl) :
    I.Leads s (runFrom env s (Engine.calleeValue (Engine.visitWithin fuel) n)).2 := by
  have walks : (I.coupling env).Walks Known := K.walks (.of_unbounded unbounded)
  have visits : (I.coupling env).Visits (Engine.visitWithin fuel) (Engine.visitWithin fuel) n := by
    intro m inside p
    refine visitWithin_at walks fuel (fun k deep => known k (deep.trans inside)) ?_
    exact fun _ _ => .of_unbounded unbounded
  exact (of_holds inv (calleeValue_holds walks.toLawful visits)).1

theorem calleeValue_continues (fits : s.bundle.Fits l) (distinct : n.Distinct)
    (new : n.Unvisited s) :
    Continues l s.bundle (runFrom env s (calleeValue (visitWithin fuel) n)).2.bundle := by
  have lasting : (tracking l s.bundle n).Lasting (·.Within n) :=
    tracking_lasting fits.sound.numbered distinct
  exact (lasting.calleeValue env (.start fits new) fuel fun _ inside => inside).inv.continues

theorem calleeValue_keptInside :
    KeptInside (· ∈ n.ids) s (runFrom env s (calleeValue (visitWithin fuel) n)).2 :=
  (keeping_lasting.calleeValue env trivial fuel fun _ inside => inside.mem_ids).step

/-! ## Literals -/

/-- The identifier of a report about a literal that names a guarded preference. -/
def literalPreference : List String :=
  ["javascript", "preference", "literal_pref"]

/-- The warnings that are there in the second state and were not in the first one. -/
def raised (s t : State) : List Record :=
  t.bundle.warnings.drop s.bundle.warnings.length

theorem raised_of_append {new : List Record} (h : t.bundle.warnings = s.bundle.warnings ++ new) :
    raised s t = new := by
  rw [raised, h, List.drop_left]

theorem raised_of_grown (h : s.bundle.Grown t.bundle) :
    t.bundle.warnings = s.bundle.warnings ++ raised s t ∧
      ∀ r ∈ raised s t, s.bundle.next ≤ r.uid := by
  obtain ⟨new, grown, above⟩ := h.records .warning
  rw [raised_of_append grown]
  exact ⟨grown, above⟩

/-- A report adds at most its own warning. -/
theorem push_warnings (severity : Severity) (f : Finding) (b : Bundle) :
    ∃ new, (b.push severity f).2.warnings = b.warnings ++ new ∧ ∀ r ∈ new, r.id = f.id := by
  rcases push_cases severity f b with left | made
  · rw [left]
    exact ⟨[], (List.append_nil _).symm, List.forall_mem_nil _⟩
  · rw [made]
    have records : (b.append (b.stamp severity f)).warnings =
        if severity = .warning then b.warnings ++ [b.stamp severity f] else b.warnings :=
      append_records (t := .warning)
    rw [records]
    split
    · exact ⟨[b.stamp severity f], rfl, fun r mem => List.mem_singleton.1 mem ▸ rfl⟩
    · exact ⟨[], (List.append_nil _).symm, List.forall_mem_nil _⟩

/-- A finding at a node is found without a change of the state. -/
theorem runFrom_findingAt (env : Env) (s : State) (id : List String) (message : String) (n : Node) :
    ∃ f : Finding, f.id = id ∧ runFrom env s (findingAt id message n) = (.ok f, s) :=
  ⟨_, rfl, rfl⟩

theorem runFrom_record (env : Env) (s : State) (severity : Severity) (f : Finding) :
    runFrom env s (Engine.record severity f) =
      (.ok (s.bundle.push severity f).1, { s with bundle := (s.bundle.push severity f).2 }) := rfl

/-- Reporting tests adds warnings of these tests only. -/
theorem runFrom_reportTests (env : Env) (s : State) (n : Node) (tests : List PatternTest) :
    ∃ t new, runFrom env s (reportTests n tests) = (.ok (), t) ∧
      t.bundle.warnings = s.bundle.warnings ++ new ∧ ∀ r ∈ new, r.id ∈ tests.map (·.id) := by
  induction tests generalizing s with
  | nil => exact ⟨s, [], rfl, (List.append_nil _).symm, List.forall_mem_nil _⟩
  | cons test rest ih =>
      obtain ⟨f, own, found⟩ := runFrom_findingAt env s test.id test.message n
      obtain ⟨first, added, ids⟩ := push_warnings test.severity (test.decorate f) s.bundle
      obtain ⟨t, new, done, more, others⟩ :=
        ih { s with bundle := (s.bundle.push test.severity (test.decorate f)).2 }
      refine ⟨t, first ++ new, ?_, ?_, fun r mem => ?_⟩
      · rw [reportTests, runFrom_bind, found]
        simp only
        rw [runFrom_bind, runFrom_record]
        exact done
      · rw [more, ← List.append_assoc]
        exact congrArg (· ++ new) added
      · rcases List.mem_append.1 mem with mem | mem
        · exact List.mem_cons.2 (.inl ((ids r mem).trans own))
        · exact List.mem_cons_of_mem _ (others r mem)

/-- A literal that names a guarded preference adds the warning whose number is given back. -/
theorem runFrom_checkPreference (env : Env) (s : State) (n : Node) (literal : String) :
    ∃ provisional t first, runFrom env s (checkPreference literal n) = (.ok provisional, t) ∧
      t.bundle.warnings = s.bundle.warnings ++ first ∧ (∀ r ∈ first, r.id = literalPreference) ∧
      first.map (·.uid) = provisional.toList := by
  unfold checkPreference
  cases GuardedPreference.find? literal with
  | none => exact ⟨none, s, [], rfl, (List.append_nil _).symm, List.forall_mem_nil _, rfl⟩
  | some p =>
      obtain ⟨g, own, found⟩ := runFrom_findingAt env s literalPreference
        "Potentially unsafe preference branch referenced" n
      let f : Finding := { g with
        description := ["The preference \x60" ++ literal ++ "\x60 is referenced.", p.reason] }
      refine ⟨(s.bundle.push .warning f).1, { s with bundle := (s.bundle.push .warning f).2 }, ?_⟩
      have ran : runFrom env s (do
            let f ← findingAt literalPreference "Potentially unsafe preference branch referenced" n
            Engine.record .warning { f with
              description :=
                ["The preference \x60" ++ literal ++ "\x60 is referenced.", p.reason] }) =
          (.ok (s.bundle.push .warning f).1,
            { s with bundle := (s.bundle.push .warning f).2 }) := by
        rw [runFrom_bind, found]
        exact runFrom_record env s .warning f
      rcases push_cases .warning f s.bundle with left | made
      · refine ⟨[], ran, ?_, List.forall_mem_nil _, ?_⟩
        · rw [left, List.append_nil]
        · rw [left]
          rfl
      · refine ⟨[s.bundle.stamp .warning f], ran, ?_, ?_, ?_⟩
        · rw [made]
          rfl
        · intro r mem
          rw [List.mem_singleton.1 mem]
          exact own
        · rw [made]
          rfl

/-- No test for literals is about preferences. -/
theorem literals_id_ne {test : PatternTest} (known : test ∈ Battery.literals) :
    test.id ≠ literalPreference := by
  have all : ∀ test ∈ Battery.literals, test.id ≠ literalPreference := by decide
  exact all test known

/-- The value of a string literal carries the number of the warning about its preference. -/
theorem stringValue_raised {v : Value} (ok : runFrom env s (stringValue n) = (.ok v, t)) :
    ((raised s t).filter (·.id = literalPreference)).map (·.uid) = v.provisional.toList := by
  obtain ⟨provisional, u, first, checked, added, own, numbers⟩ :=
    runFrom_checkPreference env s n (stringContent n)
  obtain ⟨w, new, tested, more, ids⟩ :=
    runFrom_reportTests env u n (Battery.matching (stringContent n))
  have ran : runFrom env s (stringValue n) =
      (.ok { Value.string (stringContent n) with provisional }, w) := by
    rw [stringValue, runFrom_bind, checked]
    simp only
    rw [runFrom_bind, tested]
    rfl
  rw [ran] at ok
  cases ok
  have all : raised s t = first ++ new :=
    raised_of_append (by rw [more, added, List.append_assoc])
  have kept : first.filter (·.id = literalPreference) = first :=
    List.filter_eq_self.2 fun r mem => decide_eq_true (own r mem)
  have others : new.filter (·.id = literalPreference) = [] := by
    refine List.filter_eq_nil_iff.2 fun r mem same => ?_
    obtain ⟨test, matching, id⟩ := List.mem_map.1 (ids r mem)
    exact literals_id_ne (mem_of_matching matching) (id.trans (of_decide_eq_true same))
  rw [all, List.filter_append, kept, others, List.append_nil]
  exact numbers

/-- The same for the first visit of a string literal. -/
theorem visitWithin_raised {v : Value} (literal : n.kind = .string) (new : s.kept? n.id = none)
    (ok : runFrom env s (visitWithin fuel n) = (.ok v, t)) :
    ((raised s t).filter (·.id = literalPreference)).map (·.uid) = v.provisional.toList := by
  have code : n.isComment = false := by
    rw [Node.isComment, literal]
    rfl
  obtain ⟨less, u, ran, last⟩ := runFrom_visitWithin_of_ok new code (congrArg Prod.fst ok)
  rw [ok] at last
  rw [dispatch_of_string literal] at ran
  have same : raised s t = raised s.count.2.enterLevel u := by
    rw [show t = u.leaveLevel.keep n.id v from last]
    rfl
  rw [same]
  exact stringValue_raised ran

/-! ## Arguments -/

/-- The nodes of the arguments of a call; those of a tagged template are the template. -/
def argumentNodes (n : Node) : List Node :=
  match n.child? .arguments with
  | none => []
  | some list => if list.kind = .templateString then [list] else list.parts

theorem argumentValues_eq (visit : Visit) (n : Node) :
    argumentValues visit n = elementValues visit (argumentNodes n) := by
  unfold argumentValues argumentNodes
  cases n.child? .arguments with
  | none => rfl
  | some list =>
      simp only
      split <;> rfl

/-- The warnings about preferences that are raised by those arguments that are string literals. The
arguments are evaluated in order, from a state on. -/
def inlineLiterals (env : Env) (visit : Visit) : State → List Node → List Record
  | _, [] => []
  | s, n :: rest =>
    if n.kind = .comment then inlineLiterals env visit s rest
    else
      let t := (runFrom env s (visit n)).2
      (if n.kind = .string then (raised s t).filter (·.id = literalPreference) else []) ++
        inlineLiterals env visit t rest

/-- The numbers that arguments carry which are string literals. -/
def carriedNumbers (args : Arguments) : List Nat :=
  args.flatMap fun a => if a.1.kind = .string then a.2.provisional.toList else []

/-- What arguments leave: the bundle goes on, and the numbers that their literals carry are those of
the warnings that these literals raised, which are still there. -/
structure Evaluated (l : Ledger) (s t : State) (inline : List Record) (args : Arguments) :
    Prop where
  continues : Continues l s.bundle t.bundle
  numbers : inline.map (·.uid) = carriedNumbers args
  there : ∀ r ∈ inline, r ∈ t.bundle.warnings ∧ s.bundle.next ≤ r.uid

/-- One more argument goes before the others. -/
theorem Evaluated.cons {u : State} {v : Value} {inline : List Record} {args : Arguments}
    (fits : s.bundle.Fits l) (distinct : n.Distinct) (new : n.Unvisited s)
    (visited : runFrom env s (visitWithin fuel n) = (.ok v, u))
    (rest : Evaluated (l.since s.bundle u.bundle) u t inline args) :
    Evaluated l s t
      ((if n.kind = .string then (raised s u).filter (·.id = literalPreference) else []) ++
      inline) ((n, v) :: args) := by
  have goes : Continues l s.bundle (runFrom env s (visitWithin fuel n)).2.bundle :=
    visitWithin_continues fits distinct new
  rw [visited] at goes
  obtain ⟨-, above⟩ := raised_of_grown goes.grown
  obtain ⟨later, kept, -⟩ := rest.continues.grown.records .warning
  refine ⟨goes.trans rest.continues, ?_, fun r mem => ?_⟩
  · have own : (if n.kind = .string then (raised s u).filter (·.id = literalPreference) else []).map
        (·.uid) = if n.kind = .string then v.provisional.toList else [] := by
      split
      next literal => exact visitWithin_raised literal (new n (.self n)) visited
      next => rfl
    rw [List.map_append, own, rest.numbers]
    rfl
  · rcases List.mem_append.1 mem with mem | mem
    · split at mem
      next =>
        obtain ⟨mem, -⟩ := List.mem_filter.1 mem
        refine ⟨?_, above r mem⟩
        have there : r ∈ u.bundle.warnings := List.mem_of_mem_drop mem
        rw [show t.bundle.warnings = u.bundle.warnings ++ later from kept]
        exact List.mem_append_left later there
      next => cases mem
    · obtain ⟨there, recent⟩ := rest.there r mem
      exact ⟨there, Nat.le_trans goes.grown.next recent⟩

theorem elementValues_evaluated {nodes : List Node} {args : Arguments} (fits : s.bundle.Fits l)
    (apart : Node.Apart nodes) (distinct : ∀ c ∈ nodes, c.Distinct)
    (new : ∀ c ∈ nodes, c.Unvisited s)
    (ok : runFrom env s (elementValues (visitWithin fuel) nodes) = (.ok args, t)) :
    Evaluated l s t (inlineLiterals env (visitWithin fuel) s nodes) args := by
  induction nodes generalizing l s args with
  | nil =>
      cases ok
      exact ⟨.refl fits, rfl, List.forall_mem_nil _⟩
  | cons n nodes ih =>
      obtain ⟨first, others⟩ := List.forall_mem_cons.1 distinct
      obtain ⟨newFirst, newOthers⟩ := List.forall_mem_cons.1 new
      rw [inlineLiterals]
      rw [elementValues] at ok
      split
      next comment =>
        rw [if_pos comment] at ok
        exact ih fits apart.cons.2 others newOthers ok
      next evaluated =>
        rw [if_neg evaluated] at ok
        obtain ⟨v, u, visited, rest⟩ := runFrom_bind_of_ok (congrArg Prod.fst ok)
        rw [rest] at ok
        obtain ⟨values, w, ran, last⟩ := runFrom_bind_of_ok (congrArg Prod.fst ok)
        rw [last] at ok
        cases ok
        have goes : Continues l s.bundle (runFrom env s (visitWithin fuel n)).2.bundle :=
          visitWithin_continues fits first newFirst
        have kept := visitWithin_keptInside env s fuel n
        rw [visited] at goes kept ⊢
        have later : ∀ c ∈ nodes, c.Unvisited u := fun c mem =>
          (newOthers c mem).after kept ((List.pairwise_cons.1 apart).1 c mem)
        exact .cons fits first newFirst visited (ih goes.fits apart.cons.2 others later ran)

namespace Evaluated

variable {s₁ s₂ : State} {inline : List Record} {args : Arguments}

/-- The records with the carried numbers are the warnings that the literals raised. -/
theorem carried_iff (h : Evaluated l s t inline args) {r : Record} (mem : r ∈ t.bundle.messages) :
    r.uid ∈ carriedNumbers args ↔ r ∈ inline := by
  rw [← h.numbers, List.mem_map]
  constructor
  · rintro ⟨x, raised, same⟩
    have there : x ∈ t.bundle.messages := mem_messages.2 ⟨.warning, (h.there x raised).1⟩
    rwa [← h.continues.fits.sound.numbered.eq_of_uid there mem same]
  · exact fun raised => ⟨r, raised, rfl⟩

theorem carried_recent (h : Evaluated l s t inline args) :
    ∀ uid ∈ carriedNumbers args, s.bundle.next ≤ uid := by
  intro uid mem
  rw [← h.numbers] at mem
  obtain ⟨r, raised, rfl⟩ := List.mem_map.1 mem
  exact (h.there r raised).2

/-- Taking back the numbers that literals carry takes exactly the warnings that they raised out of
those that the callee and the arguments raised. -/
theorem dropAll (called : Continues l s.bundle s₁.bundle) (start : Numbered s.bundle)
    (h : Evaluated (l.since s.bundle s₁.bundle) s₁ s₂ inline args) :
    Continues l s.bundle (s₂.bundle.dropAll (carriedNumbers args)) ∧
      (s₂.bundle.dropAll (carriedNumbers args)).warnings =
        s.bundle.warnings ++ (raised s s₂).filter (· ∉ inline) ∧
      ∀ severity, severity ≠ .warning →
        (s₂.bundle.dropAll (carriedNumbers args)).records severity =
          s₂.bundle.records severity := by
  have all : Continues l s.bundle s₂.bundle := called.trans h.continues
  have sound := all.fits.sound
  refine ⟨all.dropAll start fun uid mem => ?_, ?_, fun severity other => ?_⟩
  · exact Nat.le_trans called.grown.next (h.carried_recent uid mem)
  · obtain ⟨grown, -⟩ := raised_of_grown all.grown
    have earlier : s.bundle.warnings.filter (· ∉ inline) = s.bundle.warnings := by
      refine List.filter_eq_self.2 fun r mem => decide_eq_true fun raised => ?_
      have below := start.below r (mem_messages.2 ⟨.warning, mem⟩)
      have above := Nat.le_trans called.grown.next (h.there r raised).2
      omega
    have left : (s₂.bundle.dropAll (carriedNumbers args)).warnings =
        s₂.bundle.warnings.filter (· ∉ inline) := by
      refine (sound.dropAll_records _ .warning).trans (List.filter_congr fun r mem => ?_)
      rw [decide_eq_decide, h.carried_iff (mem_messages.2 ⟨.warning, mem⟩)]
    rw [left, grown, List.filter_append, earlier]
  · rw [sound.dropAll_records]
    refine List.filter_eq_self.2 fun r mem => decide_eq_true fun carried => other ?_
    have inside := (h.carried_iff (mem_messages.2 ⟨severity, mem⟩)).1 carried
    have warning := sound.sorted .warning r (h.there r inside).1
    exact (sound.sorted severity r mem).symm.trans warning

end Evaluated

/-! ## Calls -/

/-- The identifier of a report about a call that sets a guarded preference. -/
def preferenceWrite : List String :=
  ["javascript", "preference", "banned_pref_set"]

/-- Whether a call writes a preference, and its first argument is known and names a guarded one. -/
def setsGuarded (hook : CallHook) (h : Heap) (args : Arguments) : Bool :=
  hook = .writesPreference && (args.get? 0).any fun v =>
    !v.isDirty && (GuardedPreference.find? (h.toText v)).isSome

theorem runFrom_dropInlineLiterals (env : Env) (s : State) (args : Arguments) :
    runFrom env s (Hook.dropInlineLiterals args) =
      (.ok (), { s with bundle := s.bundle.dropAll (carriedNumbers args) }) := by
  induction args generalizing s with
  | nil => rfl
  | cons a rest ih =>
      obtain ⟨n, v⟩ := a
      rw [Hook.dropInlineLiterals, runFrom_bind]
      by_cases literal : n.kind = .string
      · have dropped : runFrom env s (Engine.when (n.kind = .string) (dropProvisional v)) =
            (.ok (), { s with bundle := s.bundle.dropAll v.provisional.toList }) := by
          rw [Engine.when, decide_eq_true literal, dropProvisional]
          cases v.provisional <;> rfl
        have numbers :
            carriedNumbers ((n, v) :: rest) = v.provisional.toList ++ carriedNumbers rest := by
          rw [carriedNumbers, List.flatMap_cons, if_pos literal]
          rfl
        rw [dropped, numbers, dropAll_append]
        exact ih _
      · have skipped : runFrom env s (Engine.when (n.kind = .string) (dropProvisional v)) =
            (.ok (), s) := by
          rw [Engine.when, decide_eq_false literal]
          rfl
        have numbers : carriedNumbers ((n, v) :: rest) = carriedNumbers rest := by
          rw [carriedNumbers, List.flatMap_cons, if_neg literal]
          rfl
        rw [skipped, numbers]
        exact ih s

/-- What the hook of a preference decides, once it has taken back the records of literals. -/
def preferenceOutcome (hook : CallHook) (h : Heap) (args : Arguments) : Outcome :=
  match if hook = .writesPreference then args.get? 0 else none with
  | none => .silent
  | some v =>
    if v.isDirty then .silent
    else match GuardedPreference.find? (h.toText v) with
      | none => .silent
      | some p => .flag {
          id := some preferenceWrite
          severity := some .warning
          message := some ("Attempt to set a dangerous preference: \x60" ++ h.toText v ++ "\x60")
          description := some p.reason
          signing := some p.signing }

theorem runFrom_heap {α : Type} (env : Env) (s : State) (f : Heap → Engine α) :
    runFrom env s (heap >>= f) = runFrom env s (f s.heap) := rfl

theorem runFrom_onCall_preference (env : Env) (s : State) {hook : CallHook} (args : Arguments)
    (preference : hook = .writesPreference ∨ hook = .readsPreference) :
    runFrom env s (Hook.onCall hook args) = (.ok (preferenceOutcome hook s.heap args),
      { s with bundle := s.bundle.dropAll (carriedNumbers args) }) := by
  have dropped := runFrom_dropInlineLiterals env s args
  rcases preference with rfl | rfl
  · change runFrom env s (Hook.writesPreference args) = _
    rw [Hook.writesPreference, runFrom_bind, dropped, preferenceOutcome, if_pos rfl]
    cases args.get? 0 with
    | none => rfl
    | some v =>
        simp only
        cases v.isDirty with
        | true => rfl
        | false =>
            rw [if_neg Bool.false_ne_true, if_neg Bool.false_ne_true, runFrom_heap]
            simp only
            cases GuardedPreference.find? (s.heap.toText v) with
            | none => rfl
            | some p => rfl
  · have reads : Hook.onCall .readsPreference args = (do
        Hook.dropInlineLiterals args
        return .silent) := rfl
    rw [reads, runFrom_bind, dropped]
    rfl

/-- The hook reports exactly the calls that set a guarded preference. -/
theorem preferenceOutcome_cases (hook : CallHook) (h : Heap) (args : Arguments) :
    (setsGuarded hook h args = true ∧
      ∃ advice : Advice, preferenceOutcome hook h args = .flag advice ∧
        advice.id = some preferenceWrite ∧ advice.severity = some .warning ∧ advice.gate = none) ∨
      (setsGuarded hook h args = false ∧ preferenceOutcome hook h args = .silent) := by
  by_cases writes : hook = .writesPreference
  · cases first : args.get? 0 with
    | none => exact .inr ⟨by simp [setsGuarded, first], by simp [preferenceOutcome, first]⟩
    | some v =>
        cases dirty : v.isDirty with
        | true =>
            exact .inr ⟨by simp [setsGuarded, first, dirty],
              by simp [preferenceOutcome, writes, first, dirty]⟩
        | false =>
            cases found : GuardedPreference.find? (h.toText v) with
            | none =>
                exact .inr ⟨by simp [setsGuarded, first, found],
                  by simp [preferenceOutcome, writes, first, dirty, found]⟩
            | some p =>
                refine .inl ⟨by simp [setsGuarded, writes, first, dirty, found], ?_⟩
                simp only [preferenceOutcome, writes, first, dirty, found, if_true, if_false,
                  Bool.false_eq_true]
                exact ⟨_, rfl, rfl, rfl, rfl⟩
  · exact .inr ⟨by simp [setsGuarded, writes], by simp [preferenceOutcome, writes]⟩

/-- What follows the decision of a hook. -/
def conclude (entity : EntityId) (n : Node) : Outcome → Engine Value
  | .value v => return v
  | .flag advice => do
    flag (some entity) advice n
    return .unknown
  | .silent => return .unknown

/-- A call of an entity that is not dangerous is up to its hook. -/
theorem runFrom_callValue_of_hook {f : Value} {entity : EntityId} {hook : CallHook}
    {args : Arguments} (called : f.entity = some entity)
    (safe : (env.registry.behavior entity).dangerous = none)
    (hooked : (env.registry.behavior entity).onCall = some hook) :
    runFrom env s (callValue f args n) =
      runFrom env s (Hook.onCall hook args >>= conclude entity n) := by
  rw [callValue, called]
  change runFrom env s
    (checkDanger entity (env.registry.behavior entity).dangerous args n >>= _) = _
  rw [safe, hooked]
  rfl

/-- A call of an entity with the hook of a preference takes back the records of literals, and then
records one warning if it sets a guarded preference. -/
theorem runFrom_callValue_preference {f : Value} {entity : EntityId} {hook : CallHook}
    {args : Arguments} (called : f.entity = some entity)
    (safe : (env.registry.behavior entity).dangerous = none)
    (hooked : (env.registry.behavior entity).onCall = some hook)
    (preference : hook = .writesPreference ∨ hook = .readsPreference)
    (ungated : (env.registry.advice entity).gate = none) :
    let left := s.bundle.dropAll (carriedNumbers args)
    (setsGuarded hook s.heap args = true ∧
      ∃ g : Finding, g.id = preferenceWrite ∧ g.forVersions = none ∧
        runFrom env s (callValue f args n) =
          (.ok .unknown, { s with bundle := (left.push .warning g).2 })) ∨
      (setsGuarded hook s.heap args = false ∧
        runFrom env s (callValue f args n) = (.ok .unknown, { s with bundle := left })) := by
  intro left
  have ran : runFrom env s (callValue f args n) = runFrom env { s with bundle := left }
      (conclude entity n (preferenceOutcome hook s.heap args)) := by
    rw [runFrom_callValue_of_hook called safe hooked, runFrom_bind,
      runFrom_onCall_preference env s args preference]
  rcases preferenceOutcome_cases hook s.heap args with
    ⟨sets, advice, decided, id, severity, gate⟩ | ⟨other, decided⟩
  · refine .inl ⟨sets, reported env (some entity) advice n, ?_, ?_, ?_⟩
    · refine (reports_reported env (some entity) advice n).id ?_
      show (advice.id <|> _) = _
      rw [id]
      rfl
    · rw [(reports_reported env (some entity) advice n).forVersions]
      have noGate : (advised env.registry (some entity) advice).gate = none := by
        show (advice.gate <|> (env.registry.advice entity).gate) = none
        rw [gate, ungated]
        rfl
      rw [noGate]
      rfl
    · have warning : (advised env.registry (some entity) advice).severity = some .warning := by
        show (advice.severity <|> _) = _
        rw [severity]
        rfl
      rw [ran, decided, conclude, runFrom_bind, runFrom_flag, warning]
      rfl
  · refine .inr ⟨other, ?_⟩
    rw [ran, decided]
    rfl

/-- A first visit of a call that gives a value runs the call to the end. -/
theorem runFrom_visitWithin_call {v : Value} (call : n.kind = .callExpression)
    (new : s.kept? n.id = none) (ok : runFrom env s (visitWithin (fuel + 1) n) = (.ok v, t)) :
    ∃ u, runFrom env s.count.2.enterLevel (callExpression (visitWithin fuel) n) = (.ok v, u) ∧
      t = u.leaveLevel.keep n.id v := by
  have code : n.isComment = false := by
    rw [Node.isComment, call]
    rfl
  have rule : n.kind.rule? = some (.value .call) := by
    rw [call]
    rfl
  obtain ⟨u, ran, last⟩ := runFrom_visitWithin_succ_of_ok new code (congrArg Prod.fst ok)
  rw [dispatch_of_value rule] at ran
  rw [ok] at last
  exact ⟨u, ran, last⟩

/-- A call that gives a value has a callee and arguments that give one. -/
theorem runFrom_callExpression_of_ok {visit : Visit} {callee : Node} {v : Value}
    (found : n.child? .function = some callee)
    (ok : runFrom env s (callExpression visit n) = (.ok v, t)) :
    ∃ f s₁ args s₂, runFrom env s (calleeValue visit callee) = (.ok f, s₁) ∧
      runFrom env s₁ (argumentValues visit n) = (.ok args, s₂) ∧
      runFrom env s₂ (callValue f args n) = (.ok v, t) := by
  rw [callExpression, found] at ok
  obtain ⟨f, s₁, called, rest⟩ := runFrom_bind_of_ok (congrArg Prod.fst ok)
  rw [rest] at ok
  obtain ⟨args, s₂, evaluated, last⟩ := runFrom_bind_of_ok (congrArg Prod.fst ok)
  rw [last] at ok
  exact ⟨f, s₁, args, s₂, called, evaluated, ok⟩

/-- The arguments are inside of the part of a call that is theirs. -/
theorem within_of_argumentNodes {c : Node} (mem : c ∈ argumentNodes n) :
    ∃ list, n.child? .arguments = some list ∧ c.Within list := by
  unfold argumentNodes at mem
  cases found : n.child? .arguments with
  | none =>
      rw [found] at mem
      cases mem
  | some list =>
      rw [found] at mem
      refine ⟨list, rfl, ?_⟩
      simp only at mem
      split at mem
      · rw [List.mem_singleton.1 mem]
        exact .self list
      · exact .ofChild (Node.mem_of_parts mem)

theorem apart_argumentNodes (distinct : n.Distinct) : Node.Apart (argumentNodes n) := by
  unfold argumentNodes
  cases found : n.child? .arguments with
  | none => exact .nil
  | some list =>
      simp only
      split
      · exact List.pairwise_singleton _ list
      · have inside : list.Distinct := distinct.child (Node.mem_of_child? found)
        exact inside.apart.sublist List.filter_sublist

/-- The callee and the arguments of a first call take back no earlier record. -/
theorem argumentValues_evaluated {callee : Node} {f : Value} {args : Arguments} {s₁ s₂ : State}
    (fits : s.bundle.Fits l) (distinct : n.Distinct) (new : n.Unvisited s)
    (found : n.child? .function = some callee)
    (called : runFrom env s (calleeValue (visitWithin fuel) callee) = (.ok f, s₁))
    (ok : runFrom env s₁ (argumentValues (visitWithin fuel) n) = (.ok args, s₂)) :
    Continues l s.bundle s₁.bundle ∧ Evaluated (l.since s.bundle s₁.bundle) s₁ s₂
      (inlineLiterals env (visitWithin fuel) s₁ (argumentNodes n)) args := by
  have mem := Node.mem_of_child? found
  have goes :
      Continues l s.bundle (runFrom env s (calleeValue (visitWithin fuel) callee)).2.bundle :=
    calleeValue_continues fits (distinct.child mem) (new.inside (.ofChild mem))
  have kept : KeptInside (· ∈ callee.ids) s
      (runFrom env s (calleeValue (visitWithin fuel) callee)).2 := calleeValue_keptInside
  rw [called] at goes kept
  rw [argumentValues_eq] at ok
  have inside : ∀ c ∈ argumentNodes n, c.Within n := by
    intro c mem
    obtain ⟨list, part, deep⟩ := within_of_argumentNodes mem
    exact .child (Node.mem_of_child? part) deep
  have apart : ∀ c ∈ argumentNodes n, callee.ids.Disjoint c.ids := by
    intro c mem id here there
    obtain ⟨list, part, deep⟩ := within_of_argumentNodes mem
    exact distinct.disjoint_of_roles found part nofun here (deep.ids_subset there)
  refine ⟨goes, elementValues_evaluated goes.fits (apart_argumentNodes distinct) ?_ ?_ ok⟩
  · exact fun c mem => distinct.inside (inside c mem)
  · exact fun c mem => (new.inside (inside c mem)).after kept (apart c mem)

/-- Where the first visit of a call can start in a run, the tree and the counts agree with the
records. -/
theorem fits_of_meets {tree : Tree} {clock : Clock} (fits : b.Fits l)
    (distinct : tree.root.Distinct)
    (meets : Meets env (initial env.registry tree clock b) tree fun _ u => u = s) :
    Continues l b s.bundle := by
  have lasting : (tracking l b tree.root).Lasting (·.Within tree.root) :=
    tracking_lasting fits.sound.numbered distinct
  have start : Tracked l b tree.root (initial env.registry tree clock b) :=
    .start fits fun m _ => kept?_initial env.registry tree clock b m.id
  obtain ⟨n, u, tracked, rfl⟩ := lasting.walking.of_meets start (fun _ inside => inside) meets
  exact tracked.continues

/-- In every state in which a run starts a visit, and for every call in its tree of which no node
has been visited: if the callee is an entity that reads or writes preferences and the call gives a
value, then its arguments give values, and the callee and the arguments only add warnings to those
before. Of the added ones exactly those about preferences go that were raised by arguments which are
string literals. One warning follows if and only if the call writes, and its first argument is known
and names a guarded preference. Nothing else changes, and the message tree and the summaries agree
with the records that are left, as they did before the run. -/
theorem Engine.preferenceCall_settles_literals (root : Node) {clock : Clock}
    (registry : env.registry = Catalogue.standard ∨ env.registry.Behaves Behavior.IsUngated)
    (fits : b.Fits l) {s₁ : State} {callee : Node} {f v : Value} {entity : EntityId}
    {hook : CallHook}
    (meets : Meets env (initial env.registry (.ofRoot root) clock b) (.ofRoot root)
      fun _ u => u = s)
    (inside : n.Within (Tree.ofRoot root).root) (call : n.kind = .callExpression)
    (new : n.Unvisited s) (found : n.child? .function = some callee)
    (called :
      runFrom env s.count.2.enterLevel (calleeValue (visitWithin fuel) callee) = (.ok f, s₁))
    (isEntity : f.entity = some entity) (safe : (env.registry.behavior entity).dangerous = none)
    (hooked : (env.registry.behavior entity).onCall = some hook)
    (preference : hook = .writesPreference ∨ hook = .readsPreference)
    (ok : runFrom env s (visitWithin (fuel + 1) n) = (.ok v, t)) :
    ∃ args s₂ last, runFrom env s₁ (argumentValues (visitWithin fuel) n) = (.ok args, s₂) ∧
      s₂.bundle.warnings = s.bundle.warnings ++ raised s s₂ ∧
      t.bundle.warnings = s.bundle.warnings ++
        (raised s s₂).filter (· ∉ inlineLiterals env (visitWithin fuel) s₁ (argumentNodes n)) ++
          last ∧
      last.map (·.id) = (if setsGuarded hook s₂.heap args then [preferenceWrite] else []) ∧
      (∀ severity, severity ≠ .warning → t.bundle.records severity = s₂.bundle.records severity) ∧
      t.bundle.tree = treeOf (t.bundle.live (l.since b t.bundle).own) ∧
      (∀ g, t.bundle.signing.get g = t.bundle.messages.countP (·.signing = some g)) ∧
      ∀ c, t.bundle.compat.get c = t.bundle.messages.countP (·.compatibility = some c) := by
  have distinct := Node.distinct_ofRoot root
  have earlier : Continues l b s.bundle := fits_of_meets fits distinct meets
  have ungated : env.registry.Behaves Behavior.IsUngated := by
    rcases registry with standard | ungated
    · exact standard ▸ Catalogue.standard_ungated
    · exact ungated
  obtain ⟨u, ran, rfl⟩ := runFrom_visitWithin_call call (new n (.self n)) ok
  obtain ⟨g, s₃, args, s₂, again, evaluated, last⟩ := runFrom_callExpression_of_ok found ran
  cases called.symm.trans again
  obtain ⟨goes, arguments⟩ := argumentValues_evaluated (s := s.count.2.enterLevel) earlier.fits
    (distinct.inside inside) (new.of_eq rfl) found called evaluated
  obtain ⟨continues, left, others⟩ := arguments.dropAll goes earlier.fits.sound.numbered
  obtain ⟨raised, -⟩ := raised_of_grown (goes.trans arguments.continues).grown
  rcases runFrom_callValue_preference (s := s₂) (n := n) isEntity safe hooked preference
    (ungated.gate entity) with ⟨sets, g, id, always, done⟩ | ⟨other, done⟩
  · cases last.symm.trans done
    have all := earlier.trans (continues.push .warning g)
    have made := push_records_of_always always .warning
    refine ⟨args, s₂, [(s₂.bundle.dropAll (carriedNumbers args)).stamp .warning g],
      evaluated, raised, ?_, ?_, fun severity other => ?_, all.fits.agrees⟩
    · refine (made .warning _).trans ?_
      rw [if_pos rfl]
      exact congrArg (· ++ _) left
    · rw [sets]
      exact congrArg (fun id => [id]) id
    · refine (made severity _).trans ?_
      rw [if_neg (Ne.symm other)]
      exact others severity other
  · cases last.symm.trans done
    refine ⟨args, s₂, [], evaluated, raised, ?_, ?_, others,
      (earlier.trans continues).fits.agrees⟩
    · rw [List.append_nil]
      exact left
    · rw [other]
      rfl

/-- The call `setPreference('app.update.url', ('security.csp'))`. -/
def writtenCall : Node :=
  let literal (id : Nat) (text : String) : Node := {
    kind := .string, id, text := "'" ++ text ++ "'"
    children := [{ kind := .stringFragment, id := id + 1, text }] }
  let inParentheses : Node := {
    kind := .parenthesizedExpression, id := 7, children := [literal 8 "security.csp"] }
  let callee : Node :=
    { kind := .identifier, role := some .function, id := 3, text := "setPreference" }
  { kind := .callExpression, id := 2
    children := [callee, {
      kind := .arguments, role := some .arguments, id := 4
      children := [literal 5 "app.update.url", inParentheses] }] }

/-- The script that makes the call. -/
def writingScript : Node :=
  { kind := .program,
    children := [{ kind := .expressionStatement, id := 1, children := [writtenCall] }] }

/-- Both literals are reported when they are visited. The one that is an argument itself is taken
back, the one in parentheses is not, and one warning about the call follows. -/
theorem Engine.preferenceCall_settles_literals_parenthesized :
    let registry := Catalogue.registryOf [(["setPreference"], { onCall := some .writesPreference })]
    let env : Env := { registry, file := "prefs.js", lines := .ofChars [] }
    let start := initial env.registry (.ofRoot writingScript) none {}
    ∃ s₁ s₂ t : State, ∃ last : List Record,
      s₂.bundle.warnings.map (·.id) = [literalPreference, literalPreference] ∧
        t.bundle.warnings = (raised start s₂).filter
          (· ∉ inlineLiterals env (visitWithin 3) s₁ (argumentNodes writtenCall)) ++ last ∧
        last.map (·.id) = [preferenceWrite] ∧
        t.bundle.warnings.map (·.id) = [literalPreference, preferenceWrite] ∧
        t.bundle.tree = treeOf (t.bundle.live (Ledger.since {} {} t.bundle).own) := by
  intro registry env start
  let callee : Node :=
    { kind := .identifier, role := some .function, id := 3, text := "setPreference" }
  have fits : Bundle.Fits {} {} := (Bundle.Reached.start none).fits
  have meets : Meets env start (.ofRoot writingScript) fun _ u => u = start :=
    meets_start rfl (by decide +kernel)
  have inside : writtenCall.Within (Tree.ofRoot writingScript).root :=
    .child (.head _) (.ofChild (.head _))
  have new : writtenCall.Unvisited start := fun m _ => kept?_initial _ _ _ _ m.id
  have ungated : env.registry.Behaves Behavior.IsUngated := by decide +kernel
  have named : (runFrom env start.count.2.enterLevel
      (calleeValue (visitWithin 3) callee)).1.toOption.bind (·.entity) = some 1 := by decide +kernel
  have evaluates :
      let s₁ := (runFrom env start.count.2.enterLevel (calleeValue (visitWithin 3) callee)).2
      let r := runFrom env s₁ (argumentValues (visitWithin 3) writtenCall)
      r.1.toOption.any (setsGuarded .writesPreference r.2.heap) = true ∧
        r.2.bundle.warnings.map (·.id) = [literalPreference, literalPreference] := by decide +kernel
  have ends :
      let r := runFrom env start (visitWithin 4 writtenCall)
      r.1.toOption.isSome = true ∧
        r.2.bundle.warnings.map (·.id) = [literalPreference, preferenceWrite] := by decide +kernel
  rcases called : runFrom env start.count.2.enterLevel (calleeValue (visitWithin 3) callee) with
    ⟨e | f, s₁⟩
  · rw [called] at named
    cases named
  rcases ran : runFrom env start (visitWithin 4 writtenCall) with ⟨e | v, t⟩
  · rw [ran] at ends
    cases ends.1
  rw [called] at named evaluates
  rw [ran] at ends
  obtain ⟨args, s₂, last, given, -, left, written, -, tree, -⟩ :=
    preferenceCall_settles_literals writingScript (.inr ungated) fits meets inside
      rfl new rfl called
      named rfl rfl (.inl rfl) ran
  simp only [given] at evaluates
  obtain ⟨sets, both⟩ := evaluates
  rw [show setsGuarded .writesPreference s₂.heap args = true from sets] at written
  exact ⟨s₁, s₂, t, last, both, left, written, ends.2, tree⟩

end AddonAudit.Script
