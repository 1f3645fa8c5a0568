import AddonAudit.Proofs.Audit.Unwind
import AddonAudit.Proofs.Engine.Renumber

/-!
# Audits on top of earlier records

What an audit does in a bundle with earlier records is what it does in a bundle without: it ends the
same way, and its own records are the same but for their numbers. The checks of files never look at
earlier records. The audit of a package looks at them in one place only, the gate between its tiers;
so it is the same where the earlier records do not close the gate.

Whatever the gate does, an audit only adds records. They are filed under the packages and the file
that it is about.
-/

namespace AddonAudit

open Bundle Script

/-- A session on top of earlier records. -/
structure OnTop (b : Bundle) (chain : List String) (s t : Session) : Prop where
  bundles : Atop b chain s.bundle t.bundle
  clock : t.clock = s.clock

variable {a b : Bundle} {chain : List String} {s t : Session} {file : String}

/-- A session is on top of its own records without any. -/
theorem OnTop.start (view : SameView a b) (chain : List String) (clock : Clock) :
    OnTop b chain ⟨a.blank, clock⟩ ⟨b, clock⟩ :=
  ⟨.start ((sameView_blank a).trans view) (records_blank a) rfl, rfl⟩

theorem walk_apply (env : Env) (tree : Tree) (s : Session) :
    walk env tree s =
      let r :=
        Engine.runFrom env (Engine.initial env.registry tree s.clock s.bundle) (Engine.run tree)
      (r.1, ⟨r.2.bundle, r.2.clock⟩) := rfl

theorem OnTop.walk (h : OnTop b chain s t) (fresh : ∀ r ∈ b.messages, r.uid < b.next) {env : Env}
    (here : chain <+: s.bundle.packageStack ++ [env.file]) (tree : Tree) :
    EndAlike (fun s t => OnTop b chain s t ∧ chain <+: s.bundle.packageStack ++ [env.file])
      (fun _ => True) (walk env tree s) (walk env tree t) := by
  let start := Engine.initial env.registry tree s.clock s.bundle
  have shifted : Engine.initial env.registry tree t.clock t.bundle =
      start.shift b.next t.bundle := by
    rw [initial_shift, h.clock]
  have ends : (renumber b chain env).Ends ⟨start, start.shift b.next t.bundle⟩ Coupling.Same
      (Engine.runFrom env start (Engine.run tree))
      (Engine.runFrom env (start.shift b.next t.bundle) (Engine.run tree)) :=
    renumber_run fresh tree (.mk start t.bundle h.bundles here)
  rw [walk_apply, walk_apply, shifted]
  generalize Engine.runFrom env start (Engine.run tree) = left,
    Engine.runFrom env (start.shift b.next t.bundle) (Engine.run tree) = right at ends
  cases ends with
  | value leads _ =>
      obtain ⟨last, d, atop, here⟩ := leads.inv
      exact .well ⟨⟨atop, rfl⟩, here⟩
  | fault e leads _ =>
      obtain ⟨last, d, atop, here⟩ := leads.inv
      exact .fault e ⟨⟨atop, rfl⟩, here⟩ trivial
  | excused excused => exact excused.elim

/-- The analyses of a file are the same on top of earlier records. -/
theorem analysed_onTop (fresh : ∀ r ∈ b.messages, r.uid < b.next) :
    Analysed file (fun s t => OnTop b chain s t ∧ chain <+: s.bundle.packageStack ++ [file])
      fun _ => True where
  report := by
    rintro f s t run ⟨onTop, here⟩
    have stack := (run.sameSetting s.bundle).packageStack
    refine ⟨⟨onTop.bundles.reports run here, onTop.clock⟩, ?_⟩
    show chain <+: (f s.bundle).packageStack ++ [file]
    rw [stack]
    exact here
  walk := by
    rintro env tree rfl s t ⟨onTop, here⟩
    exact onTop.walk fresh here tree

namespace Audit

variable {config : Config} {G : Bundle → Prop} {place : List String} {path : String}
  {x y : Audit Unit}

/-! ## The same on top of earlier records -/

/-- An audit at a place does on top of earlier records what it does alone, if these have some
property. -/
structure Framed (G : Bundle → Prop) (place : List String) (x : Audit Unit) : Prop where
  unwinds : Unwinds x
  frames : ∀ {b chain s t}, (∀ r ∈ b.messages, r.uid < b.next) → G b → OnTop b chain s t →
    chain <+: s.bundle.packageStack ++ place → (x t).1 = (x s).1 ∧ OnTop b chain (x s).2 (x t).2

theorem prefix_enter {name : String} (here : chain <+: b.packageStack ++ [name]) :
    chain <+: (b.enter name).packageStack ++ [] := by
  rw [enter_packageStack, List.append_nil]
  exact here

theorem recordFault_atop {c d : Bundle} (h : Atop b chain c d) (f : Fault)
    (here : chain <+: c.packageStack ++ [file]) :
    Atop b chain (recordFault file f c) (recordFault file f d) := by
  have lowered : Atop b chain { c with tier := 1 } { d with tier := 1 } :=
    h.reframe (.of_lists rfl rfl rfl rfl rfl rfl) (.of_lists rfl rfl rfl rfl rfl rfl)
      { h.view with tier := rfl }
  have recorded := (lowered.push .error (faultFinding file f) fun other same => by
    cases same
    exact here).2
  exact recorded.reframe (.of_lists rfl rfl rfl rfl rfl rfl) (.of_lists rfl rfl rfl rfl rfl rfl)
    { recorded.view with tier := h.view.tier }

theorem analyse_onTop {check : Options → Session → Except Fault Unit × Session}
    (h : IsAnalysis path check) (fresh : ∀ r ∈ b.messages, r.uid < b.next)
    (onTop : OnTop b chain s t) (here : chain <+: s.bundle.packageStack ++ [path]) :
    (analyse config path check t).1 = (analyse config path check s).1 ∧
      OnTop b chain (analyse config path check s).2 (analyse config path check t).2 := by
  have ends := h.tracks (analysed_onTop fresh) { strict := config.strict } ⟨onTop, here⟩
  generalize left : check { strict := config.strict } s = end₁,
    right : check { strict := config.strict } t = end₂ at ends
  cases ends with
  | well related =>
      rw [analyse_of_ok left, analyse_of_ok right]
      exact ⟨rfl, related.1⟩
  | fault e related _ =>
      by_cases late : e = .timeout
      · subst late
        rw [analyse_of_timeout left, analyse_of_timeout right]
        exact ⟨rfl, related.1⟩
      · rw [analyse_of_fault late left, analyse_of_fault late right]
        obtain ⟨onTop, here⟩ := related
        split
        · exact ⟨rfl, onTop⟩
        · exact ⟨rfl, recordFault_atop onTop.bundles e here, onTop.clock⟩

theorem within_framed (name : String) (h : Framed G [] x) : Framed G [name] (within name x) where
  unwinds := within_unwinds name x h.unwinds
  frames := by
    intro b chain s t fresh open? onTop here
    obtain ⟨same, ended⟩ := h.frames fresh open? (s := s.update (·.enter name))
      (t := t.update (·.enter name)) ⟨onTop.bundles.enter name, onTop.clock⟩ (prefix_enter here)
    have left := h.unwinds (s.update (·.enter name))
    have right := h.unwinds (t.update (·.enter name))
    exact ⟨same, ended.bundles.leave onTop.bundles.view left right, ended.clock⟩

/-- The checks of files never look at earlier records. -/
theorem framed_files (config : Config) (G : Bundle → Prop) :
    FileRules config (fun _ => True) (Framed G []) fun path => Framed G [path] where
  skip _ := ⟨fun _ => .refl _, fun _ _ onTop _ => ⟨rfl, onTop⟩⟩
  report run := ⟨fun s => (run.sameSetting s.bundle).sameStacks,
    fun _ _ onTop here => ⟨rfl, onTop.bundles.reports run here, onTop.clock⟩⟩
  analyse h := ⟨fun s => (analyse_sameSetting h s).sameStacks,
    fun fresh _ onTop here => analyse_onTop h fresh onTop here⟩
  within := within_framed _
  unread _ _ _ := ⟨fun _ => .refl _, fun _ _ onTop _ => ⟨rfl, onTop⟩⟩
  opened _ := trivial

theorem Framed.done : Framed G place (pure ()) :=
  ⟨fun _ => .refl _, fun _ _ onTop _ => ⟨rfl, onTop⟩⟩

theorem Framed.seq (first : Framed G [] x) (second : Framed G [] y) : Framed G [] (do x; y) where
  unwinds := first.unwinds.seq second.unwinds
  frames := by
    intro b chain s t fresh open? onTop here
    obtain ⟨same, ended⟩ := first.frames fresh open? onTop here
    have stack := (first.unwinds s).packageStack
    generalize left : x s = end₁, right : x t = end₂ at same ended stack
    obtain ⟨_, s'⟩ := end₁
    obtain ⟨result, t'⟩ := end₂
    obtain rfl : result = _ := same
    cases result with
    | error e =>
        rw [bind_error left, bind_error right]
        exact ⟨rfl, ended⟩
    | ok _ =>
        rw [bind_ok left, bind_ok right]
        exact second.frames fresh open? ended (stack ▸ here)

theorem Framed.deadline : Framed G [] checkDeadline where
  unwinds s := by
    rw [checkDeadline_apply]
    exact .refl _
  frames := by
    intro b chain s t _ _ onTop _
    rw [checkDeadline_apply, checkDeadline_apply, onTop.clock]
    exact ⟨rfl, onTop.bundles, rfl⟩

theorem Framed.tier (n : Nat) : Framed G [] (update (·.setTier n)) :=
  ⟨fun _ => ⟨rfl, rfl⟩, fun _ _ onTop _ => ⟨rfl, onTop.bundles.setTier n, onTop.clock⟩⟩

theorem Framed.change {f : Bundle → Bundle} (run : IsRun Step.IsLocal f) :
    Framed G [] (update f) where
  unwinds s := (run.samePlace s.bundle).sameStacks
  frames := by
    intro b chain s t _ _ onTop here
    rw [List.append_nil] at here
    exact ⟨rfl, onTop.bundles.localRun run here, onTop.clock⟩

theorem Framed.outside (h : Framed G [path] x) : Framed G [] x where
  unwinds := h.unwinds
  frames fresh open? onTop here := by
    rw [List.append_nil] at here
    exact h.frames fresh open? onTop (here.trans (List.prefix_append ..))

/-- The gate is closed by the earlier records or by the own ones. -/
theorem halts_atop (config : Config) {c d : Bundle} (h : Atop b chain c d) :
    halts config d = (halts config b || halts config c) := by
  have errors : d.errors = b.errors ++ c.errors.map (Record.shift b.next) := h.records .error
  unfold halts failed
  rw [errors]
  cases b.errors with
  | nil => simp
  | cons => simp

/-- An audit is the same on top of earlier records that do not close the gate between its tiers. -/
theorem framed_rules : Rules config (fun _ => True) (Framed (halts config · = false) [])
    fun path => Framed (halts config · = false) [path] where
  toFileRules := framed_files config _
  done := .done
  seq := .seq
  gate := by
    intro x h
    refine ⟨unwinds_rules.gate h.unwinds, ?_⟩
    intro b chain s t fresh open? onTop here
    rw [gated_apply, gated_apply, halts_atop config onTop.bundles, open?, Bool.false_or]
    split
    · exact ⟨rfl, onTop⟩
    · exact h.frames fresh open? onTop here
  deadline := .deadline
  tier := .tier
  change := .change
  about := .outside

/-- The records of a severity were kept, and some were added, whatever their numbers are. -/
def Gains (b d : Bundle) (severity : Severity) (list : List Record) : Prop :=
  ∃ new, d.records severity = b.records severity ++ new ∧
    new.map Record.unnumbered = list.map Record.unnumbered

section Gains

variable {c d : Bundle} {severity : Severity} {xs ys : List Record}

theorem Gains.nothing (b : Bundle) (severity : Severity) : Gains b b severity [] :=
  ⟨[], (List.append_nil _).symm, rfl⟩

theorem Gains.trans (h : Gains b c severity xs) (k : Gains c d severity ys) :
    Gains b d severity (xs ++ ys) := by
  obtain ⟨new, added, same⟩ := h
  obtain ⟨more, added', same'⟩ := k
  refine ⟨new ++ more, by rw [added', added, List.append_assoc], ?_⟩
  rw [List.map_append, List.map_append, same, same']

/-- What does not depend on numbers can be read off the records that were gained. -/
theorem Gains.map {α : Type} (view : Record → α) (numberless : ∀ r, view r.unnumbered = view r)
    (h : Gains b d severity xs) :
    (d.records severity).map view = (b.records severity).map view ++ xs.map view := by
  obtain ⟨new, added, alike⟩ := h
  rw [added, List.map_append, Record.map_eq_of_unnumbered numberless alike]

/-- An audit gains what it records in a bundle that looks the same and has no records. -/
theorem Framed.gains (framed : Framed G place x) (view : SameView a b)
    (fresh : ∀ r ∈ b.messages, r.uid < b.next) (open? : G b) (clock : Clock) (severity : Severity) :
    Gains b (x ⟨b, clock⟩).2.bundle severity ((x ⟨a.blank, clock⟩).2.bundle.records severity) := by
  have ended := (framed.frames fresh open? (.start view [] clock) List.nil_prefix).2.bundles
  exact ⟨_, ended.records severity, Record.map_unnumbered_shift ..⟩

end Gains

/-! ## Audits only add records -/

/-- The records of a bundle were kept, and what was added is filed in some places. -/
structure Adds (Filed : List String → Prop) (b d : Bundle) : Prop where
  fresh : ∀ r ∈ d.messages, r.uid < d.next
  records : ∀ s, ∃ new, d.records s = b.records s ++ new ∧ ∀ r ∈ new, Filed r.file

namespace Adds

variable {Filed Also : List String → Prop} {c d b' d' : Bundle}

theorem refl (fresh : ∀ r ∈ b.messages, r.uid < b.next) : Adds Filed b b :=
  ⟨fresh, fun _ => ⟨[], (List.append_nil _).symm, fun _ mem => absurd mem List.not_mem_nil⟩⟩

theorem trans (h : Adds Filed b c) (k : Adds Filed c d) : Adds Filed b d := by
  refine ⟨k.fresh, fun s => ?_⟩
  obtain ⟨new, added, filed⟩ := h.records s
  obtain ⟨more, added', filed'⟩ := k.records s
  refine ⟨new ++ more, by rw [added', added, List.append_assoc], fun r mem => ?_⟩
  exact (List.mem_append.1 mem).elim (filed r) (filed' r)

theorem mono (h : Adds Filed b d) (sub : ∀ file, Filed file → Also file) : Adds Also b d := by
  refine ⟨h.fresh, fun s => ?_⟩
  obtain ⟨new, added, filed⟩ := h.records s
  exact ⟨new, added, fun r mem => sub _ (filed r mem)⟩

theorem congr (h : Adds Filed b d) (left : SameRecords b' b) (right : SameRecords d d') :
    Adds Filed b' d' := by
  refine ⟨?_, fun s => ?_⟩
  · rw [right.messages, right.next]
    exact h.fresh
  · rw [right.records, ← left.records]
    exact h.records s

theorem of_atop (h : Atop b chain c d) (fresh : ∀ r ∈ b.messages, r.uid < b.next) :
    Adds (fun file => file = [] ∨ chain <+: file) b d := by
  refine ⟨h.fresh fresh, fun s => ⟨_, h.records s, fun r mem => ?_⟩⟩
  obtain ⟨x, own, rfl⟩ := List.mem_map.1 mem
  exact h.filed s x own

end Adds

/-- An audit at a place adds records that are filed under it. -/
structure Adding (place : List String) (x : Audit Unit) : Prop where
  unwinds : Unwinds x
  adds : ∀ {chain s}, (∀ r ∈ s.bundle.messages, r.uid < s.bundle.next) →
    chain <+: s.bundle.packageStack ++ place →
    Adds (fun file => file = [] ∨ chain <+: file) s.bundle (x s).2.bundle

/-- What is the same on top of all earlier records only adds to them. -/
theorem Framed.adding (h : Framed (fun _ => True) place x) : Adding place x where
  unwinds := h.unwinds
  adds := by
    intro chain s fresh here
    have start : OnTop s.bundle chain ⟨s.bundle.blank, s.clock⟩ s := .start (.refl _) chain s.clock
    exact .of_atop (h.frames fresh trivial start here).2.bundles fresh

/-- Entering and leaving a package keeps all records. -/
theorem within_sameRecords (name : String) (x : Audit Unit) (s : Session) :
    SameRecords (x (s.update (·.enter name))).2.bundle (within name x s).2.bundle :=
  { SameRecords.leave (x (s.update (·.enter name))).2.bundle with }

theorem within_adding (name : String) (h : Adding [] x) : Adding [name] (within name x) where
  unwinds := within_unwinds name x h.unwinds
  adds := by
    intro chain s fresh here
    have added := h.adds (s := s.update (·.enter name)) fresh (prefix_enter here)
    exact added.congr (.enter name s.bundle) (within_sameRecords name x s)

theorem Adding.seq (first : Adding [] x) (second : Adding [] y) : Adding [] (do x; y) where
  unwinds := first.unwinds.seq second.unwinds
  adds := by
    intro chain s fresh here
    have added := first.adds fresh here
    have stack := (first.unwinds s).packageStack
    generalize start : x s = outcome at added stack
    obtain ⟨_ | _, t⟩ := outcome
    · rw [bind_error start]
      exact added
    · rw [bind_ok start]
      exact added.trans (second.adds added.fresh (stack ▸ here))

/-- Every audit only adds records, whatever was recorded before. -/
theorem adding_rules : Rules config (fun _ => True) (Adding []) fun path => Adding [path] where
  skip path := Framed.done.adding
  report run := ((framed_files config _).report run).adding
  analyse h := ((framed_files config _).analyse h).adding
  within := within_adding _
  unread kind mem failed := ((framed_files config _).unread kind mem failed).adding
  opened _ := trivial
  done := Framed.done.adding
  seq := .seq
  gate := by
    intro x h
    refine ⟨unwinds_rules.gate h.unwinds, fun {chain s} fresh here => ?_⟩
    rw [gated_apply]
    split
    · exact .refl fresh
    · exact h.adds fresh here
  deadline := Framed.deadline.adding
  tier n := (Framed.tier n).adding
  change run := (Framed.change run).adding
  about h := ⟨h.unwinds, fun fresh here => by
    rw [List.append_nil] at here
    exact h.adds fresh (here.trans (List.prefix_append ..))⟩

/-! ## What stays -/

theorem leave_supported (b : Bundle) : b.leave.2.supported = b.supported := by
  unfold leave
  split <;> rfl

/-- The supported versions and the values that are shared by all packages stay, and no deadline is
set. -/
structure Inherited (s t : Session) : Prop where
  supported : t.bundle.supported = s.bundle.supported
  shared : t.bundle.shared = s.bundle.shared
  untimed : s.clock = none → t.clock = none

theorem Inherited.trans {u : Session} (h : Inherited s t) (k : Inherited t u) : Inherited s u :=
  ⟨k.supported.trans h.supported, k.shared.trans h.shared, k.untimed ∘ h.untimed⟩

theorem inherited_of_sameSetting {d : Bundle} {clock : Clock} (h : s.bundle.SameSetting d)
    (untimed : s.clock = none → clock = none) : Inherited s ⟨d, clock⟩ :=
  ⟨h.supported, h.shared, untimed⟩

/-- Without a deadline the analysis of a file does not run out of time. -/
theorem analyse_untimed (config : Config) {check : Options → Session → Except Fault Unit × Session}
    (h : IsAnalysis path check) (untimed : s.clock = none) :
    (analyse config path check s).2.clock = none ∧
      (config.strict = false → (analyse config path check s).1 = .ok ()) := by
  obtain ⟨inTime, kept⟩ := h.untimed { strict := config.strict } untimed
  have ends := analyse_ends config path check s
  generalize check { strict := config.strict } s = checked, analyse config path check s = ended
    at inTime kept ends
  cases ends with
  | well | recorded => exact ⟨kept, fun _ => rfl⟩
  | late => exact absurd rfl inTime
  | raised _ _ _ strict => exact ⟨kept, fun lax => nomatch strict.symm.trans lax⟩

theorem inherited_rules :
    Rules config (fun _ => True) (fun x => ∀ s, Inherited s (x s).2) fun _ x =>
      ∀ s, Inherited s (x s).2 where
  skip _ _ := ⟨rfl, rfl, id⟩
  report run s := inherited_of_sameSetting (run.sameSetting s.bundle) id
  analyse h s := inherited_of_sameSetting (analyse_sameSetting h s) fun untimed =>
    (analyse_untimed config h untimed).1
  within := by
    intro path x h s
    have inside := h (s.update (·.enter path))
    refine ⟨?_, ?_, inside.untimed⟩
    · exact (leave_supported _).trans inside.supported
    · exact (leave_shared _).trans inside.shared
  unread _ _ _ _ := ⟨rfl, rfl, id⟩
  opened _ := trivial
  done _ := ⟨rfl, rfl, id⟩
  seq := by
    intro x y first second s
    have start := first s
    generalize ran : x s = outcome at start
    obtain ⟨_ | _, t⟩ := outcome
    · rw [bind_error ran]
      exact start
    · rw [bind_ok ran]
      exact start.trans (second t)
  gate := by
    intro x h s
    rw [gated_apply]
    split
    · exact ⟨rfl, rfl, id⟩
    · exact h s
  deadline s := by
    rw [checkDeadline_apply]
    refine ⟨rfl, rfl, fun untimed => ?_⟩
    rw [untimed]
    rfl
  tier _ _ := ⟨rfl, rfl, id⟩
  change run s := ⟨(run.samePlace s.bundle).supported, (run.samePlace s.bundle).shared, id⟩
  about h := h

end Audit

end AddonAudit
