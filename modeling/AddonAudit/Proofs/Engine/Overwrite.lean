import AddonAudit.Proofs.Engine.AppendOnly
import AddonAudit.Proofs.Engine.Balance
import AddonAudit.Proofs.Engine.Throughout
import AddonAudit.Script.Reader

/-!
# Guarded names are not bound in silence, with exceptions

A guarded name is that of a global that may neither be assigned nor be declared again. Assignments
and most declarations look at the registry before they bind a name in the global scope, and warn.
Some declarations do not look: those of functions, of classes and of imports, patterns, and loops
over a collection whose head declares variables. Main statement: `Engine.guarded_global_reported`,
where a guarded name is among the globals at the end, the run warned about it or met a declaration
of the name that does not look.
-/

namespace AddonAudit

open Bundle

/-- A warning that a read-only global is replaced. -/
structure Record.Warns (name : String) (r : Record) : Prop where
  id : r.id = ["javascript", "traverser", "global_overwrite"]
  message : r.message = "Overwriting the read-only \x60" ++ name ++ "\x60"

/-- Among the records from some number on there is a warning about a name. -/
def Bundle.Reports (base : Nat) (name : String) (b : Bundle) : Prop :=
  ∃ r ∈ b.messages, base ≤ r.uid ∧ r.Warns name

/-- How the bundle of a run may change: its numbers grow, old numbers belong to old records, and a
warning about a name is never taken back. -/
structure Bundle.Upholds (base : Nat) (name : String) (b c : Bundle) : Prop where
  next : b.next ≤ c.next
  old : ∀ r ∈ c.messages, r.uid < b.next → r ∈ b.messages
  reports : b.Reports base name → c.Reports base name

namespace Bundle

variable {base : Nat} {name : String} {b c d : Bundle} {uid : Nat}

theorem Upholds.refl (b : Bundle) : b.Upholds base name b :=
  ⟨Nat.le_refl _, fun _ mem _ => mem, fun reports => reports⟩

theorem Upholds.trans (h : b.Upholds base name c) (k : c.Upholds base name d) :
    b.Upholds base name d where
  next := Nat.le_trans h.next k.next
  old r mem before := h.old r (k.old r mem (Nat.lt_of_lt_of_le before h.next)) before
  reports reports := k.reports (h.reports reports)

theorem Upholds.push (severity : Severity) (f : Finding) (b : Bundle) :
    b.Upholds base name (b.push severity f).2 := by
  rcases push_cases severity f b with left | made
  · rw [left]
    exact .refl b
  · rw [made]
    refine ⟨append_stamp_next ▸ Nat.le_succ _, fun r mem before => ?_, ?_⟩
    · rcases mem_append_messages.1 mem with here | rfl
      · exact here
      · exact absurd before (Nat.lt_irrefl _)
    · rintro ⟨r, mem, numbered, warns⟩
      exact ⟨r, mem_append_messages.2 (.inl mem), numbered, warns⟩

/-- Taking back a number that belongs to no warning. -/
theorem Upholds.drop (harmless : ∀ r ∈ b.messages, r.uid = uid → ¬ r.Warns name) :
    b.Upholds base name (b.drop uid).2 where
  next := Nat.le_of_eq (drop_next uid b).symm
  old _ mem _ := (drop_messages_sublist uid b).subset mem
  reports := by
    rintro ⟨r, mem, numbered, warns⟩
    exact ⟨r, mem_drop_of_ne mem fun same => harmless r mem same warns, numbered, warns⟩

/-- The numbers stay below the next one. -/
theorem fresh_push (fresh : ∀ r ∈ b.messages, r.uid < b.next) (severity : Severity) (f : Finding) :
    ∀ r ∈ (b.push severity f).2.messages, r.uid < (b.push severity f).2.next := by
  rcases push_cases severity f b with left | made
  · rw [left]
    exact fresh
  · rw [made]
    intro r mem
    show r.uid < (b.append (b.stamp severity f)).next
    rw [append_stamp_next]
    rcases mem_append_messages.1 mem with old | rfl
    · exact Nat.lt_succ_of_lt (fresh r old)
    · exact Nat.lt_succ_self _

/-- A finding for all versions is recorded. -/
theorem reports_push {f : Finding} (severity : Severity) (later : base ≤ b.next)
    (always : f.forVersions = none) (warns : (b.stamp severity f).Warns name) :
    (b.push severity f).2.Reports base name := by
  have made : b.push severity f = (some b.next, b.append (b.stamp severity f)) := by
    unfold push
    rw [always]
    rfl
  rw [made]
  exact ⟨b.stamp severity f, mem_append_messages.2 (.inr rfl), later, warns⟩

end Bundle

namespace Script

open Engine Coupling

/-- A value that carries no record, or one that a bundle has given out and that is no warning about
a replaced global. -/
def Value.Harmless (b : Bundle) (v : Value) : Prop :=
  ∀ uid, v.provisional = some uid → uid < b.next ∧
    ∀ r ∈ b.messages, r.uid = uid → r.id ≠ ["javascript", "traverser", "global_overwrite"]

namespace Value.Harmless

variable {b c : Bundle} {base : Nat} {name : String} {v : Value}

theorem ofPlain (plain : v.IsPlain) : v.Harmless b := fun _ held =>
  absurd (plain.provisional.symm.trans held) nofun

theorem named (h : v.Harmless b) (isConst : Bool) : (v.named isConst).Harmless b := h

theorem later (h : v.Harmless b) (upholds : b.Upholds base name c) : v.Harmless c := by
  intro uid held
  obtain ⟨given, harmless⟩ := h uid held
  refine ⟨Nat.lt_of_lt_of_le given upholds.next, fun r mem same => ?_⟩
  exact harmless r (upholds.old r mem (same ▸ given)) same

/-- The record of another finding may be carried, if the earlier numbers are below the new one. -/
theorem carrying (fresh : ∀ r ∈ b.messages, r.uid < b.next) (severity : Severity) {f : Finding}
    (text : String) (other : f.id ≠ ["javascript", "traverser", "global_overwrite"]) :
    Harmless (b.push severity f).2
      { Value.string text with provisional := (b.push severity f).1 } := by
  intro uid held
  rcases push_cases severity f b with left | made
  · rw [left] at held
    cases held
  · rw [made] at held ⊢
    cases held
    refine ⟨append_stamp_next ▸ Nat.lt_succ_self _, fun r mem same => ?_⟩
    rcases mem_append_messages.1 mem with old | rfl
    · exact absurd (fresh r old) (same ▸ Nat.lt_irrefl _)
    · exact other

end Value.Harmless

/-- What a run keeps with respect to a name, if its records are numbered from some number on. -/
structure State.Watches (base : Nat) (name : String) (s : State) : Prop where
  later : base ≤ s.bundle.next
  fresh : ∀ r ∈ s.bundle.messages, r.uid < s.bundle.next
  values : s.Every (Value.Harmless s.bundle)
  /-- If the name is a global one, there is a warning. -/
  reported : name ∈ s.globals.names → s.bundle.Reports base name

/-- A declaration goes to a scope inside of the global one. -/
def State.Takes (s : State) (d : Declaration) : Prop :=
  s.scopes.any d.goesTo = true

/-- The watch over a name as an invariant. The name may be bound inside of the global scope, or
after a warning. -/
def watch (base : Nat) (name : String) : Invariant where
  Inv := State.Watches base name
  Step s t := s.SameFrame t ∧ s.bundle.Upholds base name t.bundle
  Val s v := v.Harmless s.bundle
  reach := {
    Binds := fun s d other => other = name →
      (∃ declared, d = some declared ∧ s.Takes declared) ∨ s.bundle.Reports base name }
  refl s := ⟨.refl s, .refl s.bundle⟩
  trans h k := ⟨h.1.trans k.1, h.2.trans k.2⟩
  mono value step := value.later step.2

/-- A name is among the names after a store if it was there before or is the one that is stored. -/
theorem Properties.mem_names_store {x name : String} {v : Value} {l : Properties}
    (mem : x ∈ (l.store name v).names) : x ∈ l.names ∨ x = name := by
  rw [names_store, addName] at mem
  split at mem
  · exact .inl mem
  · exact (List.mem_append.1 mem).imp_right List.mem_singleton.1

/-- A name becomes a global one only if no scope takes it. -/
theorem mem_names_storeIn {into : Scope → Bool} {x name : String} {v : Value} {globals : Properties}
    {scopes : List Scope} (mem : x ∈ (storeIn into name v globals scopes).1.names) :
    x ∈ globals.names ∨ x = name ∧ scopes.any into = false := by
  induction scopes with
  | nil => exact (Properties.mem_names_store mem).imp_right fun same => ⟨same, rfl⟩
  | cons scope rest ih =>
      rw [storeIn] at mem
      split at mem
      · exact .inl mem
      next passed =>
        rcases ih mem with old | ⟨same, unbound⟩
        · exact .inl old
        · rw [List.any_cons, unbound, Bool.or_false]
          exact .inr ⟨same, Bool.eq_false_iff.2 passed⟩

/-- An assignment to a name that is there adds no name. -/
theorem overwrite?_names {name : String} {v old : Value} {s t : State}
    (found : s.overwrite? name v = some (old, t)) : t.globals.names = s.globals.names := by
  obtain ⟨⟨_, _, _⟩, replaced, same⟩ := Option.map_eq_some_iff.1 found
  cases same
  rcases replace?_cases replaced with ⟨-, here, rfl⟩ | ⟨rfl, -⟩
  · exact Properties.names_store_of_find? here
  · rfl

variable {base : Nat} {name : String} {s t : State}

/-- A change that leaves the bundle alone. -/
theorem watch_leads (inv : s.Watches base name) (frame : s.SameFrame t) (same : t.bundle = s.bundle)
    (values : t.Every (Value.Harmless s.bundle))
    (reported : name ∈ t.globals.names → s.bundle.Reports base name) :
    (watch base name).Leads s t := by
  refine ⟨⟨?_, ?_, ?_, ?_⟩, frame, ?_⟩
  · rw [same]
    exact inv.later
  · rw [same]
    exact inv.fresh
  · rw [same]
    exact values
  · rw [same]
    exact reported
  · rw [same]
    exact .refl _

/-- A change of the bundle alone. -/
theorem watch_rebundles {c : Bundle} (inv : s.Watches base name)
    (upholds : s.bundle.Upholds base name c) (fresh : ∀ r ∈ c.messages, r.uid < c.next) :
    (watch base name).Leads s { s with bundle := c } := by
  have later := Nat.le_trans inv.later upholds.next
  refine ⟨⟨later, fresh, ?_, fun mem => ?_⟩, ⟨rfl, rfl, rfl, rfl⟩, upholds⟩
  · exact { inv.values.imp fun _ value => value.later upholds with }
  · exact upholds.reports (inv.reported mem)

/-- A name that may be assigned is stored among the globals. -/
theorem watch_stores {other : String} {v : Value} (inv : s.Watches base name)
    (value : v.Harmless s.bundle) (binds : (watch base name).reach.Binds s none other) :
    (watch base name).Leads s (s.storeGlobal other v) := by
  refine watch_leads inv ⟨rfl, rfl, rfl, rfl⟩ rfl (inv.values.storeGlobal value) fun mem => ?_
  rcases Properties.mem_names_store mem with old | same
  · exact inv.reported old
  · rcases binds same.symm with ⟨_, declares, -⟩ | reports
    · cases declares
    · exact reports

/-- A name that may be declared goes to a scope inside, or there is a warning. -/
theorem watch_declares {other : String} {v : Value} {d : Declaration} (inv : s.Watches base name)
    (value : v.Harmless s.bundle) (binds : (watch base name).reach.Binds s (some d) other) :
    (watch base name).Leads s (s.declare other v d) := by
  have frame : s.SameFrame (s.declare other v d) := ⟨rfl, rfl, rfl, storeIn_kinds ..⟩
  refine watch_leads inv frame rfl (inv.values.declare (value.named _)) fun mem => ?_
  rcases mem_names_storeIn mem with old | ⟨same, untaken⟩
  · exact inv.reported old
  · rcases binds same.symm with ⟨_, given, taken⟩ | reports
    · cases given
      exact absurd (untaken.symm.trans taken) nofun
    · exact reports

theorem watch_lawful (base : Nat) (name : String) : (watch base name).Lawful where
  plain plain _ := .ofPlain plain
  find inv found := inv.values.find? found
  receiver inv := inv.values.receiver
  kept inv found := inv.values.kept? found
  property inv _ _ found := inv.values.heap.get? (fun _ bare => .ofPlain bare.toIsPlain) found
  infer _ inv _ binds := watch_stores inv (.ofPlain ⟨rfl, rfl⟩) binds
  storeGlobal _ inv value binds := watch_stores inv (value.named _) binds
  declare _ _ inv value binds := watch_declares inv value binds
  overwrite inv value found := by
    refine watch_leads inv (frame_lawful.overwrite trivial trivial found).step
      (overwrite?_bundle found) (inv.values.overwrite? value.named found) fun mem => ?_
    exact inv.reported (overwrite?_names found ▸ mem)
  setProperty _ inv _ _ value := by
    refine watch_leads inv ⟨rfl, rfl, rfl, rfl⟩ rfl { inv.values with heap := ?_ } inv.reported
    exact inv.values.heap.set (fun _ bare => .ofPlain bare.toIsPlain) value
  newObject inv := by
    refine ⟨watch_leads inv ⟨rfl, rfl, rfl, rfl⟩ rfl ?_ inv.reported, fun _ => ?_⟩
    · exact { inv.values with heap := inv.values.heap.alloc .empty }
    · exact fun _ held => nomatch held
  newArray inv values := by
    refine ⟨watch_leads inv ⟨rfl, rfl, rfl, rfl⟩ rfl ?_ inv.reported, fun _ => ?_⟩
    · exact { inv.values with heap := inv.values.heap.newArray values }
    · exact fun _ held => nomatch held
  record severity f inv _ := watch_rebundles inv (.push ..) (fresh_push inv.fresh severity f)
  carry severity f text inv preference := by
    refine .carrying inv.fresh severity text ?_
    rw [preference]
    decide
  drop {s v uid} inv value _ carried := by
    refine watch_rebundles inv (.drop fun r mem same warns => ?_) fun r mem => ?_
    · exact (value uid carried).2 r mem same warns.id
    · rw [drop_next]
      exact inv.fresh r ((drop_messages_sublist uid s.bundle).subset mem)
  tick _ inv _ := watch_leads inv ⟨rfl, rfl, rfl, rfl⟩ rfl { inv.values with } inv.reported
  keep id inv value :=
    watch_leads inv ⟨rfl, rfl, rfl, rfl⟩ rfl (inv.values.keep id value) inv.reported
  faults _ := trivial
  enter b inv := by
    have values := inv.values.enter (.ofPlain .unknown) b
    cases b <;> exact ⟨inv.later, inv.fresh, values, inv.reported⟩
  leave b _ inv step := by
    have frame := frame_leaves b step.1
    have values := inv.values.leave b
    cases b <;> exact ⟨⟨inv.later, inv.fresh, values, inv.reported⟩, frame, step.2⟩
  outside b value := by
    cases b <;> exact value

/-- An entity about which is reported whatever the versions are. -/
def Behavior.IsUngated (b : Behavior) : Prop :=
  b.advice.gate = none

instance : DecidablePred Behavior.IsUngated := fun b =>
  inferInstanceAs (Decidable (b.advice.gate = none))

theorem Behavior.isUngated_plain : Behavior.IsUngated {} := rfl

/-- Advice that is filled up from entities without gates has none. -/
theorem Registry.Behaves.gate {r : Registry} (ungated : r.Behaves Behavior.IsUngated)
    (id : EntityId) : (r.advice id).gate = none := by
  have filled : ∀ (ids : List EntityId) (a : Advice), a.gate = none →
      (ids.foldl (fun a id => a.over (r.behavior id).advice) a).gate = none := by
    intro ids
    induction ids with
    | nil => exact fun _ unset => unset
    | cons id rest ih =>
        intro a missing
        have own : (r.behavior id).advice.gate = none :=
          ungated.behavior Behavior.isUngated_plain id
        refine ih _ ?_
        show (a.gate <|> (r.behavior id).advice.gate) = none
        rw [missing, own]
        rfl
  exact filled _ _ rfl

theorem State.SameFrame.takes {d : Declaration} (frame : s.SameFrame t) (h : s.Takes d) :
    t.Takes d := by
  unfold State.Takes at *
  rwa [any_goesTo, frame.kinds, ← any_goesTo]

theorem enter_takes (b : Bracket) {d : Declaration} (h : s.Takes d) : (b.enter s).Takes d := by
  cases b with
  | scope kind =>
      show List.any ({ kind } :: s.scopes) d.goesTo = true
      rw [List.any_cons, h, Bool.or_true]
  | receiver | level => exact h

theorem watch_closed {env : Env} (ungated : env.registry.Behaves Behavior.IsUngated)
    (guarded : env.registry.Guards name) (base : Nat) :
    ((watch base name).coupling env).Closed where
  entities := ⟨trivial, fun _ _ => trivial, fun _ => trivial⟩
  admits _ := ⟨fun _ => trivial, fun _ => trivial, fun _ => trivial⟩
  loud _ _ := trivial
  later binds step same := by
    rcases binds same with ⟨d, given, taken⟩ | reports
    · exact .inl ⟨d, given, step.1.takes taken⟩
    · exact .inr (step.2.reports reports)
  entered b binds same := by
    rcases binds same with ⟨d, given, taken⟩ | reports
    · exact .inl ⟨d, given, enter_takes b taken⟩
    · exact .inr ((enter_bundle b _).symm ▸ reports)
  inside taken _ := .inl ⟨_, rfl, taken⟩
  free unguarded same := absurd guarded (same ▸ unguarded)
  warned {p f other} d inv overwrite same := by
    obtain ⟨s, rfl, inv⟩ := inv
    subst same
    obtain ⟨entity, -, versions⟩ := overwrite.forVersions
    have always : f.forVersions = none :=
      versions.trans (congrArg (Option.map VersionGate.expand) (ungated.gate entity))
    exact .inr (reports_push .warning inv.later always ⟨overwrite.id, overwrite.message⟩)

theorem Catalogue.standard_ungated : standard.Behaves Behavior.IsUngated := by
  have given : ∀ entry ∈ entries, entry.2.IsUngated := by decide +kernel
  exact behaves_registryOf Behavior.isUngated_plain given

/-- Over the standard catalogue, and over every registry whose advice does not depend on versions:
if a guarded name is among the globals at the end of a run, however it ends, then the run has
recorded a warning that names it, or it met, outside of the scopes that would take the declaration,
a node that declares the name without a look at the globals. -/
theorem Engine.guarded_global_reported (env : Env) (t : Tree) (clock : Clock) (b : Bundle)
    (name : String)
    (registry : env.registry = Catalogue.standard ∨ env.registry.Behaves Behavior.IsUngated)
    (fresh : ∀ r ∈ b.messages, r.uid < b.next) (guarded : env.registry.Guards name) :
    let start := initial env.registry t clock b
    name ∈ (runFrom env start (run t)).2.globals.names →
      (runFrom env start (run t)).2.bundle.Reports b.next name ∨
        Meets env start t fun n s => ∃ d, DeclaresLoosely n d name ∧ ¬ s.Takes d := by
  intro start present
  have ungated : env.registry.Behaves Behavior.IsUngated :=
    registry.elim (fun same => same ▸ Catalogue.standard_ungated) id
  by_cases met : Meets env start t fun n s => ∃ d, DeclaresLoosely n d name ∧ ¬ s.Takes d
  · exact .inr met
  · have watched := Classical.not_not.1 met
    have walking : (watch b.next name).Walking fun _ => True :=
      (watch_lawful b.next name).lasting.walking
    have plain : ∀ v : Value, v.IsPlain → v.Harmless b := fun _ => .ofPlain
    have inv : start.Watches b.next name := by
      refine ⟨Nat.le_refl _, fresh, ?_, fun mem => absurd mem List.not_mem_nil⟩
      exact .initial t clock b (plain _ .unknown) fun id _ => plain _ (.ofEntity id)
    have closed := watch_closed ungated guarded b.next
    refine .inl
      ((walking.run_watched inv t closed watched fun n _ strict => ?_).inv.reported present)
    intro d other loose same
    subst same
    exact .inl ⟨d, rfl, Classical.not_not.1 fun untaken => strict ⟨d, loose, untaken⟩⟩

/-- A registry that guards one name. -/
def guardedEval : Registry :=
  Catalogue.registryOf [(["eval"], { readonly := .yes })]

theorem guardedEval_guards : guardedEval.Guards "eval" :=
  ⟨1, by decide +kernel, by decide +kernel, by decide +kernel⟩

/-- A function inside of another one takes the name, then the name is assigned. -/
def assignedOutside : List Char :=
  "function f() \x7b function eval() \x7b\x7d \x7d eval = f;".toList

theorem Engine.guarded_global_reported_assigned_outside :
    let env : Env :=
      { registry := guardedEval, file := "overlay.js", lines := .ofChars assignedOutside }
    let t := Tree.ofSource assignedOutside
    let b : Bundle := {}
    env.registry.Behaves Behavior.IsUngated ∧ (∀ r ∈ b.messages, r.uid < b.next) ∧
      env.registry.Guards "eval" ∧
      "eval" ∈ (runFrom env (initial env.registry t none b) (run t)).2.globals.names ∧
      ((runFrom env (initial env.registry t none b) (run t)).2.bundle.Reports b.next "eval" ∨
        Meets env (initial env.registry t none b) t fun n s =>
          ∃ d, DeclaresLoosely n d "eval" ∧ ¬ s.Takes d) := by
  intro env t b
  have ungated : env.registry.Behaves Behavior.IsUngated := by decide +kernel
  have fresh : ∀ r ∈ b.messages, r.uid < b.next := by decide
  have names : (runFrom env (initial env.registry t none b) (run t)).2.globals.names =
      ["f", "eval"] := by decide +kernel
  have present :
      "eval" ∈ (runFrom env (initial env.registry t none b) (run t)).2.globals.names := by
    rw [names]
    decide
  refine ⟨ungated, fresh, guardedEval_guards, present, ?_⟩
  exact guarded_global_reported env t none b "eval" (.inr ungated) fresh guardedEval_guards present

/-- A function with a guarded name. -/
def declaredEval : List Char :=
  "function eval() \x7b\x7d".toList

/-- The exceptions are needed: the declaration of a function binds a guarded name and nothing is
recorded. -/
theorem Engine.declared_function_unreported :
    let env : Env :=
      { registry := guardedEval, file := "overlay.js", lines := .ofChars declaredEval }
    let t := Tree.ofSource declaredEval
    let ran := runFrom env (initial env.registry t none {}) (run t)
    env.registry.Guards "eval" ∧ ran.1 = .ok () ∧ ran.2.globals.names = ["eval"] ∧
      ran.2.bundle.messages.length = 0 := by
  intro env t ran
  have ok : ran.1 = .ok () := by decide +kernel
  have present : ran.2.globals.names = ["eval"] := by decide +kernel
  have silent : ran.2.bundle.messages.length = 0 := by decide +kernel
  exact ⟨guardedEval_guards, ok, present, silent⟩

end Script

end AddonAudit
