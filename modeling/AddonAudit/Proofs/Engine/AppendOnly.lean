import AddonAudit.Proofs.Engine.Held
import AddonAudit.Proofs.Growth
import AddonAudit.Script.Analysis

/-!
# An analysis only adds records

The engine takes records back in the middle of a run, by numbers that travel inside of values. Every
number that a state holds was given out in the same run, so what was there before stays. Main
statement: `analyseTree_appends`.
-/

namespace AddonAudit.Script

open Engine

/-- A value that carries no record, or one that a bundle does not have yet. -/
def Value.Recent (b : Bundle) (v : Value) : Prop :=
  ∀ uid, v.provisional = some uid → b.next ≤ uid

theorem Value.IsPlain.recent {b : Bundle} {v : Value} (h : v.IsPlain) : v.Recent b := fun _ held =>
  absurd (h.provisional.symm.trans held) nofun

theorem Value.Recent.named {b : Bundle} {v : Value} (h : v.Recent b) (isConst : Bool) :
    (v.named isConst).Recent b := h

/-- What a run keeps that starts from a bundle: the bundle grows, and no value carries an earlier
record. -/
structure Recording (b : Bundle) (s : State) : Prop where
  grown : b.Grown s.bundle
  recent : s.Every (Value.Recent b)

/-- Recording as an invariant. -/
def recording (b : Bundle) : Invariant where
  Inv := Recording b
  Step _ _ := True
  Val _ v := v.Recent b
  refl _ := trivial
  trans _ _ := trivial
  mono value _ := value

/-- The number of a new record is new. -/
theorem push_recent {b c : Bundle} (grown : b.Grown c) (severity : Severity) (f : Finding)
    (text : String) :
    Value.Recent b { Value.string text with provisional := (c.push severity f).1 } := by
  intro uid held
  rcases Bundle.push_cases severity f c with left | recorded
  · rw [left] at held
    cases held
  · rw [recorded] at held
    cases held
    exact grown.next

theorem overwrite?_bundle {name : String} {v old : Value} {s t : State}
    (found : s.overwrite? name v = some (old, t)) : t.bundle = s.bundle := by
  obtain ⟨_, -, same⟩ := Option.map_eq_some_iff.1 found
  cases same
  rfl

theorem enter_bundle (b : Bracket) (s : State) : (b.enter s).bundle = s.bundle := by
  cases b <;> rfl

theorem leave_bundle (b : Bracket) (s : State) : (b.leave s).bundle = s.bundle := by
  cases b <;> rfl

/-- Every operation on the state keeps the earlier records, if the earlier numbers are below the
next one. -/
theorem recording_lawful {b : Bundle} (fresh : ∀ r ∈ b.messages, r.uid < b.next) :
    (recording b).Lawful where
  plain h _ := h.recent
  find inv found := inv.recent.find? found
  receiver inv := inv.recent.receiver
  kept inv found := inv.recent.kept? found
  property inv _ _ found := inv.recent.heap.get? (fun _ h => h.toIsPlain.recent) found
  infer _ inv _ _ :=
    ⟨{ inv with recent := inv.recent.storeGlobal (Value.IsPlain.recent ⟨rfl, rfl⟩) }, trivial⟩
  storeGlobal _ inv value _ :=
    ⟨{ inv with recent := inv.recent.storeGlobal (value.named _) }, trivial⟩
  declare _ _ inv value _ :=
    ⟨{ inv with recent := inv.recent.declare (value.named _) }, trivial⟩
  overwrite inv value found :=
    ⟨⟨(overwrite?_bundle found).symm ▸ inv.grown,
      inv.recent.overwrite? value.named found⟩, trivial⟩
  setProperty _ inv _ _ value :=
    ⟨{ inv with recent := { inv.recent with
        heap := inv.recent.heap.set (fun _ h => h.toIsPlain.recent) value } }, trivial⟩
  newObject inv :=
    ⟨⟨{ inv with recent := { inv.recent with heap := inv.recent.heap.alloc .empty } }, trivial⟩,
      fun _ => fun _ held => nomatch held⟩
  newArray inv values :=
    ⟨⟨{ inv with recent := { inv.recent with heap := inv.recent.heap.newArray values } }, trivial⟩,
      fun _ => fun _ held => nomatch held⟩
  record _ _ inv _ := ⟨⟨inv.grown.trans (.push ..), { inv.recent with }⟩, trivial⟩
  carry severity f text inv _ := push_recent inv.grown severity f text
  drop inv value _ carried :=
    ⟨⟨inv.grown.drop fresh (value _ carried), { inv.recent with }⟩, trivial⟩
  tick _ inv _ := ⟨⟨inv.grown, { inv.recent with }⟩, trivial⟩
  keep id inv value := ⟨⟨inv.grown, inv.recent.keep id value⟩, trivial⟩
  faults _ := trivial
  enter b inv :=
    ⟨(enter_bundle b _).symm ▸ inv.grown, inv.recent.enter (Value.IsPlain.recent .unknown) b⟩
  leave b _ inv _ := ⟨⟨(leave_bundle b _).symm ▸ inv.grown, inv.recent.leave b⟩, trivial⟩
  outside _ value := value

/-- At the start of an analysis no value carries a record. -/
theorem initial_recent (b : Bundle) (r : Registry) (t : Tree) (clock : Clock) (c : Bundle) :
    (initial r t clock c).Every (Value.Recent b) :=
  .initial t clock c Value.IsPlain.unknown.recent fun id _ => (Value.IsPlain.ofEntity id).recent

/-- A walk that starts after some growth ends in growth. -/
theorem walk_grown {b : Bundle} (fresh : ∀ r ∈ b.messages, r.uid < b.next) (env : Env) (t : Tree)
    {s : Session} (grown : b.Grown s.bundle) : b.Grown (walk env t s).2.bundle := by
  have start : Recording b (initial env.registry t s.clock s.bundle) :=
    ⟨grown, initial_recent b env.registry t s.clock s.bundle⟩
  exact ((recording_lawful fresh).run env start t).inv.grown

theorem noteError_grown (file : String) (lines : Text.Lines) (t : Tree) (b : Bundle) :
    b.Grown (noteError file lines t b) := by
  unfold noteError
  split
  · exact .refl b
  · exact .push ..

/-- An analysis of any tree, whether it ends well or with a fault, leaves every earlier record where
it was, adds records with new numbers behind them, and changes nothing else that a bundle knows. -/
theorem analyseTree_appends (file : String) (source : List Char) (t : Tree) (options : Options)
    (s : Session) (fresh : ∀ r ∈ s.bundle.messages, r.uid < s.bundle.next) :
    let c := (analyseTree file source t options s).2.bundle
    s.bundle.SameSetting c ∧
      ∀ severity, ∃ new, c.records severity = s.bundle.records severity ++ new ∧
        ∀ r ∈ new, s.bundle.next ≤ r.uid := by
  have tested : s.bundle.Grown
      (if options.snippet then s else s.update (Battery.checkScript file source)).bundle := by
    split
    · exact .refl _
    · exact Battery.checkScript_grown ..
  have noted := tested.trans (noteError_grown file (Text.Lines.ofChars source) t _)
  have grown : s.bundle.Grown (analyseTree file source t options s).2.bundle :=
    walk_grown fresh _ t noted
  exact ⟨grown.setting, grown.records⟩

/-- A session with one record. -/
def noticed : Session :=
  { bundle := Bundle.add .notice { id := ["manifest", "legacy"], message := "Old manifest" } {} }

/-- A read of a preference, which takes back what its name alone gave rise to, and a call without
its end. -/
def unclosed : List Char :=
  "Services.prefs.getCharPref('network.proxy.http'); eval(".toList

theorem analyseTree_appends_to_notice :
    (∀ r ∈ noticed.bundle.messages, r.uid < noticed.bundle.next) ∧
      let c := (analyseTree "overlay.js" unclosed (Tree.ofSource unclosed) {} noticed).2.bundle
      noticed.bundle.SameSetting c ∧
        ∀ severity, ∃ new, c.records severity = noticed.bundle.records severity ++ new ∧
          ∀ r ∈ new, noticed.bundle.next ≤ r.uid := by
  have fresh : ∀ r ∈ noticed.bundle.messages, r.uid < noticed.bundle.next := by decide
  exact ⟨fresh, analyseTree_appends "overlay.js" unclosed (Tree.ofSource unclosed) {} noticed fresh⟩

end AddonAudit.Script
