import AddonAudit.Proofs.Engine.AppendOnly
import AddonAudit.Proofs.Engine.Throughout

/-!
# Without rules there is silence

A registry may have entities, aliases, stars and globs, and still say nothing about any of them.
Main statement: `Engine.quiet_registry_silent`. Over such a registry a run never unwraps a value,
and what it records are only findings that need no entity.
-/

namespace AddonAudit

open Bundle

/-- A later bundle whose new records all have one of some ids. -/
structure Bundle.AddsOnly (ids : List (List String)) (b c : Bundle) : Prop where
  next : b.next ≤ c.next
  records : ∀ r ∈ c.messages, r ∈ b.messages ∨ b.next ≤ r.uid ∧ r.id ∈ ids

namespace Bundle.AddsOnly

variable {ids : List (List String)} {b c : Bundle}

theorem refl (b : Bundle) : b.AddsOnly ids b :=
  ⟨Nat.le_refl _, fun _ mem => .inl mem⟩

theorem push (h : b.AddsOnly ids c) (severity : Severity) {f : Finding} (listed : f.id ∈ ids) :
    b.AddsOnly ids (c.push severity f).2 := by
  rcases push_cases severity f c with left | made
  · rw [left]
    exact h
  · rw [made]
    refine ⟨append_stamp_next ▸ Nat.le_succ_of_le h.next, fun r mem => ?_⟩
    rcases mem_append_messages.1 mem with old | rfl
    · exact h.records r old
    · exact .inr ⟨h.next, listed⟩

theorem drop (h : b.AddsOnly ids c) (uid : Nat) : b.AddsOnly ids (c.drop uid).2 where
  next := drop_next uid c ▸ h.next
  records r mem := h.records r ((drop_messages_sublist uid c).subset mem)

end Bundle.AddsOnly

namespace Script

open Engine Coupling

/-- A value that is not the unwrapped view of an object. -/
def Value.IsWrapped (v : Value) : Prop :=
  v.unwrapped = false

/-- What a run without rules keeps that starts from a bundle. -/
structure State.Silent (b : Bundle) (s : State) : Prop where
  values : s.Every Value.IsWrapped
  records : b.AddsOnly ownFindings s.bundle

/-- Silence as an invariant: there is no cause for alarm. -/
def silence (b : Bundle) : Invariant where
  Inv := State.Silent b
  Step _ _ := True
  Val _ v := v.IsWrapped
  reach := { Alarm := False }
  refl _ := trivial
  trans _ _ := trivial
  mono value _ := value

theorem silence_lawful (b : Bundle) : (silence b).Lawful where
  plain _ admitted := Bool.eq_false_iff.2 admitted.unwrapped
  find inv found := inv.values.find? found
  receiver inv := inv.values.receiver
  kept inv found := inv.values.kept? found
  property inv _ _ found := inv.values.heap.get? (fun _ h => h.unwrapped) found
  infer _ inv _ _ := ⟨{ inv with values := inv.values.storeGlobal rfl }, trivial⟩
  storeGlobal _ inv value _ := ⟨{ inv with values := inv.values.storeGlobal value }, trivial⟩
  declare _ _ inv value _ := ⟨{ inv with values := inv.values.declare value }, trivial⟩
  overwrite inv value found :=
    ⟨⟨inv.values.overwrite? (fun _ => value) found, (overwrite?_bundle found).symm ▸ inv.records⟩,
      trivial⟩
  setProperty _ inv _ _ value :=
    ⟨{ inv with values := { inv.values with
        heap := inv.values.heap.set (fun _ h => h.unwrapped) value } }, trivial⟩
  newObject inv :=
    ⟨⟨{ inv with values := { inv.values with heap := inv.values.heap.alloc .empty } }, trivial⟩,
      fun _ => rfl⟩
  newArray inv values :=
    ⟨⟨{ inv with values := { inv.values with heap := inv.values.heap.newArray values } }, trivial⟩,
      fun _ => rfl⟩
  record severity _ inv warranted :=
    ⟨⟨{ inv.values with }, inv.records.push severity (warranted.resolve_right id)⟩, trivial⟩
  carry _ _ _ _ _ := rfl
  drop inv _ _ _ := ⟨⟨{ inv.values with }, inv.records.drop _⟩, trivial⟩
  tick _ inv _ := ⟨⟨{ inv.values with }, inv.records⟩, trivial⟩
  keep id inv value := ⟨⟨inv.values.keep id value, inv.records⟩, trivial⟩
  faults _ := trivial
  enter b inv := by
    have unknown : Value.unknown.IsWrapped := rfl
    exact ⟨inv.values.enter unknown b, (enter_bundle b _).symm ▸ inv.records⟩
  leave b _ inv _ := ⟨⟨inv.values.leave b, (leave_bundle b _).symm ▸ inv.records⟩, trivial⟩
  outside _ value := value

theorem silence_closed {env : Env} (quiet : env.registry.Behaves Behavior.IsQuiet) (b : Bundle) :
    ((silence b).coupling env).Closed where
  entities := ⟨trivial, fun _ _ => trivial, fun _ => trivial⟩
  admits {_ v _} value := by
    refine ⟨fun _ => trivial, fun _ => trivial, fun unwrapped => ?_⟩
    have wrapped : v.unwrapped = false := value.2
    exact absurd (wrapped.symm.trans unwrapped) nofun
  loud _ alarming := alarming (quiet.behavior ⟨rfl, rfl, rfl, rfl, rfl, rfl⟩ _)
  later _ _ := trivial
  entered _ _ := trivial
  inside _ := trivial
  free _ := trivial
  warned _ _ _ := trivial

/-- Let no entity of a registry have a hook, a danger or a rule against assignment. Then at both
ends of every visit of a run, and at its end, no value that the state holds, and not the value of
the visit, is unwrapped, and the new records are about an assignment to a constant, about too many
globals, about the name of a preference or about what a string contains. -/
theorem Engine.quiet_registry_silent {env : Env}
    (quiet : env.registry.Behaves Behavior.IsQuiet) (t : Tree) (clock : Clock) (b : Bundle) :
    let start := initial env.registry t clock b
    Throughout env start t (fun _ s => s.Silent b) (fun s v => s.Silent b ∧ v.IsWrapped) ∧
      (runFrom env start (run t)).2.Silent b := by
  intro start
  have closed := silence_closed quiet b
  have walking : (silence b).Walking fun _ => True := (silence_lawful b).lasting.walking
  have inv : start.Silent b := ⟨.initial t clock b rfl fun _ _ => rfl, .refl b⟩
  have may : ∀ q m, ((silence b).coupling env).Permits q m := fun _ _ _ _ _ => trivial
  refine ⟨?_, (walking.run_within inv t closed may).1.inv⟩
  exact walking.throughout inv t closed may (fun _ inv => inv) fun inv value => ⟨inv, value⟩

/-- A registry with a global object, an alias, stars and a glob, and with no rule. -/
def namesOnly : Registry :=
  Catalogue.registryOf
    [(["window"], { globalScope := true }),
      (["window", "opener"], { value := some (.link ["window"]) }),
      (["Components", "classes", "*"], { openEnded := true }),
      (["**", "on*"], {})]

/-- Calls of what is often dangerous, and an assignment to a constant. -/
def restless : List Char :=
  "const k = opener.document.wrappedJSObject; eval(k.onload); k = Components.classes[k].x();".toList

theorem Engine.quiet_registry_silent_restless :
    let env : Env := { registry := namesOnly, file := "overlay.js", lines := .ofChars restless }
    let t := Tree.ofSource restless
    let start := initial env.registry t none {}
    env.registry.Behaves Behavior.IsQuiet ∧
      Throughout env start t (fun _ s => s.Silent {}) (fun s v => s.Silent {} ∧ v.IsWrapped) ∧
      (runFrom env start (run t)).2.Silent {} ∧
      (runFrom env start (run t)).2.bundle.messages.map (·.id) =
        [["javascript", "traverser", "const_overwrite"]] := by
  intro env t start
  have quiet : env.registry.Behaves Behavior.IsQuiet := by decide +kernel
  have recorded : (runFrom env start (run t)).2.bundle.messages.map (·.id) =
      [["javascript", "traverser", "const_overwrite"]] := by decide +kernel
  obtain ⟨throughout, ends⟩ := @quiet_registry_silent env quiet t none {}
  exact ⟨quiet, throughout, ends, recorded⟩

end Script

end AddonAudit
