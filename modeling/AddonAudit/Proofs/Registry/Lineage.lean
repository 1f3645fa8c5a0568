import AddonAudit.Proofs.Registry.Calls

/-!
# The way up from an entity

The path of an entity and the advice about it are read on the way from the entity up to the root.
Main statement: `Registry.lineage_of_calls`. In every registry that calls make the way ends, because
the entity around has a smaller number; the names on it lead back to the entity; and each part of
the advice comes from the nearest entity on the way that has it.
-/

namespace AddonAudit.Script

namespace Advice

/-- The parts of an advice. -/
inductive Field where
  | id
  | severity
  | message
  | description
  | signing
  | editorsOnly
  | compatibility
  | gate
  deriving DecidableEq, Repr

/-- What a part of an advice holds. -/
def Field.Content : Field → Type
  | .id => List String
  | .severity => Severity
  | .message => String
  | .description => String
  | .signing => SigningSeverity
  | .editorsOnly => Bool
  | .compatibility => Severity
  | .gate => VersionGate

/-- A part of an advice, if it is set. -/
def get? (a : Advice) : (f : Field) → Option f.Content
  | .id => a.id
  | .severity => a.severity
  | .message => a.message
  | .description => a.description
  | .signing => a.signing
  | .editorsOnly => a.editorsOnly
  | .compatibility => a.compatibility
  | .gate => a.gate

theorem get?_empty (f : Field) : get? {} f = none := by
  cases f <;> rfl

theorem get?_over (a b : Advice) (f : Field) : (a.over b).get? f = (a.get? f).or (b.get? f) := by
  cases f <;> exact Option.orElse_eq_or

/-- In a chain of advice, a part is the first one that is set. -/
theorem get?_foldl_over {α : Type} (advice : α → Advice) (chain : List α) (a : Advice) (f : Field) :
    (chain.foldl (fun a e => a.over (advice e)) a).get? f =
      (a.get? f).or (chain.findSome? fun e => (advice e).get? f) := by
  induction chain generalizing a with
  | nil => exact Option.or_none.symm
  | cons e rest ih =>
      rw [List.foldl_cons, ih, get?_over, Option.or_assoc, List.findSome?_cons]
      cases (advice e).get? f <;> rfl

end Advice

namespace Registry

variable {r : Registry} {id : EntityId} {path : List String}

/-- A part of the advice about an entity is the first one on the way up that is set. -/
theorem get?_advice (r : Registry) (id : EntityId) (f : Advice.Field) :
    (r.advice id).get? f = (r.chain id).findSome? fun e => (r.behavior e).advice.get? f := by
  unfold advice
  rw [Advice.get?_foldl_over, Advice.get?_empty, Option.none_or]

/-- The way up from the end of a path goes to the root, and its names spell the path from the
end. -/
theorem Formed.chain_of_follow? (h : r.Formed) (found : r.follow? Registry.root path = some id) :
    ∃ inner, r.chain id = inner ++ [Registry.root] ∧
      (inner.map fun e => (r.get e).name).reverse = path := by
  induction path using List.reverseRecOn generalizing id with
  | nil =>
      cases found
      exact ⟨[], h.chain_root, rfl⟩
  | append_singleton path name ih =>
      obtain ⟨parent, before, last⟩ := follow?_concat_eq_some_iff.1 found
      obtain ⟨around, rfl⟩ := h.slot.1 last
      obtain ⟨inner, chain, names⟩ := ih before
      refine ⟨id :: inner, ?_, ?_⟩
      · rw [h.chain_of_parent around, chain, List.cons_append]
      · rw [List.map_cons, List.reverse_cons, names]

/-- Let calls be made one after the other on an empty registry, whether they succeed or not, and let
every alias have a target in the end.

* The entity around an entity has a smaller number, so the way up from an entity ends, and its chain
  is this way.
* From an entity that is not for any object the way leads to the root, and the names on it, looked
  up from the root, lead back to the entity. Stars are names here too.
* Each part of the advice about an entity is that of the nearest entity on the way up that has this
  part set, and it is not set if it is not set on the way. -/
theorem lineage_of_calls {calls : List (List String × Behavior)} {r : Registry}
    (built : (madeBy calls).check = .ok r) :
    (∀ id parent, (r.get id).parent = some parent → parent < id) ∧
      ∀ id < r.size,
        r.Ascends id (r.chain id) ∧
        ((∀ entry ∈ r.deep, entry.2 ≠ id) →
          ∃ inner, r.chain id = inner ++ [root] ∧
            r.segments id = (inner.map fun e => (r.get e).name).reverse ∧
            r.lookup? (r.segments id) = some id) ∧
        ∀ f : Advice.Field,
          (∀ v, (r.advice id).get? f = some v ↔
            ∃ below nearest above, r.chain id = below ++ nearest :: above ∧
              (r.behavior nearest).advice.get? f = some v ∧
              ∀ e ∈ below, (r.behavior e).advice.get? f = none) ∧
          ((r.advice id).get? f = none ↔
            ∀ e ∈ r.chain id, (r.behavior e).advice.get? f = none) := by
  obtain rfl := check_eq built
  have h := (tells_madeBy calls).formed
  refine ⟨fun id parent => h.above, fun id here =>
    ⟨h.ascends_chain here, fun plain => ?_, fun f => ?_⟩⟩
  · obtain ⟨path, found⟩ : ∃ path, (madeBy calls).follow? root path = some id :=
      (h.reached here).resolve_right fun ⟨entry, mem, same⟩ => plain entry mem same
    obtain ⟨inner, chain, names⟩ := h.chain_of_follow? found
    have spelled := h.segments_of_follow? found
    refine ⟨inner, chain, spelled.trans names.symm, ?_⟩
    rw [spelled]
    exact h.lookupFrom?_of_follow? found
  · rw [get?_advice]
    exact ⟨fun v => List.findSome?_eq_some_iff, List.findSome?_eq_none_iff⟩

/-- All members of an interface before the interface itself, then the interface once more, and a
member of any object. -/
def interfaceCalls : List (List String × Behavior) :=
  [(["iface", "*"], { advice := { message := some "member" } }),
    (["iface"], { advice := { severity := some .warning, message := some "interface" } }),
    (["iface"], {}), (["**", "on*"], {})]

theorem lineage_of_calls_interface :
    let r := madeBy interfaceCalls
    r.check = .ok r ∧ r.chain 2 = [2, 1, root] ∧ r.lookup? ["iface", "*"] = some 2 ∧
      (r.advice 2).get? .message = some "member" ∧
      (r.advice 2).get? .severity = some Severity.warning := by
  intro r
  have linked : r.danglingAlias? (List.range r.size) = none := by decide +kernel
  have built : r.check = .ok r := by
    unfold check
    rw [linked]
  have chain : r.chain 2 = [2, 1, root] := by decide +kernel
  have spelled : r.segments 2 = ["iface", "*"] := by decide +kernel
  obtain ⟨-, each⟩ := lineage_of_calls built
  obtain ⟨-, back, parts⟩ := each 2 (by decide +kernel)
  obtain ⟨inner, -, -, found⟩ := back (by decide +kernel)
  refine ⟨built, chain, spelled ▸ found, ?_, ?_⟩
  · exact ((parts .message).1 _).2 ⟨[], 2, [1, root], chain, rfl, List.forall_mem_nil _⟩
  · exact ((parts .severity).1 _).2 ⟨[2], 1, [root], chain, rfl, List.forall_mem_singleton.2 rfl⟩

end Registry

end AddonAudit.Script
