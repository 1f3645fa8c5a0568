import AddonAudit.Proofs.Atop
import AddonAudit.Proofs.Engine.AppendOnly
import AddonAudit.Proofs.Shift

/-!
# Runs over other records

A run of the engine gets a bundle with the records of earlier checks. It never reads them, and it
takes back only records of its own. So it goes the same way as a run that starts without records;
the numbers that its values carry are moved up.
-/

namespace AddonAudit.Script

open Engine Coupling Bundle

/-- The right state is the left one on top of earlier records. What is recorded about the file is
filed under a chain of names. -/
inductive Renumbered (b : Bundle) (chain : List String) (file : String) : Pair → Prop where
  | mk (s : State) (d : Bundle) (atop : Atop b chain s.bundle d)
      (here : chain <+: s.bundle.packageStack ++ [file]) :
      Renumbered b chain file ⟨s, s.shift b.next d⟩

/-- Runs of which the right one starts with earlier records. -/
def renumber (b : Bundle) (chain : List String) (env : Env) : Coupling where
  left := env
  right := env
  Inv := Renumbered b chain env.file
  Step _ _ := True
  Val _ v w := w = v.shift b.next
  refl _ := trivial
  trans _ _ := trivial
  mono value _ := value

variable {b : Bundle} {chain : List String} {env : Env}

theorem related_map_right {α β : Type} {R : α → β → Prop} {f : α → β} {o : Option α}
    (h : ∀ a, o = some a → R a (f a)) : Option.Rel R o (o.map f) := by
  cases o with
  | none => exact .none
  | some a => exact .some (h a rfl)

/-- A change outside of the bundle that moves along with the numbers. -/
theorem renumber_leads {p : Pair} {s t u : State} {d : Bundle} (atop : Atop b chain s.bundle d)
    (here : chain <+: s.bundle.packageStack ++ [env.file]) (left : t.bundle = s.bundle)
    (right : u = t.shift b.next d) : (renumber b chain env).Leads p t u := by
  subst right
  rw [← left] at atop here
  exact ⟨.mk t d atop here, trivial⟩

theorem renumber_onHeap {s : State} {d : Bundle} {f g : Heap → ObjectId × Heap}
    (atop : Atop b chain s.bundle d) (here : chain <+: s.bundle.packageStack ++ [env.file])
    (same : g (s.heap.shift b.next) = ((f s.heap).1, (f s.heap).2.shift b.next)) :
    let made := (s.shift b.next d).onHeap g
    (renumber b chain env).Leads ⟨s, s.shift b.next d⟩ (s.onHeap f).2 made.2 ∧
      (renumber b chain env).Handle ⟨(s.onHeap f).2, made.2⟩ (s.onHeap f).1 made.1 := by
  rw [s.onHeap_shift d same]
  exact ⟨renumber_leads atop here rfl rfl, fun _ => rfl⟩

theorem renumber_enter {p : Pair} (bracket : Bracket) (h : Renumbered b chain env.file p) :
    Renumbered b chain env.file (p.map bracket.enter) := by
  obtain ⟨s, d, atop, here⟩ := h
  cases bracket with
  | scope kind => exact .mk (s.enterScope kind) d atop here
  | receiver => exact .mk s.enterReceiver d atop here
  | level => exact .mk s.enterLevel d atop here

theorem renumber_leave {p q : Pair} (bracket : Bracket) (h : Renumbered b chain env.file q) :
    (renumber b chain env).Leads p (bracket.leave q.left) (bracket.leave q.right) := by
  obtain ⟨s, d, atop, here⟩ := h
  cases bracket with
  | scope kind =>
      refine renumber_leads (t := s.leaveScope) atop here rfl ?_
      simp [Bracket.leave, State.leaveScope, State.shift, List.map_tail]
  | receiver =>
      refine renumber_leads (t := s.leaveReceiver) atop here rfl ?_
      simp [Bracket.leave, State.leaveReceiver, State.shift, List.map_tail]
  | level => exact renumber_leads (t := s.leaveLevel) atop here rfl rfl

theorem renumber_record {p : Pair} (severity : Severity) {f : Finding}
    (h : Renumbered b chain env.file p) (about : f.file = some env.file) :
    (renumber b chain env).Leads p (p.left.record severity f).2 (p.right.record severity f).2 ∧
      (p.right.record severity f).1 = (p.left.record severity f).1.map (· + b.next) := by
  obtain ⟨s, d, atop, here⟩ := h
  obtain ⟨number, made⟩ := atop.push severity f fun file same => by
    cases about.symm.trans same
    exact here
  have stays := (push_sameSetting severity f s.bundle).packageStack
  exact ⟨⟨.mk (s.record severity f).2 _ made (stays ▸ here), trivial⟩, number⟩

theorem renumber_drop (fresh : ∀ r ∈ b.messages, r.uid < b.next) {p : Pair} (uid : Nat)
    (h : Renumbered b chain env.file p) :
    (renumber b chain env).Leads p (p.left.drop uid) (p.right.drop (uid + b.next)) := by
  obtain ⟨s, d, atop, here⟩ := h
  have stays := (drop_sameSetting uid s.bundle).packageStack
  exact ⟨.mk (s.drop uid) _ (atop.drop fresh uid) (stays ▸ here), trivial⟩

/-- Every operation goes the same way over earlier records. -/
theorem renumber_lawful (fresh : ∀ r ∈ b.messages, r.uid < b.next) :
    (renumber b chain env).Lawful where
  registry := rfl
  file := rfl
  lines := rfl
  alike := by
    rintro p v _ rfl
    exact v.alike_shift b.next
  plain h _ := (h.shift b.next).symm
  heap := by
    rintro _ ⟨s, d, -, -⟩
    exact s.heap.alike_shift
  kinds := by
    rintro _ ⟨s, d, -, -⟩
    show _ = (s.scopes.map (Scope.shift b.next)).map (·.kind)
    rw [List.map_map]
    rfl
  declared := by
    rintro _ name ⟨s, d, -, -⟩
    rw [s.variableScope_shift, Properties.find?_shift, Option.isSome_map]
  find := by
    rintro _ name ⟨s, d, -, -⟩
    rw [s.find?_shift]
    exact related_map_right fun _ _ => rfl
  receiver := by
    rintro _ ⟨s, d, -, -⟩
    exact s.receiver_shift d
  property := by
    rintro _ v _ id name ⟨s, d, -, -⟩ - -
    rw [show (s.shift b.next d).heap.get? id name = _ from s.heap.get?_shift id name]
    exact related_map_right fun _ _ => rfl
  infer := by
    rintro _ name ⟨s, d, atop, here⟩ - - -
    exact renumber_leads atop here rfl (s.storeGlobal_shift d name { Value.unknown with
      inferred := true })
  storeGlobal := by
    rintro _ v _ name ⟨s, d, atop, here⟩ rfl -
    exact renumber_leads atop here rfl (s.storeGlobal_shift d name (v.named false))
  declare := by
    rintro _ v _ name how ⟨s, d, atop, here⟩ rfl -
    exact renumber_leads atop here rfl (s.declare_shift d name v how)
  overwrite := by
    rintro _ v _ name ⟨s, d, atop, here⟩ rfl
    rw [s.overwrite?_shift d name v]
    refine related_map_right fun found same => ⟨rfl, ?_⟩
    exact renumber_leads atop here (overwrite?_bundle same) rfl
  setProperty := by
    rintro _ _ _ id v _ name ⟨s, d, atop, here⟩ - - rfl
    exact renumber_leads atop here rfl (s.setProperty_shift d id name v)
  newObject := by
    rintro _ ⟨s, d, atop, here⟩
    exact renumber_onHeap atop here (s.heap.alloc_shift {})
  newArray := by
    rintro _ vs ws ⟨s, d, atop, here⟩ related
    obtain rfl : vs.map (Value.shift b.next) = ws := by
      rw [← List.forall₂_eq_eq_eq, List.forall₂_map_left_iff]
      exact related.imp fun _ _ value => value.symm
    exact renumber_onHeap atop here (s.heap.newArray_shift vs)
  record := by
    intro p severity f inv about _
    exact (renumber_record severity inv about).1
  carry := by
    intro p severity f text inv about _
    rw [(renumber_record severity inv about).2]
    rfl
  drop := by
    rintro p v _ inv rfl -
    exact related_map_right fun uid _ => renumber_drop fresh uid inv
  enter := renumber_enter
  leave bracket _ inv _ := renumber_leave bracket inv
  outside _ value := value

theorem renumber_walks (fresh : ∀ r ∈ b.messages, r.uid < b.next) :
    (renumber b chain env).Walks fun _ => True where
  toLawful := renumber_lawful fresh
  strict := .inl rfl
  count := by
    rintro _ ⟨s, d, atop, here⟩
    exact ⟨rfl, renumber_leads atop here rfl rfl⟩
  depth := by
    rintro _ ⟨s, d, -, -⟩
    exact .inl rfl
  kept := by
    rintro _ n ⟨s, d, -, -⟩ -
    rw [s.kept?_shift]
    exact related_map_right fun _ _ => rfl
  keep := by
    rintro _ v _ n ⟨s, d, atop, here⟩ - ⟨rfl, -⟩
    exact renumber_leads atop here rfl (s.keep_shift d n.id v)
  faults _ _ := trivial
  late _ _ := trivial

/-- The global names of a script do not depend on numbers, and who shares them not on records. -/
theorem pollution?_shift {s : State} {d : Bundle} (view : SameView s.bundle d) (k : Nat) :
    pollution? env (s.shift k d) = pollution? env s := by
  have names : ownGlobals (s.shift k d).globals = ownGlobals s.globals := by
    show ownGlobals (Properties.shift k s.globals) = _
    rw [ownGlobals, Properties.shift, List.filter_map, List.map_map]
    rfl
  have owned : ownsGlobals env (s.shift k d) = ownsGlobals env s := by
    show (_ || d.metaFlag "is_jetpack" || d.resourceFlag "em:bootstrap") = _
    rw [metaFlag, resourceFlag, resource?, view.metadata, view.resources, view.shared]
    rfl
  rw [pollution?, names, owned]
  rfl

theorem renumber_checkDeadline {p : Pair} :
    (renumber b chain env).Holds p Same checkDeadline checkDeadline := by
  rintro ⟨s, d, atop, here⟩
  have leads : (renumber b chain env).Leads ⟨s, s.shift b.next d⟩ { s with clock := s.clock.look.2 }
      { s.shift b.next d with clock := s.clock.look.2 } := renumber_leads atop here rfl rfl
  have left := runFrom_checkDeadline env s
  have right := runFrom_checkDeadline env (s.shift b.next d)
  show (renumber b chain env).Ends _ _ (runFrom env s checkDeadline)
    (runFrom env (s.shift b.next d) checkDeadline)
  rw [left, right]
  show (renumber b chain env).Ends _ _ (if s.clock.look.1 then _ else _, _)
    (if s.clock.look.1 then _ else _, _)
  split
  · exact .fault _ leads trivial
  · exact .value leads rfl

/-- A walk over a tree goes the same way over earlier records. -/
theorem renumber_run (fresh : ∀ r ∈ b.messages, r.uid < b.next) {p : Pair} (t : Tree) :
    (renumber b chain env).Holds p Same (run t) (run t) := by
  refine run_holds (renumber_walks fresh) renumber_checkDeadline (fun _ => trivial) ?_
  rintro _ ⟨s, d, atop, -⟩
  exact (pollution?_shift atop.view b.next).symm

theorem initial_shift (r : Registry) (t : Tree) (clock : Clock) (c d : Bundle) (k : Nat) :
    (initial r t clock c).shift k d = initial r t clock d := by
  have window : (initial r t clock c).window.shift k = (initial r t clock d).window := by
    unfold initial
    split
    · exact (Value.IsPlain.ofEntity _).shift k
    · exact Value.IsPlain.unknown.shift k
  have results : (initial r t clock c).results.map (·.map (Value.shift k)) =
      (initial r t clock d).results := Array.map_replicate
  have heap : (initial r t clock c).heap.shift k = (initial r t clock d).heap :=
    congrArg Heap.mk Array.map_empty
  rw [State.shift, window, results, heap]
  rfl

end AddonAudit.Script
