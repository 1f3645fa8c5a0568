import AddonAudit.Proofs.Engine.Invariant
import AddonAudit.Proofs.Scope

/-!
# Visits leave the frame as it was

Scopes, receivers and levels are entered and left in many places, and faults leave them on the way
out. Main statement: `Engine.visit_balanced`, a visit ends at the depth, with the receivers and with
the kinds of scopes with which it began.
-/

namespace AddonAudit.Script

open Engine

namespace State

/-- The values of `this`, innermost first; the last one is the global object. -/
def thisStack (s : State) : List Value :=
  s.receivers ++ [s.window]

/-- All scopes, innermost first; the last one is the global scope. -/
def contexts (s : State) : List Scope :=
  s.scopes ++ [{ kind := .function, names := s.globals }]

theorem contexts_enterScope (kind : ScopeKind) (s : State) :
    (s.enterScope kind).contexts = { kind } :: s.contexts := rfl

/-- The innermost scope is left, unless it is the only one. -/
theorem contexts_leaveScope (s : State) :
    s.leaveScope.contexts = if 1 < s.contexts.length then s.contexts.tail else s.contexts := by
  unfold contexts leaveScope
  cases s.scopes with
  | nil => rfl
  | cons scope rest => simp

/-- Entering a scope does not touch the global one. -/
theorem bottom_enterScope (kind : ScopeKind) (s : State) :
    (s.enterScope kind).contexts.getLast? = s.contexts.getLast? := by
  rw [contexts_enterScope]
  exact List.getLast?_cons_of_ne_nil (List.append_ne_nil_of_right_ne_nil _ (List.cons_ne_nil _ _))

/-- Leaving a scope never takes the global one away. -/
theorem bottom_leaveScope (s : State) :
    s.leaveScope.contexts.getLast? = s.contexts.getLast? := by
  rw [contexts_leaveScope]
  split
  next more => rw [List.getLast?_tail, if_neg (Nat.ne_of_gt more)]
  · rfl

/-- Two states with the same depth, the same receivers and the same kinds of scopes. -/
structure SameFrame (s t : State) : Prop where
  depth : t.depth = s.depth
  window : t.window = s.window
  receivers : t.receivers = s.receivers
  kinds : t.scopes.map (·.kind) = s.scopes.map (·.kind)

theorem SameFrame.refl (s : State) : s.SameFrame s := ⟨rfl, rfl, rfl, rfl⟩

theorem SameFrame.trans {s t u : State} (h : s.SameFrame t) (k : t.SameFrame u) : s.SameFrame u :=
  ⟨k.depth.trans h.depth, k.window.trans h.window, k.receivers.trans h.receivers,
    k.kinds.trans h.kinds⟩

end State

/-- Storing a name changes no kind of a scope. -/
theorem storeIn_kinds (into : Scope → Bool) (name : String) (v : Value) (globals : Properties)
    (scopes : List Scope) :
    (storeIn into name v globals scopes).2.map (·.kind) = scopes.map (·.kind) := by
  induction scopes with
  | nil => rfl
  | cons scope rest ih =>
      rw [storeIn]
      split
      · rfl
      · exact congrArg (scope.kind :: ·) ih

/-- Replacing the value of a name changes no kind of a scope. -/
theorem replace?_kinds {name : String} {f : Value → Value} {globals globals' : Properties}
    {scopes scopes' : List Scope} {old : Value}
    (found : replace? name f globals scopes = some (old, globals', scopes')) :
    scopes'.map (·.kind) = scopes.map (·.kind) := by
  rcases replace?_cases found with ⟨rfl, -⟩ | ⟨-, inner, scope, outer, rfl, -, rfl⟩
  · rfl
  · rw [List.map_append, List.map_append, List.map_cons, List.map_cons]

/-- The frame of a run as an invariant. -/
def frame : Invariant where
  Inv _ := True
  Step := State.SameFrame
  Val _ _ := True
  refl := .refl
  trans := .trans
  mono _ _ := trivial

theorem frame_leaves {s t : State} (b : Bracket) (h : (b.enter s).SameFrame t) :
    s.SameFrame (b.leave t) := by
  cases b with
  | scope kind =>
      refine ⟨h.depth, h.window, h.receivers, ?_⟩
      change t.scopes.tail.map (·.kind) = _
      rw [List.map_tail, h.kinds]
      rfl
  | receiver =>
      refine ⟨h.depth, h.window, ?_, h.kinds⟩
      change t.receivers.tail = _
      rw [h.receivers]
      rfl
  | level =>
      refine ⟨?_, h.window, h.receivers, h.kinds⟩
      change t.depth - 1 = _
      rw [h.depth]
      rfl

theorem frame_lawful : frame.Lawful where
  plain _ _ := trivial
  find _ _ := trivial
  receiver _ := trivial
  kept _ _ := trivial
  property _ _ _ _ := trivial
  infer _ _ _ _ := ⟨trivial, rfl, rfl, rfl, rfl⟩
  storeGlobal _ _ _ _ := ⟨trivial, rfl, rfl, rfl, rfl⟩
  declare _ _ _ _ _ := ⟨trivial, rfl, rfl, rfl, storeIn_kinds ..⟩
  overwrite := by
    intro s t v old name _ _ found
    obtain ⟨⟨_, _, _⟩, replaced, same⟩ := Option.map_eq_some_iff.1 found
    cases same
    exact ⟨trivial, rfl, rfl, rfl, replace?_kinds replaced⟩
  setProperty _ _ _ _ _ := ⟨trivial, rfl, rfl, rfl, rfl⟩
  newObject _ := ⟨⟨trivial, rfl, rfl, rfl, rfl⟩, fun _ => trivial⟩
  newArray _ _ := ⟨⟨trivial, rfl, rfl, rfl, rfl⟩, fun _ => trivial⟩
  record _ _ _ _ := ⟨trivial, rfl, rfl, rfl, rfl⟩
  carry _ _ _ _ _ := trivial
  drop _ _ _ _ := ⟨trivial, rfl, rfl, rfl, rfl⟩
  tick _ _ _ := ⟨trivial, rfl, rfl, rfl, rfl⟩
  keep _ _ _ := ⟨trivial, rfl, rfl, rfl, rfl⟩
  faults _ := trivial
  enter _ _ := trivial
  leave b _ _ step := ⟨trivial, frame_leaves b step⟩
  outside _ _ := trivial

/-- However a visit ends, with a value or with a fault from any depth, it leaves the depth, the
values of `this` and the kinds of the scopes as it found them, and the global scope is still the
last one. Scopes are entered in front of the others, and the innermost one is left unless it is the
global one, which stays the last one in both cases. -/
theorem Engine.visit_balanced (env : Env) (s : State) (n : Node) :
    let t := (runFrom env s (visit n)).2
    t.depth = s.depth ∧ t.thisStack = s.thisStack ∧
      t.contexts.map (·.kind) = s.contexts.map (·.kind) ∧
      t.contexts.getLast? = some { kind := .function, names := t.globals } ∧
      ∀ (u : State) (kind : ScopeKind), (u.enterScope kind).contexts = { kind } :: u.contexts ∧
        u.leaveScope.contexts = (if 1 < u.contexts.length then u.contexts.tail else u.contexts) ∧
        (u.enterScope kind).contexts.getLast? = u.contexts.getLast? ∧
        u.leaveScope.contexts.getLast? = u.contexts.getLast? := by
  intro t
  have same : s.SameFrame t := (frame_lawful.visitWithin env trivial maxDepth n).step
  refine ⟨same.depth, ?_, ?_, List.getLast?_concat, fun u kind => ?_⟩
  · rw [State.thisStack, State.thisStack, same.receivers, same.window]
  · simp only [State.contexts, List.map_append, same.kinds, List.map_cons, List.map_nil]
  · exact ⟨u.contexts_enterScope kind, u.contexts_leaveScope, u.bottom_enterScope kind,
      u.bottom_leaveScope⟩

end AddonAudit.Script
