import AddonAudit.Proofs.Engine.Invariant

/-!
# Kept values

A visit keeps values only under the numbers of the nodes inside of its node, in a table whose size
never changes. So what is kept elsewhere stays, and after a visit that gave a value the node itself
has a kept value.
-/

namespace AddonAudit.Script

open Engine

/-- The second table has the size of the first one and differs from it only under some numbers. -/
structure KeptInside (Inside : Nat → Prop) (s t : State) : Prop where
  size : t.results.size = s.results.size
  outside : ∀ id, ¬ Inside id → t.results[id]? = s.results[id]?

namespace KeptInside

variable {Inside : Nat → Prop} {s t u : State}

theorem of_eq (same : t.results = s.results) : KeptInside Inside s t :=
  ⟨congrArg Array.size same, fun _ _ => by rw [same]⟩

theorem trans (h : KeptInside Inside s t) (k : KeptInside Inside t u) : KeptInside Inside s u :=
  ⟨k.size.trans h.size, fun id out => (k.outside id out).trans (h.outside id out)⟩

theorem keep {id : Nat} (inside : Inside id) (v : Value) : KeptInside Inside s (s.keep id v) := by
  refine ⟨Array.size_setIfInBounds, fun other out => ?_⟩
  have ne : id ≠ other := fun same => out (same ▸ inside)
  exact Array.getElem?_setIfInBounds_ne ne

theorem subset {ids more : List Nat} (inside : KeptInside (· ∈ ids) s t) (sub : ids ⊆ more) :
    KeptInside (· ∈ more) s t :=
  ⟨inside.size, fun id out => inside.outside id fun mem => out (sub mem)⟩

theorem kept? (inside : KeptInside Inside s t) {id : Nat} (out : ¬ Inside id) :
    t.kept? id = s.kept? id :=
  congrArg Option.join (inside.outside id out)

end KeptInside

/-- Keeping values inside of some numbers as an invariant, for runs with some faults. -/
def keeping (Inside : Nat → Prop) (Faults : Fault → Prop) : Invariant where
  Inv _ := True
  Step := KeptInside Inside
  Val _ _ := True
  Faults := Faults
  refl _ := .of_eq rfl
  trans := .trans
  mono _ _ := trivial

theorem overwrite?_results {name : String} {v old : Value} {s t : State}
    (found : s.overwrite? name v = some (old, t)) : t.results = s.results := by
  obtain ⟨_, -, same⟩ := Option.map_eq_some_iff.1 found
  cases same
  rfl

theorem overwrite?_clock {name : String} {v old : Value} {s t : State}
    (found : s.overwrite? name v = some (old, t)) : t.clock = s.clock := by
  obtain ⟨_, -, same⟩ := Option.map_eq_some_iff.1 found
  cases same
  rfl

/-- No operation but keeping changes what is kept. -/
theorem keeping_steady {Inside : Nat → Prop} {Faults : Fault → Prop} :
    (keeping Inside Faults).Steady where
  plain _ _ := trivial
  find _ _ := trivial
  receiver _ := trivial
  kept _ _ := trivial
  property _ _ _ _ := trivial
  infer _ _ _ _ := ⟨trivial, .of_eq rfl⟩
  storeGlobal _ _ _ _ := ⟨trivial, .of_eq rfl⟩
  declare _ _ _ _ _ := ⟨trivial, .of_eq rfl⟩
  overwrite _ _ found := ⟨trivial, .of_eq (overwrite?_results found)⟩
  setProperty _ _ _ _ _ := ⟨trivial, .of_eq rfl⟩
  newObject _ := ⟨⟨trivial, .of_eq rfl⟩, fun _ => trivial⟩
  newArray _ _ := ⟨⟨trivial, .of_eq rfl⟩, fun _ => trivial⟩
  record _ _ _ _ := ⟨trivial, .of_eq rfl⟩
  carry _ _ _ _ _ := trivial
  drop _ _ _ _ := ⟨trivial, .of_eq rfl⟩
  tick _ _ _ := ⟨trivial, .of_eq rfl⟩
  enter _ _ := trivial
  leave {s t} b _ _ step := by
    have entered : (b.enter s).results = s.results := by cases b <;> rfl
    have left : (b.leave t).results = t.results := by cases b <;> rfl
    exact ⟨trivial, (KeptInside.of_eq entered).trans (step.trans (.of_eq left))⟩
  outside _ _ := trivial

theorem keeping_lasting {Inside : Nat → Prop} :
    (keeping Inside fun _ => True).Lasting (Inside ·.id) where
  toSteady := keeping_steady
  keep _ inside _ := ⟨trivial, .keep inside _⟩
  faults _ := trivial

/-- Nothing is kept under some numbers, and there is room to keep something. -/
def Free (ids : List Nat) (s : State) : Prop :=
  ∀ id ∈ ids, s.results[id]? = some none

theorem Free.kept? {ids : List Nat} {s : State} {id : Nat} (free : Free ids s) (mem : id ∈ ids) :
    s.kept? id = none := by
  rw [State.kept?, free id mem]
  rfl

theorem Free.room {ids : List Nat} {s : State} {id : Nat} (free : Free ids s) (mem : id ∈ ids) :
    id < s.results.size := by
  have found := free id mem
  exact (Array.getElem?_eq_some_iff.1 found).1

/-- At the start nothing is kept for the nodes of the tree. -/
theorem free_initial (root : Node) (r : Registry) (clock : Clock) (b : Bundle) :
    Free (Tree.ofRoot root).root.ids (initial r (Tree.ofRoot root) clock b) := by
  intro id mem
  obtain ⟨count, last, ids⟩ := Node.ids_number root 0
  have bound : id < (Tree.ofRoot root).size := by
    change id ∈ (Node.number 0 root).2.ids at mem
    change id < (Node.number 0 root).1
    rw [ids] at mem
    rw [last]
    exact (List.mem_range'_1.1 mem).2
  change (Array.replicate (Tree.ofRoot root).size none)[id]? = some none
  rw [Array.getElem?_replicate, if_pos bound]

theorem kept?_initial (r : Registry) (t : Tree) (clock : Clock) (b : Bundle) (id : Nat) :
    (initial r t clock b).kept? id = none := by
  change (Array.replicate t.size none)[id]?.join = none
  rw [Array.getElem?_replicate]
  split
  · rfl
  · rfl

/-- A property of states as an invariant, for runs with some faults. -/
def holding (P : State → Prop) (Faults : Fault → Prop := fun _ => True) : Invariant where
  Inv := P
  Step _ _ := True
  Val _ _ := True
  Faults := Faults
  refl _ := trivial
  trans _ _ := trivial
  mono _ _ := trivial

/-- A property of the clock and of the kept values has to survive only what changes these. -/
theorem holding_steady {P : State → Prop} {Faults : Fault → Prop}
    (same : ∀ {s t : State}, P s → t.clock = s.clock → t.results = s.results → P t)
    (tick : ∀ {s clock} visited, P s → (s.clock = none → clock = none) →
      P { s with visited, clock }) : (holding P Faults).Steady where
  plain _ _ := trivial
  find _ _ := trivial
  receiver _ := trivial
  kept _ _ := trivial
  property _ _ _ _ := trivial
  infer _ inv _ _ := ⟨same inv rfl rfl, trivial⟩
  storeGlobal _ inv _ _ := ⟨same inv rfl rfl, trivial⟩
  declare _ _ inv _ _ := ⟨same inv rfl rfl, trivial⟩
  overwrite inv _ found := ⟨same inv (overwrite?_clock found) (overwrite?_results found), trivial⟩
  setProperty _ inv _ _ _ := ⟨same inv rfl rfl, trivial⟩
  newObject inv := ⟨⟨same inv rfl rfl, trivial⟩, fun _ => trivial⟩
  newArray inv _ := ⟨⟨same inv rfl rfl, trivial⟩, fun _ => trivial⟩
  record _ _ inv _ := ⟨same inv rfl rfl, trivial⟩
  carry _ _ _ _ _ := trivial
  drop inv _ _ _ := ⟨same inv rfl rfl, trivial⟩
  tick visited inv clock := ⟨tick visited inv clock, trivial⟩
  enter b inv := by
    cases b <;> exact same inv rfl rfl
  leave b _ inv _ := by
    cases b <;> exact ⟨same inv rfl rfl, trivial⟩
  outside _ _ := trivial

theorem holding_lawful {P : State → Prop}
    (same : ∀ {s t : State}, P s → t.clock = s.clock → t.results = s.results → P t)
    (tick : ∀ {s clock} visited, P s → (s.clock = none → clock = none) →
      P { s with visited, clock })
    (keep : ∀ {s} id v, P s → P (s.keep id v)) : (holding P).Lawful where
  toSteady := holding_steady same tick
  keep id inv _ := ⟨keep id _ inv, trivial⟩
  faults _ := trivial

variable {env : Env} {s : State} {n : Node} {fuel : Nat}

/-- However a visit ends, it keeps values only inside of its node. -/
theorem visitWithin_keptInside (env : Env) (s : State) (fuel : Nat) (n : Node) :
    KeptInside (· ∈ n.ids) s (runFrom env s (visitWithin fuel n)).2 :=
  (keeping_lasting.visitWithin env trivial fuel fun _ inside => inside.mem_ids).step

theorem State.kept?_keep {id : Nat} (room : id < s.results.size) (v : Value) :
    (s.keep id v).kept? id = some v := by
  have set : (s.results.setIfInBounds id (some v))[id]? = some (some v) :=
    Array.getElem?_setIfInBounds_self_of_lt room
  exact congrArg Option.join set

/-- Counting a node and going one level deeper keeps nothing. -/
theorem State.results_counted (s : State) : s.count.2.enterLevel.results = s.results := rfl

theorem State.kept?_counted (s : State) (id : Nat) : s.count.2.enterLevel.kept? id = s.kept? id :=
  congrArg (·[id]?.join) s.results_counted

/-- An evaluation that gave a value has run its action to the end, and keeps the value. -/
theorem runFrom_evaluate_of_ok {v : Value} {x : Engine Value}
    (ok : (runFrom env s (evaluate n x)).1 = .ok v) :
    ∃ t, runFrom env s.count.2.enterLevel x = (.ok v, t) ∧
      (runFrom env s (evaluate n x)).2 = t.leaveLevel.keep n.id v := by
  rw [runFrom_evaluate] at ok ⊢
  split at ok
  · cases ok
  split at ok
  · cases ok
  next late deep =>
  rw [if_neg late, if_neg deep]
  rcases ran : runFrom env s.count.2.enterLevel x with ⟨e | w, t⟩
  · rw [ran] at ok
    cases ok
  · rw [ran] at ok
    cases ok
    exact ⟨t, rfl, rfl⟩

/-- A first visit that gave a value has run the rule of its node to the end, and keeps the value. -/
theorem runFrom_visitWithin_succ_of_ok {v : Value} (new : s.kept? n.id = none)
    (evaluated : n.isComment = false) (ok : (runFrom env s (visitWithin (fuel + 1) n)).1 = .ok v) :
    ∃ t, runFrom env s.count.2.enterLevel (dispatch (visitWithin fuel) n) = (.ok v, t) ∧
      (runFrom env s (visitWithin (fuel + 1) n)).2 = t.leaveLevel.keep n.id v := by
  rw [visitWithin_succ, runFrom_evaluateOnce, new, evaluated] at ok ⊢
  exact runFrom_evaluate_of_ok ok

theorem runFrom_visitWithin_of_ok {v : Value} (new : s.kept? n.id = none)
    (evaluated : n.isComment = false) (ok : (runFrom env s (visitWithin fuel n)).1 = .ok v) :
    ∃ less t, runFrom env s.count.2.enterLevel (dispatch (visitWithin less) n) = (.ok v, t) ∧
      (runFrom env s (visitWithin fuel n)).2 = t.leaveLevel.keep n.id v := by
  cases fuel with
  | zero =>
      rw [visitWithin_zero, runFrom_evaluateOnce, new, evaluated] at ok
      obtain ⟨t, ran, -⟩ := runFrom_evaluate_of_ok ok
      cases ran
  | succ less => exact ⟨less, runFrom_visitWithin_succ_of_ok new evaluated ok⟩

/-- The visit of a node whose value is kept does nothing, and in strict mode it is a fault. -/
theorem runFrom_visitWithin_of_kept {v : Value} (kept : s.kept? n.id = some v) :
    runFrom env s (visitWithin fuel n) =
      (if env.options.strict then .error (.retraversal n.kind (n.start.row + 1)) else .ok v,
        s) := by
  cases fuel with
  | zero => rw [visitWithin_zero, runFrom_evaluateOnce, kept]
  | succ fuel => rw [visitWithin_succ, runFrom_evaluateOnce, kept]

/-- After a visit that gave a value, that value is kept. -/
theorem kept?_of_visitWithin {v : Value} (ok : (runFrom env s (visitWithin fuel n)).1 = .ok v)
    (room : n.id < s.results.size) (evaluated : n.isComment = false) :
    (runFrom env s (visitWithin fuel n)).2.kept? n.id = some v := by
  cases old : s.kept? n.id with
  | some w =>
      rw [runFrom_visitWithin_of_kept old] at ok ⊢
      simp only at ok ⊢
      split at ok
      · cases ok
      · cases ok
        exact old
  | none =>
      have size := (visitWithin_keptInside env s fuel n).size
      obtain ⟨less, t, -, kept⟩ := runFrom_visitWithin_of_ok old evaluated ok
      rw [kept] at size ⊢
      refine State.kept?_keep ?_ v
      have same : (t.leaveLevel.keep n.id v).results.size = t.leaveLevel.results.size :=
        Array.size_setIfInBounds
      rw [← same, size]
      exact room

end AddonAudit.Script
