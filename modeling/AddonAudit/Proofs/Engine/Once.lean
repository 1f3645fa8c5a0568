import AddonAudit.Proofs.Engine.Kept

/-!
# First visits

A step makes first visits under some numbers if, started where nothing is kept under them, it keeps
values nowhere else. `Once` is the judgement that a step does that and does not end with other
faults than some. Steps in a row make first visits if their numbers are disjoint, which is what the
different roles of the children of a node are good for.
-/

namespace AddonAudit.Script

open Engine Node

variable {α β : Type} {env : Env} {May : Fault → Prop} {ids more : List Nat}

theorem Free.subset {s : State} (free : Free more s) (sub : ids ⊆ more) : Free ids s :=
  fun id mem => free id (sub mem)

theorem Free.of_eq {s t : State} (free : Free ids s) (same : t.results = s.results) :
    Free ids t := by
  intro id mem
  rw [same]
  exact free id mem

/-- What is kept under other numbers leaves numbers free. -/
theorem Free.after {s t : State} (free : Free more s) (inside : KeptInside (· ∈ ids) s t)
    (apart : ids.Disjoint more) : Free more t := by
  intro id mem
  rw [inside.outside id fun kept => apart kept mem]
  exact free id mem

/-- A step makes first visits under some numbers, and ends with no other faults than some. -/
def Once (env : Env) (May : Fault → Prop) (ids : List Nat) (x : Engine α) : Prop :=
  ∀ s, Free ids s →
    KeptInside (· ∈ ids) s (runFrom env s x).2 ∧ ∀ e, (runFrom env s x).1 = .error e → May e

namespace Once

variable {x : Engine α} {f : α → Engine β}

theorem ret (a : α) : Once env May ids (pure a) :=
  fun _ _ => ⟨.of_eq rfl, nofun⟩

theorem fail {e : Fault} (may : May e) : Once env May ids (throw e : Engine α) := by
  refine fun _ _ => ⟨.of_eq rfl, fun e' same => ?_⟩
  cases same
  exact may

theorem subset (h : Once env May ids x) (sub : ids ⊆ more) : Once env May more x := by
  intro s free
  obtain ⟨inside, may⟩ := h s (free.subset sub)
  exact ⟨inside.subset sub, may⟩

/-- The rule of sequence: the second step does not meet what the first one has kept. -/
theorem bind (first : Once env May ids x) (second : ∀ a, Once env May more (f a))
    (apart : ids.Disjoint more) : Once env May (ids ++ more) (x >>= f) := by
  intro s free
  obtain ⟨inside, may⟩ := first s (free.subset (List.subset_append_left ids more))
  rw [runFrom_bind]
  rcases ran : runFrom env s x with ⟨e | a, t⟩
  · rw [ran] at inside may
    refine ⟨inside.subset (List.subset_append_left ids more), fun e' same => ?_⟩
    cases same
    exact may e rfl
  · rw [ran] at inside
    have rest : Free more t := (free.subset (List.subset_append_right ids more)).after inside apart
    obtain ⟨inside', may'⟩ := second a t rest
    refine ⟨?_, may'⟩
    exact (inside.subset (List.subset_append_left ids more)).trans
      (inside'.subset (List.subset_append_right ids more))

/-- A step that visits nothing may go before. -/
theorem after (silent : Once env May [] x) (second : ∀ a, Once env May ids (f a)) :
    Once env May ids (x >>= f) :=
  silent.bind second (List.disjoint_nil_left ids)

/-- A step that visits nothing may follow. -/
theorem before (first : Once env May ids x) (silent : ∀ a, Once env May [] (f a)) :
    Once env May ids (x >>= f) := by
  have both := first.bind silent (List.disjoint_nil_right ids)
  rwa [List.append_nil] at both

variable {n : Node} {role : Role} {used : List Role}

/-- The rule of sequence for the children of a node: the first step visits the child in a role, and
what follows visits children in other roles only. -/
theorem inRole (distinct : n.Distinct) (new : role ∉ used)
    (first : Once env May (idsAs role n.children) x)
    (second : ∀ a, Once env May (idsExcept (role :: used) n.children) (f a)) :
    Once env May (idsExcept used n.children) (x >>= f) := by
  refine (first.bind second distinct.idsAs_disjoint).subset ?_
  exact List.append_subset.2 ⟨idsAs_subset_idsExcept new, idsExcept_cons_subset⟩

/-- The last step may visit the child in any role that is left. -/
theorem inLastRole (new : role ∉ used) (h : Once env May (idsAs role n.children) x) :
    Once env May (idsExcept used n.children) x :=
  h.subset (idsAs_subset_idsExcept new)

/-- At first all roles are left. -/
theorem inRoles (h : Once env May (idsExcept [] n.children) x) :
    Once env May (idsAll n.children) x :=
  h.subset idsExcept_subset_idsAll

theorem onState {f : State → Engine α} (h : ∀ s, Once env May ids (f s)) :
    Once env May ids (get >>= f) := fun s free => h s s free

theorem onHeap {f : Heap → Engine α} (h : ∀ heap, Once env May ids (f heap)) :
    Once env May ids (heap >>= f) := fun s free => h s.heap s free

theorem when {c : Bool} {x : Engine Unit} (h : Once env May ids x) :
    Once env May ids (Engine.when c x) := by
  cases c with
  | true => exact h
  | false => exact ret ()

theorem forM {γ : Type} {o : Option γ} {f : γ → Engine PUnit}
    (h : ∀ a, o = some a → Once env May ids (f a)) : Once env May ids (o.forM f) := by
  cases o with
  | none => exact ret ()
  | some a => exact h a rfl

/-- A change of the state that keeps no value. -/
theorem updateWith {f : State → α × State} (same : ∀ s, (f s).2.results = s.results) :
    Once env May ids (modifyGet f : Engine α) :=
  fun s _ => ⟨.of_eq (same s), nofun⟩

/-- The rule of loops over nodes that lie apart: each step makes first visits inside of its own
node. -/
theorem each {step : Node → Engine α} {loop : List Node → Engine Unit} (nil : loop [] = pure ())
    (cons : ∀ n rest, loop (n :: rest) = (do let _ ← step n; loop rest)) {nodes : List Node}
    (apart : Apart nodes) (h : ∀ c ∈ nodes, Once env May c.ids (step c)) :
    Once env May (idsAll nodes) (loop nodes) := by
  induction nodes with
  | nil =>
      rw [nil]
      exact ret ()
  | cons n rest ih =>
      obtain ⟨head, tail⟩ := apart.cons
      have others := ih tail fun c mem => h c (List.mem_cons_of_mem n mem)
      rw [cons]
      exact (h n List.mem_cons_self).bind (fun _ => others) head

/-- The rule of brackets. -/
theorem within (b : Bracket) (h : Once env May ids x) : Once env May ids (b.within x) := by
  intro s free
  have entered : (b.enter s).results = s.results := by cases b <;> rfl
  obtain ⟨inside, may⟩ := h (b.enter s) (free.of_eq entered)
  have ran : runFrom env s (b.within x) =
      ((runFrom env (b.enter s) x).1, b.leave (runFrom env (b.enter s) x).2) :=
    runFrom_andAlways x b.leave
  rw [ran]
  have left : ∀ t, (b.leave t).results = t.results := by cases b <;> exact fun _ => rfl
  exact ⟨.trans (.of_eq entered) (inside.trans (.of_eq (left _))), may⟩

end Once

/-- Runs that keep no values and end without a fault, coupled with themselves. -/
def quiet (env : Env) : Coupling :=
  (keeping (fun _ => False) fun _ => False).coupling env

theorem quiet_lawful : (quiet env).Lawful :=
  keeping_steady.lawful

/-- In a quiet coupling every value stands for itself. -/
theorem quiet_val {p : Pair} (v : Value) : (quiet env).Val p v v :=
  ⟨rfl, trivial⟩

theorem quiet_args {p : Pair} (args : Arguments) : (quiet env).Args p args args :=
  List.forall₂_same.2 fun _ _ => ⟨rfl, quiet_val _, fun _ => trivial⟩

theorem quiet_place {p : Pair} (target : Target) : (quiet env).Place p target target := by
  rcases target with name | ⟨base, name⟩ | - | -
  · exact .name name
  · exact .member name (quiet_val base)
  · exact .pattern
  · exact .unknown

/-- A step that keeps every lawful coupling with itself visits nothing. -/
theorem Once.ofHolds {Q : Pair → α → α → Prop} {x : Engine α}
    (h : ∀ p, (quiet env).Holds p Q x x) : Once env May ids x := by
  intro s _
  have ran := Invariant.of_holds (I := keeping (fun _ => False) fun _ => False) trivial (h ⟨s, s⟩)
  obtain ⟨⟨-, kept⟩, faultless⟩ := ran
  refine ⟨⟨kept.size, fun id _ => kept.outside id fun never => never⟩, fun e fault => ?_⟩
  exact (faultless e fault).elim

end AddonAudit.Script
