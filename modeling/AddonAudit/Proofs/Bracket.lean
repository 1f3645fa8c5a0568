import AddonAudit.Proofs.Run

/-!
# Packages inside packages

What happens between entering a package and leaving it is a run of its own. If the run leaves
exactly the packages that it has entered, it finds and leaves the stack of outer packages as it was,
so on the way out the frame of the outer package comes back. The records with their counts, the
tiers and the values shared over the whole run belong to no frame and stay; the metadata of the
inner package is kept under its name.
-/

namespace AddonAudit

namespace Bundle

namespace Step

/-- The names of the open packages after a step, innermost first. Leaving without a package does
nothing. -/
def names (current : List String) : Step → List String
  | .operation (.enter name) => name :: current
  | .operation .leave => current.tail
  | _ => current

/-- The names of the open packages after a step, if the step does not leave a package where none is
open. -/
def nest (current : List String) : Step → Option (List String)
  | .operation (.enter name) => some (name :: current)
  | .operation .leave => current.tail?
  | _ => some current

/-- The value that a step shares over the whole run under a key. -/
def shares? (key : String) : Step → Option Json
  | .operation (.saveResource name value false) => if name = key then some value else none
  | _ => none

end Step

/-- The names of the packages that steps enter and do not leave, innermost first. -/
def opened (steps : List Step) : List String :=
  steps.foldl Step.names []

/-- Every package that steps leave is one that they have entered, and they leave all of them. -/
def Balanced (steps : List Step) : Prop :=
  steps.foldlM Step.nest [] = some []
  deriving Decidable

/-- The value that steps have last shared over the whole run under a key. -/
def lastShared? (key : String) (steps : List Step) : Option Json :=
  steps.reverse.findSome? (Step.shares? key)

variable {b c : Bundle} {r : Record} {s : Severity} {step : Step} {steps : List Step}
  {frames : List OuterPackage} {list : List String}

/-! ## The two stacks -/

theorem enter_packageStack (name : String) (b : Bundle) :
    (b.enter name).packageStack = b.packageStack ++ [name] := rfl

theorem leave_outer (b : Bundle) : b.leave.2.outer = b.outer.tail := by
  unfold leave
  split
  next empty => rw [empty]; rfl
  next more => rw [more]; rfl

/-- Leaving takes a name away exactly if it takes a package away. -/
theorem leave_packageStack (b : Bundle) :
    b.leave.2.packageStack = if b.outer = [] then b.packageStack else b.packageStack.dropLast := by
  unfold leave
  split
  next empty => rw [if_pos empty]
  next more => rw [if_neg (by rw [more]; exact List.cons_ne_nil _ _)]

theorem leave_packageStack_of_cons {frame : OuterPackage} (nested : b.outer = frame :: frames) :
    b.leave.2.packageStack = b.packageStack.dropLast := by
  rw [leave_packageStack, if_neg]
  rw [nested]
  exact List.cons_ne_nil frame frames

/-- Leaving the package that was entered last brings back both stacks. -/
theorem SameStacks.leave {name : String} (h : SameStacks (b.enter name) c) :
    SameStacks b c.leave.2 where
  outer := by
    rw [leave_outer, h.outer]
    rfl
  packageStack := by
    rw [leave_packageStack_of_cons h.outer, h.packageStack, enter_packageStack,
      List.dropLast_concat]

/-- A step that neither enters nor leaves a package keeps both stacks. -/
theorem Step.stack_cases (step : Step) (b : Bundle) :
    (∃ name, step = .operation (.enter name)) ∨ step = .operation .leave ∨
      SameStacks b (step.apply b) ∧
        ∀ list, step.names list = list ∧ step.nest list = some list := by
  cases step with
  | detect type => exact .inr (.inr ⟨⟨rfl, rfl⟩, fun _ => ⟨rfl, rfl⟩⟩)
  | operation op =>
      cases op with
      | push s f => exact .inr (.inr ⟨(push_sameSetting s f b).sameStacks, fun _ => ⟨rfl, rfl⟩⟩)
      | drop uid => exact .inr (.inr ⟨(drop_sameSetting uid b).sameStacks, fun _ => ⟨rfl, rfl⟩⟩)
      | enter name => exact .inl ⟨name, rfl⟩
      | leave => exact .inr (.inl rfl)
      | setTier tier => exact .inr (.inr ⟨⟨rfl, rfl⟩, fun _ => ⟨rfl, rfl⟩⟩)
      | setMeta name value => exact .inr (.inr ⟨⟨rfl, rfl⟩, fun _ => ⟨rfl, rfl⟩⟩)
      | saveResource name value inPackage =>
          cases inPackage <;> exact .inr (.inr ⟨⟨rfl, rfl⟩, fun _ => ⟨rfl, rfl⟩⟩)

/-- The stack of names holds the names of the packages in the other stack. The first one is kept
outermost first, the second one innermost first. -/
def InStep (b : Bundle) : Prop :=
  b.packageStack = (b.outer.map (·.name)).reverse

namespace InStep

theorem start (versions : Option AppVersions) : InStep (ofSupported versions) := rfl

theorem enter (h : InStep b) (name : String) : InStep (b.enter name) := by
  show b.packageStack ++ [name] = (name :: b.outer.map (·.name)).reverse
  rw [List.reverse_cons, h]

theorem leave (h : InStep b) : InStep b.leave.2 := by
  rw [InStep, leave_outer, leave_packageStack, h]
  cases b.outer with
  | nil => rfl
  | cons frame frames => simp

/-- No step brings the stacks out of step. -/
theorem apply (h : InStep b) (step : Step) : InStep (step.apply b) := by
  rcases step.stack_cases b with ⟨name, rfl⟩ | rfl | ⟨kept, -⟩
  · exact h.enter name
  · exact h.leave
  · rw [InStep, kept.outer, kept.packageStack, h]

theorem run (h : InStep b) (steps : List Step) : InStep (run steps b) := by
  induction steps generalizing b with
  | nil => exact h
  | cons step rest ih => exact ih (h.apply step)

end InStep

/-- The names of the outer packages follow the steps. -/
theorem Step.map_name_outer (step : Step) (b : Bundle) :
    (step.apply b).outer.map (·.name) = step.names (b.outer.map (·.name)) := by
  rcases step.stack_cases b with ⟨name, rfl⟩ | rfl | ⟨kept, plain⟩
  · rfl
  · show b.leave.2.outer.map (·.name) = (b.outer.map (·.name)).tail
    rw [leave_outer, List.map_tail]
  · rw [kept.outer, (plain _).1]

theorem map_name_outer_run (steps : List Step) (b : Bundle) :
    (run steps b).outer.map (·.name) = steps.foldl Step.names (b.outer.map (·.name)) := by
  induction steps generalizing b with
  | nil => rfl
  | cons step rest ih => rw [run_cons, ih, step.map_name_outer, List.foldl_cons]

/-! ## Balanced runs -/

theorem Step.names_of_nest {before after : List String} (nested : step.nest before = some after) :
    step.names before = after := by
  rcases step.stack_cases {} with ⟨name, rfl⟩ | rfl | ⟨-, plain⟩
  · exact Option.some.inj nested
  · cases before with
    | nil => exact nomatch nested
    | cons name others => exact Option.some.inj nested
  · rw [(plain _).2] at nested
    exact (plain _).1.trans (Option.some.inj nested)

theorem names_of_nest {before after : List String}
    (nested : steps.foldlM Step.nest before = some after) :
    steps.foldl Step.names before = after := by
  induction steps generalizing before with
  | nil => exact Option.some.inj nested
  | cons step rest ih =>
      rw [List.foldlM_cons] at nested
      obtain ⟨middle, first, others⟩ := Option.bind_eq_some_iff.1 nested
      rw [List.foldl_cons, Step.names_of_nest first]
      exact ih others

/-- Some packages are open on top of those of a bundle, in both stacks. -/
structure OpenOn (b : Bundle) (frames : List OuterPackage) (c : Bundle) : Prop where
  outer : c.outer = frames ++ b.outer
  packageStack : c.packageStack = b.packageStack ++ (frames.map (·.name)).reverse

theorem OpenOn.refl (b : Bundle) : OpenOn b [] b :=
  ⟨rfl, (List.append_nil _).symm⟩

theorem OpenOn.sameStacks (h : OpenOn b [] c) : SameStacks b c :=
  ⟨h.outer, h.packageStack.trans (List.append_nil _)⟩

theorem OpenOn.enter (h : OpenOn b frames c) (name : String) :
    OpenOn b (⟨name, c.metadata, c.tree, c.resources, c.detected⟩ :: frames) (c.enter name) where
  outer := congrArg (_ :: ·) h.outer
  packageStack := by
    rw [enter_packageStack, h.packageStack, List.map_cons, List.reverse_cons, List.append_assoc]

/-- The package that is left was entered on top of the others. -/
theorem OpenOn.leave {frame : OuterPackage} (h : OpenOn b (frame :: frames) c) :
    OpenOn b frames c.leave.2 where
  outer := by
    rw [leave_outer, h.outer]
    rfl
  packageStack := by
    rw [leave_packageStack_of_cons h.outer, h.packageStack, List.map_cons, List.reverse_cons,
      ← List.append_assoc, List.dropLast_concat]

/-- A step that leaves no package but those that were entered on top of others does not touch the
others. -/
theorem OpenOn.apply (h : OpenOn b frames c)
    (nested : step.nest (frames.map (·.name)) = some list) :
    ∃ inner : List OuterPackage, inner.map (·.name) = list ∧ OpenOn b inner (step.apply c) := by
  rcases step.stack_cases c with ⟨name, rfl⟩ | rfl | ⟨kept, plain⟩
  · refine ⟨_, ?_, h.enter name⟩
    exact Option.some.inj nested
  · cases frames with
    | nil => exact nomatch nested
    | cons frame frames => exact ⟨frames, Option.some.inj nested, h.leave⟩
  · rw [(plain _).2] at nested
    exact ⟨frames, Option.some.inj nested, kept.outer.trans h.outer,
      kept.packageStack.trans h.packageStack⟩

theorem OpenOn.run (h : OpenOn b frames c)
    (nested : steps.foldlM Step.nest (frames.map (·.name)) = some list) :
    ∃ inner : List OuterPackage, inner.map (·.name) = list ∧ OpenOn b inner (run steps c) := by
  induction steps generalizing c frames with
  | nil => exact ⟨frames, Option.some.inj nested, h⟩
  | cons step rest ih =>
      rw [List.foldlM_cons] at nested
      obtain ⟨middle, first, others⟩ := Option.bind_eq_some_iff.1 nested
      obtain ⟨inner, rfl, opened⟩ := h.apply first
      exact ih opened others

/-- In the middle of a balanced run only packages that it has entered are open on top of those that
were open before. -/
theorem Balanced.openOn_before {before after : List Step} (h : Balanced (before ++ after))
    (b : Bundle) :
    ∃ inner : List OuterPackage, inner.map (·.name) = opened before ∧
      OpenOn b inner (run before b) := by
  rw [Balanced, List.foldlM_append] at h
  obtain ⟨middle, first, -⟩ := Option.bind_eq_some_iff.1 h
  obtain ⟨inner, named, openOn⟩ := (OpenOn.refl b).run first
  exact ⟨inner, named.trans (names_of_nest first).symm, openOn⟩

/-- A balanced run keeps both stacks. -/
theorem Balanced.sameStacks (h : Balanced steps) (b : Bundle) : SameStacks b (run steps b) := by
  obtain ⟨inner, named, openOn⟩ := (OpenOn.refl b).run h
  rw [List.map_eq_nil_iff.1 named] at openOn
  exact openOn.sameStacks

/-- Inside a package the names of the packages around come first. -/
theorem Balanced.packageStack_before {before after : List Step} (h : Balanced (before ++ after))
    (b : Bundle) (name : String) :
    (run before (b.enter name)).packageStack =
      b.packageStack ++ name :: (opened before).reverse := by
  obtain ⟨inner, named, openOn⟩ := h.openOn_before (b.enter name)
  rw [openOn.packageStack, named, enter_packageStack, List.append_assoc]
  rfl

/-- A record that was not there before a run became one by a step of it. -/
theorem mem_records_run (mem : r ∈ (run steps b).records s) :
    r ∈ b.records s ∨ ∃ before f after, steps = before ++ .operation (.push s f) :: after ∧
      r = (run before b).stamp s f := by
  induction steps generalizing b with
  | nil => exact .inl mem
  | cons step rest ih =>
      rcases ih mem with old | ⟨before, f, after, rfl, made⟩
      · rcases step.apply_cases b with same | ⟨t, f, rfl, made⟩ | ⟨t, x, -, taken⟩
        · exact .inl (same.records s ▸ old)
        · rw [made, append_records] at old
          split at old
          next here =>
            have severity : t = s := here
            subst severity
            rcases List.mem_append.1 old with old | new
            · exact .inl old
            · exact .inr ⟨[], f, rest, rfl, List.mem_singleton.1 new⟩
          · exact .inl old
        · rw [taken] at old
          exact .inl ((retract_records_sublist s).subset old)
      · exact .inr ⟨step :: before, f, after, rfl, made⟩

theorem leave_shared (b : Bundle) : b.leave.2.shared = b.shared := by
  unfold leave
  split <;> rfl

theorem Step.find?_shared (step : Step) (b : Bundle) (key : String) :
    (step.apply b).shared.find? key = (step.shares? key).or (b.shared.find? key) := by
  cases step with
  | detect type => rfl
  | operation op =>
      cases op with
      | push s f => exact congrArg (Dict.find? key) (push_sameSetting s f b).shared
      | drop uid => exact congrArg (Dict.find? key) (drop_sameSetting uid b).shared
      | leave => exact congrArg (Dict.find? key) (leave_shared b)
      | saveResource name value inPackage =>
          cases inPackage with
          | true => rfl
          | false =>
              show Dict.find? key (Dict.insert name value b.shared) =
                (if name = key then some value else none).or (b.shared.find? key)
              rw [Dict.find?_insert]
              split <;> rfl
      | _ => rfl

/-- Shared values stay until the same key is used again, whatever packages are entered and left. -/
theorem find?_shared_run (steps : List Step) (b : Bundle) (key : String) :
    (run steps b).shared.find? key = (lastShared? key steps).or (b.shared.find? key) := by
  induction steps generalizing b with
  | nil => rfl
  | cons step rest ih =>
      rw [run_cons, ih, step.find?_shared, lastShared?, lastShared?, List.reverse_cons,
        List.findSome?_append, Option.or_assoc]
      simp

/-- On the way out the frame of the outer package comes back. -/
theorem Balanced.leave_enter (h : Balanced steps) (b : Bundle) (name : String) :
    (run steps (b.enter name)).leave = (true, { run steps (b.enter name) with
      outer := b.outer
      packageStack := b.packageStack
      metadata := addInner name (run steps (b.enter name)).metadata b.metadata
      tree := b.tree.merge (run steps (b.enter name)).tree
      resources := b.resources
      detected := b.detected }) := by
  have same := h.sameStacks (b.enter name)
  have outer : (run steps (b.enter name)).outer =
      ⟨name, b.metadata, b.tree, b.resources, b.detected⟩ :: b.outer := same.outer
  rw [leave, outer]
  simp only [same.packageStack, enter_packageStack, List.dropLast_concat]

theorem find?_addInner_of_ne {key : String} (ne : key ≠ "sub_packages") (name : String)
    (inner metadata : Dict Json) :
    (addInner name inner metadata).find? key = metadata.find? key :=
  Dict.find?_alter_of_ne (Ne.symm ne)

/-- Inner metadata is found under its name, unless something else than an object stands in its
place. -/
theorem find?_addInner {name : String} {inner metadata : Dict Json}
    (place : ∀ value, metadata.find? "sub_packages" = some value → ∃ fields, value = .obj fields) :
    ((addInner name inner metadata).find? "sub_packages").bind (Json.field? name) =
      some (.obj inner) := by
  have alone : Json.field? name (.obj [(name, .obj inner)]) = some (.obj inner) := by
    simp [Json.field?]
  -- Out of order, entries may hide the old value; then a new object comes before it.
  rcases Dict.find?_alter_self_cases metadata "sub_packages" (putInner name inner) with
    found | found
  · rw [addInner, found]
    exact alone
  · rw [addInner, found]
    cases old : metadata.find? "sub_packages" with
    | none => exact alone
    | some value =>
        obtain ⟨fields, rfl⟩ := place value old
        show (Dict.insert name (Json.obj inner) fields).find? name = _
        rw [Dict.find?_insert, if_pos rfl]

/-- A record that is made inside a package carries the names of all packages around its file. -/
theorem Balanced.stamp_file {before later : List Step} (h : Balanced (before ++ later)) (b : Bundle)
    (name : String) (s : Severity) {f : Finding} {file : String} (given : f.file = some file) :
    ((run before (b.enter name)).stamp s f).file =
      b.packageStack ++ name :: (opened before).reverse ++ [file] := by
  rw [← h.packageStack_before]
  simp only [stamp, given]

/-- A package is entered, a balanced run follows, and the package is left. Then the values shared
inside the package, its type, the stack of packages and all metadata but that of inner packages are
as they were before. Values shared over the whole run are those that the run has left. The last
metadata of the inner package is found under its name. A finding that is recorded inside with a file
carries the names of all packages around it, outermost first, and then the file, and so does every
record that is new afterwards. No run brings the stack of names out of step with the stack of
packages. After every run from an empty bundle they are in step, and the stack of names holds the
packages that were entered and not left. -/
theorem package_brackets_run (b : Bundle) (name : String) (steps : List Step)
    (balanced : Balanced steps) :
    let inside := run steps (b.enter name)
    let after := inside.leave.2
    inside.leave.1 = true ∧ after.resources = b.resources ∧ after.detected = b.detected ∧
    after.packageStack = b.packageStack ∧
    (∀ key, key ≠ "sub_packages" → after.metadata.find? key = b.metadata.find? key) ∧
    (∀ key, after.shared.find? key = (lastShared? key steps).or (b.shared.find? key)) ∧
    ((∀ value, b.metadata.find? "sub_packages" = some value → ∃ fields, value = .obj fields) →
      (after.metadata.find? "sub_packages").bind (Json.field? name) = some (.obj inside.metadata)) ∧
    (∀ before s f later file, steps = before ++ .operation (.push s f) :: later →
      f.file = some file → (run before (b.enter name)).isRelevant f.forVersions = true →
      ∃ r, ((run before (b.enter name)).add s f).records s =
          (run before (b.enter name)).records s ++ [r] ∧
        r.file = b.packageStack ++ name :: (opened before).reverse ++ [file]) ∧
    (∀ s, ∀ r ∈ after.records s, r ∈ b.records s ∨
      ∃ before f later, steps = before ++ .operation (.push s f) :: later ∧
        ∀ file, f.file = some file →
          r.file = b.packageStack ++ name :: (opened before).reverse ++ [file]) ∧
    (b.packageStack = (b.outer.map (·.name)).reverse → ∀ any : List Step,
      (run any b).packageStack = ((run any b).outer.map (·.name)).reverse) ∧
    (∀ versions, ∀ any : List Step,
      (run any (ofSupported versions)).packageStack =
        ((run any (ofSupported versions)).outer.map (·.name)).reverse ∧
      (run any (ofSupported versions)).packageStack = (opened any).reverse) := by
  intro inside after
  have left := balanced.leave_enter b name
  refine ⟨congrArg Prod.fst left, ?_, ?_, ?_, ?_, ?_, ?_, ?_, ?_, ?_, ?_⟩
  · simp only [after, inside, left]
  · simp only [after, inside, left]
  · simp only [after, inside, left]
  · intro key ne
    simp only [after, inside, left]
    exact find?_addInner_of_ne ne ..
  · intro key
    simp only [after, leave_shared]
    exact find?_shared_run steps (b.enter name) key
  · intro place
    simp only [after, inside, left]
    exact find?_addInner place
  · intro before s f later file here given relevant
    rw [here] at balanced
    refine ⟨(run before (b.enter name)).stamp s f, ?_, balanced.stamp_file b name s given⟩
    rw [add_of_relevant relevant, append_records]
    exact if_pos rfl
  · intro s r mem
    rw [(SameRecords.leave inside).records] at mem
    rcases mem_records_run mem with old | ⟨before, f, later, here, rfl⟩
    · rw [(SameRecords.enter name b).records] at old
      exact .inl old
    · rw [here] at balanced
      exact .inr ⟨before, f, later, here, fun file given => balanced.stamp_file b name s given⟩
  · intro inStep any
    exact InStep.run inStep any
  · intro versions any
    have inStep := (InStep.start versions).run any
    refine ⟨inStep, ?_⟩
    rw [inStep, map_name_outer_run]
    rfl

/-- Inside a package its type is decided, values are shared and a package is entered, in which a
record is made. -/
theorem package_brackets_run_nested :
    let b : Bundle := { detected := .extension, resources := [("own", .bool true)],
                        metadata := [("name", .str "outer")] }
    let before : List Step := [.detect .theme, .operation (.saveResource "own" .null true),
      .operation (.saveResource "all" (.bool true) false), .operation (.enter "deep.xpi")]
    let finding : Finding := { id := ["a"], message := "", file := some "main.js" }
    let later : List Step := [.operation .leave, .operation (.setMeta "name" (.str "inner"))]
    let steps := before ++ .operation (.push .error finding) :: later
    let inside := run steps (b.enter "inner.xpi")
    let after := inside.leave.2
    Balanced steps ∧ after.resources = b.resources ∧ after.detected = .extension ∧
      after.packageStack = [] ∧ after.metadata.find? "name" = some (.str "outer") ∧
      after.shared.find? "all" = some (.bool true) ∧
      (after.metadata.find? "sub_packages").bind (Json.field? "inner.xpi") =
        some (.obj inside.metadata) ∧
      (∃ r, ((run before (b.enter "inner.xpi")).add .error finding).errors = [r] ∧
        r.file = ["inner.xpi", "deep.xpi", "main.js"]) ∧
      let there := run (.operation (.enter "inner.xpi") :: before) b
      there.packageStack = ["inner.xpi", "deep.xpi"] ∧
        there.packageStack = (there.outer.map (·.name)).reverse := by
  intro b before finding later steps inside after
  have balanced : Balanced steps := by decide
  obtain ⟨-, resources, detected, stack, others, shared, inner, made, -, inStep, -⟩ :=
    package_brackets_run b "inner.xpi" steps balanced
  have absent : ∀ value, b.metadata.find? "sub_packages" = some value →
      ∃ fields, value = .obj fields := by
    intro value found
    exact nomatch found
  exact ⟨balanced, resources, detected, stack, others "name" (by decide),
    shared "all", inner absent, made before .error finding later "main.js" rfl rfl rfl,
    rfl, inStep rfl _⟩

end Bundle

end AddonAudit
