import AddonAudit.Proofs.Engine.FirstStatements
import AddonAudit.Proofs.Engine.Rerun

/-!
# Strict runs

In strict mode a second visit of a node is a fault. A first run over a tree visits no node twice,
but for the computed names of methods in object literals: the name is visited with its method, and
once more for the key of the property. Main statement: `Engine.retraversal_only_at_methodKey`.
-/

namespace AddonAudit.Script

open Engine
open Node hiding id

variable {env : Env} {s : State} {n key : Node} {fuel : Nat}

/-- A computed name of a method in an object literal. -/
structure MethodKey (object method key : Node) : Prop where
  isLiteral : object.kind = .object
  part : method ∈ object.parts
  isMethod : method.kind = .methodDefinition
  named : method.child? .name = some key
  computed : key.kind = .computedPropertyName

/-- A node is visited twice at most if it is a method's computed name inside of some node. -/
def OnlyMethodKeys (root : Node) (e : Fault) : Prop :=
  ∀ kind line, e = .retraversal kind line → ∃ object method key : Node, object.Within root ∧
    MethodKey object method key ∧ kind = .computedPropertyName ∧ line = key.start.row + 1

/-- A kept value may be replaced, but it stays kept. -/
theorem State.kept?_keep_of_kept {id other : Nat} {v w : Value} (old : s.kept? id = some w) :
    ∃ w, (s.keep other v).kept? id = some w := by
  by_cases same : other = id
  · subst same
    have found : s.results[other]? = some (some w) := Option.join_eq_some_iff.1 old
    exact ⟨v, State.kept?_keep (Array.getElem?_eq_some_iff.1 found).1 v⟩
  · refine ⟨w, ?_⟩
    have unchanged : (s.results.setIfInBounds other (some v))[id]? = s.results[id]? :=
      Array.getElem?_setIfInBounds_ne same
    exact (congrArg Option.join unchanged).trans old

theorem kept_lawful {id : Nat} : (holding fun s => ∃ v, s.kept? id = some v).Lawful := by
  refine holding_lawful ?_ (fun _ inv _ => inv) ?_
  · rintro s t ⟨v, old⟩ - same
    refine ⟨v, ?_⟩
    rw [State.kept?, same]
    exact old
  · rintro s other v ⟨w, old⟩
    exact State.kept?_keep_of_kept old

theorem visitComputed_eq {visit : Visit} (named : n.child? .name = some key)
    (computed : key.kind = .computedPropertyName) :
    visitComputed visit n .name = (do let _ ← visit key) := by
  rw [visitComputed, named]
  change Engine.when (key.kind = .computedPropertyName) _ = _
  rw [computed]
  rfl

/-- What follows the visit of a node does not forget its value. -/
theorem kept?_of_functionBody {f : Value} {id : Nat} (old : ∃ w, s.kept? id = some w) :
    ∃ w, (runFrom env s (do functionBody (visitWithin fuel) n; return f)).2.kept? id = some w := by
  have K : (holding fun s => ∃ v, s.kept? id = some v).Lawful := kept_lawful
  have body : ((holding fun s => ∃ v, s.kept? id = some v).coupling env).Holds ⟨s, s⟩
      (fun _ _ _ => True) (do functionBody (visitWithin fuel) n; return f)
      (do functionBody (visitWithin fuel) n; return f) := by
    refine (functionBody_holds K.lawful fun c mem m inside q => ?_).bind fun _ _ _ _ _ => ?_
    · exact visitWithin_at K.lasting.walks fuel fun _ _ => trivial
    · exact .ret fun _ => trivial
  exact (Invariant.of_holds old body).1.inv

/-- A method that gives a value has its computed name visited. -/
theorem kept?_of_methodDefinition {v : Value} (named : n.child? .name = some key)
    (computed : key.kind = .computedPropertyName) (room : key.id < s.results.size)
    (ok : (runFrom env s (methodDefinition (visitWithin fuel) n)).1 = .ok v) :
    ∃ w, (runFrom env s (methodDefinition (visitWithin fuel) n)).2.kept? key.id = some w := by
  obtain ⟨f, s₁, made, rest⟩ := runFrom_bind_of_ok ok
  have unchanged : (runFrom env s newFunction).2.results = s.results := rfl
  rw [made] at unchanged
  rw [methodDefinition, rest, visitComputed_eq named computed, bind_assoc] at ok ⊢
  obtain ⟨w, s₂, visited, rest⟩ := runFrom_bind_of_ok ok
  rw [rest]
  have evaluated : key.isComment = false := by
    rw [Node.isComment, computed]
    rfl
  have kept := kept?_of_visitWithin (congrArg Prod.fst visited) (unchanged ▸ room) evaluated
  rw [visited] at kept
  exact kept?_of_functionBody ⟨w, kept⟩

theorem dispatch_methodDefinition {visit : Visit} (isMethod : n.kind = .methodDefinition) :
    dispatch visit n = inScope .function (inReceiver (methodDefinition visit n)) := by
  rw [dispatch, isMethod]
  exact bind_pure _

/-- A first visit of a method that gives a value has visited the computed name. -/
theorem kept?_of_visit_method {v : Value} (isMethod : n.kind = .methodDefinition)
    (named : n.child? .name = some key) (computed : key.kind = .computedPropertyName)
    (free : Free n.ids s) (ok : (runFrom env s (visitWithin fuel n)).1 = .ok v) :
    ∃ w, (runFrom env s (visitWithin fuel n)).2.kept? key.id = some w := by
  have here : n.id ∈ n.ids := (Within.self n).mem_ids
  have keyHere : key.id ∈ n.ids := (Within.ofChild (mem_of_child? named)).mem_ids
  have evaluated : n.isComment = false := by
    rw [Node.isComment, isMethod]
    rfl
  obtain ⟨less, t, ran, after⟩ := runFrom_visitWithin_of_ok (free.kept? here) evaluated ok
  rw [dispatch_methodDefinition isMethod, runFrom_inScope, runFrom_inReceiver] at ran
  have room : key.id < (s.count.2.enterLevel.enterScope .function).enterReceiver.results.size := by
    change key.id < s.count.2.enterLevel.results.size
    rw [State.results_counted]
    exact free.room keyHere
  generalize (s.count.2.enterLevel.enterScope .function).enterReceiver = entered at ran room
  obtain ⟨given, last⟩ := Prod.mk.inj ran
  obtain ⟨w, kept⟩ := kept?_of_methodDefinition named computed room given
  generalize (runFrom env entered (methodDefinition (visitWithin less) n)).2 = left at last kept
  rw [after, ← last]
  exact State.kept?_keep_of_kept (w := w) kept

section Methods

variable {root object method : Node} {id : ObjectId}

theorem propertyKey_eq {visit : Visit} (computed : key.kind = .computedPropertyName) :
    propertyKey visit key = (do keyName (← visit key)) := by
  rw [propertyKey, computed]

theorem objectPart_eq {visit : Visit} (isMethod : method.kind = .methodDefinition)
    (named : method.child? .name = some key) :
    objectPart visit id method = (do
      let v ← visit method
      let name ← propertyKey visit key
      setProperty id name v) := by
  rw [objectPart, isMethod]
  simp only [named]
  rfl

/-- A method of an object literal makes first visits, but that its computed name is visited
again. -/
theorem methodPart_once (inside : object.Within root) (literal : object.kind = .object)
    (part : method ∈ object.parts) (isMethod : method.kind = .methodDefinition)
    (h : VisitsOnce env (OnlyMethodKeys root) (visitWithin fuel) method) :
    Once env (OnlyMethodKeys root) method.ids (objectPart (visitWithin fuel) id method) := by
  cases named : method.child? .name with
  | none =>
      rw [objectPart, isMethod]
      simp only [named]
      exact h.here.before fun _ => .ret ()
  | some key =>
      rw [objectPart_eq isMethod named]
      by_cases computed : key.kind = .computedPropertyName
      · intro s free
        obtain ⟨below, may⟩ := h.here s free
        rw [runFrom_bind]
        rcases ran : runFrom env s (visitWithin fuel method) with ⟨e | v, t⟩
        · rw [ran] at below may
          refine ⟨below, fun e' same => ?_⟩
          cases same
          exact may e rfl
        · obtain ⟨w, old⟩ :=
            kept?_of_visit_method isMethod named computed free (congrArg Prod.fst ran)
          rw [ran] at below old
          simp only
          rw [propertyKey_eq computed, bind_assoc, runFrom_bind, runFrom_visitWithin_of_kept old]
          cases env.options.strict with
          | true =>
              refine ⟨below, fun e fault kind line same => ?_⟩
              cases fault
              cases same
              exact ⟨object, method, key, inside, ⟨literal, part, isMethod, named, computed⟩,
                computed, rfl⟩
          | false =>
              have rest : Once env (OnlyMethodKeys root) [] (do
                  let name ← keyName w
                  setProperty id name v) := keyName_once.before fun _ => setProperty_once
              obtain ⟨unchanged, may'⟩ := rest t nofun
              exact ⟨below.trans (unchanged.subset (List.nil_subset _)), may'⟩
      · have named : Once env (OnlyMethodKeys root) [] (propertyKey (visitWithin fuel) key) := by
          unfold propertyKey
          split
          · exact .ret _
          · exact .ret _
          next kind => exact absurd kind computed
          · exact .ret _
        exact h.here.before fun v => named.before fun _ => setProperty_once

end Methods

theorem visitWithin_once {root : Node} (fuel : Nat) {n : Node} (inside : n.Within root)
    (distinct : n.Distinct) : Once env (OnlyMethodKeys root) n.ids (visitWithin fuel n) := by
  have late : OnlyMethodKeys root .timeout := nofun
  have deep : OnlyMethodKeys root .depthExceeded := nofun
  induction fuel generalizing n with
  | zero => exact evaluateOnce_once late deep (.fail deep)
  | succ fuel ih =>
      have below : VisitsOnceBelow env (OnlyMethodKeys root) (visitWithin fuel) n :=
        .inside inside distinct ih
      refine evaluateOnce_once late deep (dispatch_once below fun literal id m mem isMethod => ?_)
      exact methodPart_once inside literal mem isMethod (below.parts m mem)

/-- A method of an object literal with a computed name is never added to its object in strict
mode. -/
theorem objectPart_fails {object method : Node} {id : ObjectId} (strict : env.options.strict = true)
    (key : MethodKey object method key) (free : Free method.ids s) (u : Unit) :
    (runFrom env s (objectPart (visitWithin fuel) id method)).1 ≠ .ok u := by
  intro ok
  rw [objectPart_eq key.isMethod key.named] at ok
  obtain ⟨v, t, ran, rest⟩ := runFrom_bind_of_ok ok
  obtain ⟨w, old⟩ := kept?_of_visit_method key.isMethod key.named key.computed free
    (congrArg Prod.fst ran)
  rw [ran] at old
  rw [rest, propertyKey_eq key.computed, bind_assoc, runFrom_bind, runFrom_visitWithin_of_kept old,
    strict] at ok
  cases ok

/-- The other parts before it leave what is inside of the method to be visited first. -/
theorem objectParts_fails {root object method : Node} {id : ObjectId} {nodes : List Node}
    (strict : env.options.strict = true) (key : MethodKey object method key) (apart : Apart nodes)
    (once : ∀ c ∈ nodes,
      Once env (OnlyMethodKeys root) c.ids (objectPart (visitWithin fuel) id c))
    (mem : method ∈ nodes) (free : Free (idsAll nodes) s) (u : Unit) :
    (runFrom env s (objectParts (visitWithin fuel) id nodes)).1 ≠ .ok u := by
  induction nodes generalizing s with
  | nil => cases mem
  | cons n rest ih =>
      intro ok
      obtain ⟨_, t, ran, next⟩ := runFrom_bind_of_ok ok
      obtain ⟨head, tail⟩ := apart.cons
      have freeHead : Free n.ids s := free.subset (List.subset_append_left ..)
      rcases List.mem_cons.1 mem with rfl | mem
      · exact objectPart_fails strict key freeHead _ (congrArg Prod.fst ran)
      · have inside := (once n List.mem_cons_self s freeHead).1
        rw [ran] at inside
        have freeTail : Free (idsAll rest) t :=
          (free.subset (List.subset_append_right ..)).after inside head
        rw [objectParts, next] at ok
        exact ih tail (fun c mem => once c (List.mem_cons_of_mem n mem)) mem freeTail ok

/-- In strict mode a first visit of an object literal with such a method gives no value. -/
theorem visitWithin_methodKey_fails {object method : Node} (strict : env.options.strict = true)
    (key : MethodKey object method key) (distinct : object.Distinct) (free : Free object.ids s)
    (v : Value) : (runFrom env s (visitWithin fuel object)).1 ≠ .ok v := by
  intro ok
  have here : object.id ∈ object.ids := (Within.self object).mem_ids
  have evaluated : object.isComment = false := by
    rw [Node.isComment, key.isLiteral]
    rfl
  obtain ⟨less, t, ran, -⟩ := runFrom_visitWithin_of_ok (free.kept? here) evaluated ok
  have rule : dispatch (visitWithin less) object = objectValue (visitWithin less) object := by
    rw [dispatch, key.isLiteral]
    exact bind_pure _
  rw [rule] at ran
  have gave :
      (runFrom env s.count.2.enterLevel (objectValue (visitWithin less) object)).1 = .ok v :=
    congrArg Prod.fst ran
  obtain ⟨id, u, made, rest⟩ := runFrom_bind_of_ok gave
  have unchanged : (runFrom env s.count.2.enterLevel (onHeap Heap.newObject)).2.results =
      s.results := rfl
  rw [made] at unchanged
  rw [objectValue, rest] at gave
  obtain ⟨_, _, added, -⟩ := runFrom_bind_of_ok gave
  have below : VisitsOnceBelow env (OnlyMethodKeys object) (visitWithin less) object :=
    .inside (.self object) distinct (visitWithin_once less)
  have once : ∀ c ∈ object.parts,
      Once env (OnlyMethodKeys object) c.ids (objectPart (visitWithin less) id c) := by
    intro c mem
    refine objectPart_once (below.parts c mem) fun isMethod => ?_
    exact methodPart_once (.self object) key.isLiteral mem isMethod (below.parts c mem)
  have freeParts : Free (idsAll object.parts) u := by
    refine (free.subset fun _ mem => ?_).of_eq unchanged
    exact idsAll_children_subset object (idsAll_parts_subset object mem)
  exact objectParts_fails strict key below.apart once key.part freeParts _ (congrArg Prod.fst added)

theorem run_once (root : Node) :
    Once env (OnlyMethodKeys (Tree.ofRoot root).root) (Tree.ofRoot root).root.ids
      (run (Tree.ofRoot root)) := by
  have waited : Once env (OnlyMethodKeys (Tree.ofRoot root).root) [] checkDeadline := by
    intro s _
    rw [runFrom_checkDeadline]
    refine ⟨.of_eq rfl, fun e fault kind line same => ?_⟩
    subst same
    simp only at fault
    split at fault <;> cases fault
  refine waited.after fun _ => ?_
  refine (visitWithin_once maxDepth (.self _) (Node.distinct_ofRoot root)).before fun _ s _ => ?_
  rw [runFrom_checkGlobals]
  exact ⟨.of_eq rfl, nofun⟩

/-- A first run visits a node twice only if it is the computed name of a method in an object
literal. In strict mode that is a fault, and it is one whenever such an object literal is reached:
no first visit of it gives a value. -/
theorem Engine.retraversal_only_at_methodKey (root : Node) (env : Env) :
    let tree := Tree.ofRoot root
    (∀ clock b kind line,
      (runFrom env (initial env.registry tree clock b) (run tree)).1 =
          .error (.retraversal kind line) →
        ∃ object method key : Node, object.Within tree.root ∧ MethodKey object method key ∧
          kind = .computedPropertyName ∧ line = key.start.row + 1) ∧
      ∀ object method key : Node, object.Within tree.root → MethodKey object method key →
        env.options.strict = true → ∀ s fuel v, Free object.ids s →
          (runFrom env s (visitWithin fuel object)).1 ≠ .ok v := by
  intro tree
  constructor
  · intro clock b kind line fault
    exact (run_once root _ (free_initial root env.registry clock b)).2 _ fault kind line rfl
  · intro object method key inside methodKey strict s fuel v free
    exact visitWithin_methodKey_fails strict methodKey ((distinct_ofRoot root).inside inside) free v

/-- The script `({ [null]() {} });`. -/
def computedMethod : Node :=
  let name : Node := {
    kind := .computedPropertyName, role := some .name
    children := [{ kind := .nullLiteral }] }
  let method : Node := {
    kind := .methodDefinition
    children := [name, { kind := .formalParameters, role := some .parameters },
      { kind := .statementBlock, role := some .body }] }
  let literal : Node := { kind := .object, children := [method] }
  { kind := .program
    children := [{
      kind := .expressionStatement
      children := [{ kind := .parenthesizedExpression, children := [literal] }] }] }

/-- Strict mode rejects a script with such a method. -/
theorem Engine.retraversal_of_computedMethod :
    let tree := Tree.ofRoot computedMethod
    let env : Env := { registry := ⟨#[], []⟩, file := "method.js", lines := .ofChars [],
                       options := { strict := true } }
    let start := initial env.registry tree none {}
    (runFrom env start (run tree)).1 = .error (.retraversal .computedPropertyName 1) ∧
      ∃ object method key : Node, object.Within tree.root ∧ MethodKey object method key ∧
        1 = key.start.row + 1 ∧ Free object.ids start ∧
        ∀ v, (runFrom env start (visitWithin maxDepth object)).1 ≠ .ok v := by
  intro tree env start
  have fault :
      (runFrom env start (run tree)).1 = .error (.retraversal .computedPropertyName 1) := by
    decide +kernel
  obtain ⟨only, fails⟩ := retraversal_only_at_methodKey computedMethod env
  obtain ⟨object, method, key, inside, methodKey, -, line⟩ := only none {} _ _ fault
  have free : Free object.ids start :=
    (free_initial computedMethod env.registry none {}).subset inside.ids_subset
  exact ⟨fault, object, method, key, inside, methodKey, line, free,
    fun v => fails object method key inside methodKey rfl start maxDepth v free⟩

end AddonAudit.Script
