import AddonAudit.Script.Engine.State

/-!
# Names in scopes

Variables and functions go to the nearest function, other declarations to the innermost scope, and
names that nothing declares to the globals. Here is what storing and replacing does to the ordered
names of the scopes: names are added at the end, and only up to the nearest function.
-/

namespace AddonAudit.Script

/-- Add a name behind other names, unless it is one of them. -/
def addName (name : String) (names : List String) : List String :=
  if name ∈ names then names else names ++ [name]

theorem addName_cons (name first : String) (rest : List String) :
    addName name (first :: rest) =
      if first = name then first :: rest else first :: addName name rest := by
  by_cases same : first = name
  · rw [if_pos same, addName, if_pos (same ▸ List.mem_cons_self)]
  · have iff : name ∈ first :: rest ↔ name ∈ rest := by simp [Ne.symm same]
    rw [if_neg same, addName, addName]
    simp only [iff]
    split <;> rfl

namespace Properties

/-- The names of the properties, in order. -/
def names (l : Properties) : List String :=
  l.map Prod.fst

theorem names_store (name : String) (v : Value) (l : Properties) :
    (l.store name v).names = addName name l.names := by
  induction l with
  | nil => rfl
  | cons entry rest ih =>
      obtain ⟨first, w⟩ := entry
      have added : addName name (names ((first, w) :: rest)) =
          if first = name then first :: names rest else first :: addName name (names rest) :=
        addName_cons name first (names rest)
      rw [store, added]
      split
      · rfl
      · exact congrArg (first :: ·) ih

theorem mem_names_of_find? {name : String} {v : Value} {l : Properties}
    (found : l.find? name = some v) : name ∈ l.names := by
  induction l with
  | nil => cases found
  | cons entry rest ih =>
      rw [find?] at found
      split at found
      next same => exact same ▸ List.mem_cons_self
      · exact List.mem_cons_of_mem _ (ih found)

/-- Storing under a name that is there adds no name. -/
theorem names_store_of_find? {name : String} {v w : Value} {l : Properties}
    (found : l.find? name = some v) : (l.store name w).names = l.names := by
  rw [names_store, addName, if_pos (mem_names_of_find? found)]

/-- What is stored under a name is found under it, and under other names is what was there. -/
theorem find?_store (name other : String) (v : Value) (l : Properties) :
    (l.store name v).find? other = if name = other then some v else l.find? other := by
  induction l with
  | nil => rfl
  | cons entry rest ih =>
      obtain ⟨first, w⟩ := entry
      rw [store]
      split
      next same =>
          subst same
          rw [find?, find?]
          split <;> rfl
      next different =>
          rw [find?, find?, ih]
          split
          next here => rw [if_neg fun same => different (here.trans same.symm)]
          · rfl

theorem find?_store_self (name : String) (v : Value) (l : Properties) :
    (l.store name v).find? name = some v := by
  rw [find?_store, if_pos rfl]

theorem find?_store_of_ne {name other : String} (ne : other ≠ name) (v : Value) (l : Properties) :
    (l.store name v).find? other = l.find? other := by
  rw [find?_store, if_neg ne.symm]

/-- The names of one list come first in another one, in the same order. Their values may be others,
but none is inferred that was not. -/
inductive Extends : Properties → Properties → Prop where
  | nil (added : Properties) : Extends [] added
  | cons {name : String} {v w : Value} {old new : Properties}
      (settled : v.inferred = false → w.inferred = false) (rest : Extends old new) :
      Extends ((name, v) :: old) ((name, w) :: new)

namespace Extends

variable {old new newer : Properties} {name : String} {v : Value}

theorem refl (l : Properties) : Extends l l := by
  induction l with
  | nil => exact .nil []
  | cons entry rest ih => exact .cons id ih

theorem trans (h : Extends old new) (h' : Extends new newer) : Extends old newer := by
  induction h generalizing newer with
  | nil => exact .nil newer
  | cons settled _ ih =>
      cases h' with
      | cons settled' rest' => exact .cons (fun known => settled' (settled known)) (ih rest')

/-- A value that is inferred may only be stored under a new name. -/
theorem store {l : Properties} (settled : l.find? name = none ∨ v.inferred = false) :
    Extends l (l.store name v) := by
  induction l with
  | nil => exact .nil _
  | cons entry rest ih =>
      rw [find?] at settled
      rw [Properties.store]
      split at settled
      next same =>
          rw [if_pos same]
          exact .cons (fun _ => settled.resolve_left nofun) (.refl rest)
      next other =>
          rw [if_neg other]
          exact .cons id (ih settled)

theorem names_prefix (h : Extends old new) : old.names <+: new.names := by
  induction h with
  | nil => exact List.nil_prefix
  | cons _ _ ih => exact List.cons_prefix_cons.2 ⟨rfl, ih⟩

/-- A name whose value is not inferred keeps such a value. -/
theorem find?_settled (h : Extends old new) (found : old.find? name = some v)
    (settled : v.inferred = false) : ∃ w, new.find? name = some w ∧ w.inferred = false := by
  induction h with
  | nil => cases found
  | cons known _ ih =>
      rw [find?] at found ⊢
      split at found
      next same =>
          cases found
          exact ⟨_, if_pos same, known settled⟩
      next other =>
          rw [if_neg other]
          exact ih found

end Extends

end Properties

/-- The kind and the names of a scope. -/
def Scope.outline (scope : Scope) : ScopeKind × List String :=
  (scope.kind, scope.names.names)

/-- Add a name to the nearest function. -/
def addToFunction (name : String) :
    List (ScopeKind × List String) → List (ScopeKind × List String)
  | [] => []
  | (.function, names) :: rest => (.function, addName name names) :: rest
  | (.block, names) :: rest => (.block, names) :: addToFunction name rest

/-- A variable is stored in the nearest function. -/
theorem storeIn_variable_outlines (name : String) (v : Value) (globals : Properties)
    (scopes : List Scope) :
    (storeIn Declaration.variable.goesTo name v globals scopes).2.map Scope.outline =
      addToFunction name (scopes.map Scope.outline) := by
  induction scopes with
  | nil => rfl
  | cons scope rest ih =>
      obtain ⟨kind, names⟩ := scope
      cases kind with
      | function =>
          refine congrArg (· :: rest.map Scope.outline) ?_
          exact congrArg (ScopeKind.function, ·) (names.names_store name v)
      | block => exact congrArg ((ScopeKind.block, names.names) :: ·) ih

/-- A value is replaced in the first scope that has the name, or else among the globals. -/
theorem replace?_cases {name : String} {f : Value → Value} {globals globals' : Properties}
    {scopes scopes' : List Scope} {old : Value}
    (found : replace? name f globals scopes = some (old, globals', scopes')) :
    (scopes' = scopes ∧ globals.find? name = some old ∧ globals' = globals.store name (f old)) ∨
      globals' = globals ∧ ∃ inner scope outer, scopes = inner ++ scope :: outer ∧
        scope.names.find? name = some old ∧
        scopes' = inner ++ { scope with names := scope.names.store name (f old) } :: outer := by
  induction scopes generalizing scopes' with
  | nil =>
      obtain ⟨_, here, same⟩ := Option.map_eq_some_iff.1 found
      cases same
      exact .inl ⟨rfl, here, rfl⟩
  | cons scope rest ih =>
      rw [replace?] at found
      split at found
      next here =>
          cases found
          exact .inr ⟨rfl, [], scope, rest, rfl, here, rfl⟩
      · obtain ⟨⟨_, _, rest'⟩, deeper, same⟩ := Option.map_eq_some_iff.1 found
        cases same
        rcases ih deeper with ⟨rfl, top⟩ | ⟨same, inner, owner, outer, rfl, here, rfl⟩
        · exact .inl ⟨rfl, top⟩
        · exact .inr ⟨same, scope :: inner, owner, outer, rfl, here, rfl⟩

/-- A name that no scope has is replaced among the globals, if it is there. -/
theorem replace?_of_undeclared {name : String} {scopes : List Scope} (f : Value → Value)
    (globals : Properties) (absent : ∀ scope ∈ scopes, scope.names.find? name = none) :
    replace? name f globals scopes =
      (globals.find? name).map fun old => (old, globals.store name (f old), scopes) := by
  induction scopes with
  | nil => rfl
  | cons scope rest ih =>
      rw [List.forall_mem_cons] at absent
      simp only [replace?, absent.1, ih absent.2]
      cases globals.find? name <;> rfl

/-- A name is replaced in the innermost scope that has it. -/
theorem replace?_of_declared {name : String} {inner outer : List Scope}
    {scope : Scope} {old : Value} (f : Value → Value) (globals : Properties)
    (absent : ∀ scope ∈ inner, scope.names.find? name = none)
    (here : scope.names.find? name = some old) :
    replace? name f globals (inner ++ scope :: outer) =
      some (old, globals,
        inner ++ { scope with names := scope.names.store name (f old) } :: outer) := by
  induction inner with
  | nil => simp only [List.nil_append, replace?, here]
  | cons first rest ih =>
      rw [List.forall_mem_cons] at absent
      simp only [List.cons_append, replace?, absent.1, ih absent.2, Option.map_some]

/-- Replacing the value of a name adds no name. -/
theorem replace?_outlines {name : String} {f : Value → Value} {globals globals' : Properties}
    {scopes scopes' : List Scope} {old : Value}
    (found : replace? name f globals scopes = some (old, globals', scopes')) :
    scopes'.map Scope.outline = scopes.map Scope.outline := by
  rcases replace?_cases found with ⟨rfl, -⟩ | ⟨-, inner, scope, outer, rfl, here, rfl⟩
  · rfl
  · rw [List.map_append, List.map_append, List.map_cons, List.map_cons]
    unfold Scope.outline
    rw [Properties.names_store_of_find? here]

/-- Replacing a value by one that is not inferred extends the global names. -/
theorem replace?_extends {name : String} {f : Value → Value} {globals globals' : Properties}
    {scopes scopes' : List Scope} {old : Value} (settled : ∀ v, (f v).inferred = false)
    (found : replace? name f globals scopes = some (old, globals', scopes')) :
    globals.Extends globals' := by
  rcases replace?_cases found with ⟨-, -, rfl⟩ | ⟨rfl, -⟩
  · exact .store (.inr (settled old))
  · exact .refl _

/-- Names are added only to the scopes up to the nearest function. The scopes around it keep
theirs. -/
inductive Confined : List Scope → List Scope → Prop where
  | nil : Confined [] []
  | function {scope scope' : Scope} {rest rest' : List Scope} (own : scope.kind = .function)
      (same : scope'.kind = scope.kind)
      (around : rest'.map Scope.outline = rest.map Scope.outline) :
      Confined (scope :: rest) (scope' :: rest')
  | block {scope scope' : Scope} {rest rest' : List Scope} (own : scope.kind = .block)
      (same : scope'.kind = scope.kind) (around : Confined rest rest') :
      Confined (scope :: rest) (scope' :: rest')

namespace Confined

variable {scopes scopes' scopes'' : List Scope}

/-- The innermost scope may change as it likes. -/
theorem innermost {scope scope' : Scope} {rest rest' : List Scope} (same : scope'.kind = scope.kind)
    (around : rest'.map Scope.outline = rest.map Scope.outline) (deeper : Confined rest rest') :
    Confined (scope :: rest) (scope' :: rest') := by
  cases own : scope.kind with
  | function => exact .function own same around
  | block => exact .block own same deeper

/-- Where no name is added, none is added outside. -/
theorem of_outlines (h : scopes'.map Scope.outline = scopes.map Scope.outline) :
    Confined scopes scopes' := by
  induction scopes generalizing scopes' with
  | nil =>
      obtain rfl := List.map_eq_nil_iff.1 h
      exact .nil
  | cons scope rest ih =>
      obtain ⟨scope', rest', rfl, same, around⟩ := List.map_eq_cons_iff.1 h
      exact .innermost (congrArg Prod.fst same) around (ih around)

theorem trans (h : Confined scopes scopes') (h' : Confined scopes' scopes'') :
    Confined scopes scopes'' := by
  induction h generalizing scopes'' with
  | nil => exact h'
  | function own same around =>
      cases h' with
      | function _ same' around' => exact .function own (same'.trans same) (around'.trans around)
      | block other => exact absurd (other.symm.trans (same.trans own)) nofun
  | block own same _ ih =>
      cases h' with
      | function other => exact absurd (other.symm.trans (same.trans own)) nofun
      | block _ same' around' => exact .block own (same'.trans same) (ih around')

/-- What is declared goes to the innermost scope or to the nearest function. -/
theorem storeIn (d : Declaration) (name : String) (v : Value) (globals : Properties)
    (scopes : List Scope) :
    Confined scopes (storeIn d.goesTo name v globals scopes).2 := by
  induction scopes with
  | nil => exact .nil
  | cons scope rest ih =>
      rw [Script.storeIn]
      split
      · exact .innermost rfl rfl (.of_outlines rfl)
      next other =>
          have block : scope.kind = .block := by
            cases d with
            | «variable» =>
                cases own : scope.kind with
                | function => exact absurd (decide_eq_true own) other
                | block => rfl
            | letting => exact absurd rfl other
            | constant => exact absurd rfl other
          exact .block block rfl ih

/-- What was entered is left with its scope. -/
theorem leave {kind : ScopeKind} (h : Confined ({ kind } :: scopes) scopes') :
    Confined scopes scopes'.tail := by
  cases h with
  | function _ _ around => exact .of_outlines around
  | block _ _ around => exact around

/-- Inside of the scope of a function, no name is added to the scopes around. -/
theorem around_function (h : Confined ({ kind := .function } :: scopes) scopes') :
    scopes'.tail.map Scope.outline = scopes.map Scope.outline := by
  cases h with
  | function _ _ around => exact around
  | block own => cases own

end Confined

/-- The global names are extended by what is declared. -/
theorem storeIn_extends {into : Scope → Bool} {name : String} {v : Value} (globals : Properties)
    (scopes : List Scope) (settled : v.inferred = false) :
    globals.Extends (storeIn into name v globals scopes).1 := by
  induction scopes with
  | nil => exact .store (.inr settled)
  | cons scope rest ih =>
      rw [storeIn]
      split
      · exact .refl globals
      · exact ih

/-- A name that is not found is no global one. -/
theorem find?_globals_of_absent {name : String} {globals : Properties} {scopes : List Scope}
    (absent : lookup? name globals scopes = none) : globals.find? name = none := by
  induction scopes with
  | nil => exact absent
  | cons scope rest ih =>
      rw [lookup?] at absent
      cases here : scope.names.find? name with
      | some w =>
          rw [here] at absent
          cases absent
      | none =>
          rw [here] at absent
          exact ih absent

end AddonAudit.Script
