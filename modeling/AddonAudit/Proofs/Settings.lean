import AddonAudit.CommandLine.Settings
import AddonAudit.Proofs.Relevance
import Mathlib.Data.List.Nodup
import Mathlib.Data.List.TakeWhile

/-!
# Windows of the command line

A configuration file names applications by identifiers, by short names in any case, or by several of
these at once, and only when the supported versions are asked for is it seen which names stand for
one application. What an application gets is made of the entries that name it, in the order of the
names. A window on the command line is put in the place of one name of the browser: other
applications are left alone, and so is what the file says under other names of the browser.
-/

namespace AddonAudit

namespace Dict

variable {α : Type} {d : Dict α} {key : String}

/-- Entries with other keys are not touched. -/
theorem filter_alter_of_not {p : String → Bool} (f : Option α → α) (out : p key = false) :
    (d.alter key f).filter (fun entry => p entry.1) = d.filter fun entry => p entry.1 := by
  induction d with
  | nil => simp [alter_nil, out]
  | cons entry rest ih =>
      rw [alter_cons]
      split
      next same => simp [same, out]
      · split
        · rw [List.filter_cons_of_neg (by simp [out])]
        · rw [List.filter_cons, List.filter_cons, ih]

theorem mem_insert_iff (sorted : Sorted d) {value v : α} {k : String} :
    (k, v) ∈ Dict.insert key value d ↔ k = key ∧ v = value ∨ k ≠ key ∧ (k, v) ∈ d := by
  rw [← find?_eq_some_iff (sorted.insert value), find?_insert, ← find?_eq_some_iff sorted]
  by_cases same : key = k
  · simp [same, eq_comm]
  · simp [same, Ne.symm same]

end Dict

namespace Application

variable {name guid : String}

/-- The identifier of the application that a name stands for. An unknown name stands for itself. -/
def resolve (name : String) : String :=
  (find? name).getD name

theorem mem_known_of_find? (found : find? name = some guid) : guid ∈ known := by
  unfold find? at found
  split at found
  case h_9 => exact List.mem_of_find?_eq_some found
  all_goals
    obtain rfl := Option.some.inj found
    decide

theorem find?_of_mem_known (mem : guid ∈ known) : find? guid = some guid := by
  have fixed : ∀ guid ∈ known, find? guid = some guid := by decide +kernel
  exact fixed guid mem

@[simp] theorem find?_resolve (name : String) : find? (resolve name) = find? name := by
  cases found : find? name with
  | none => simp [resolve, found]
  | some guid => simpa [resolve, found] using find?_of_mem_known (mem_known_of_find? found)

@[simp] theorem resolve_resolve (name : String) : resolve (resolve name) = resolve name := by
  cases found : find? name with
  | none => simp [resolve, found]
  | some guid => simp [resolve, found, find?_of_mem_known (mem_known_of_find? found)]

theorem find?_firefox : find? firefox = some firefox :=
  find?_of_mem_known (by decide)

theorem find?_shortName : find? "firefox" = some firefox := by decide +kernel

theorem resolve_eq_firefox_iff : resolve name = firefox ↔ find? name = some firefox := by
  constructor
  · intro same
    rw [← find?_resolve, same, find?_firefox]
  · intro found
    simp [resolve, found]

/-- The number in front of a version. -/
theorem takeWhile_isDigit_append (k : Nat) (rest : List Char) :
    ((toString k).toList ++ '.' :: rest).takeWhile Char.isDigit = Nat.toDigits 10 k := by
  have digits : ∀ c ∈ Nat.toDigits 10 k, c.isDigit := fun _ =>
    Nat.isDigit_of_mem_toDigits (by decide) (by decide)
  have text : (toString k).toList = Nat.toDigits 10 k := by simp
  rw [text, List.takeWhile_append_of_pos digits]
  simp

/-- No version is listed twice. -/
theorem versions_nodup : versions.Nodup := by
  refine List.nodup_flatMap.2 ⟨fun k _ => by simp, ?_⟩
  refine List.nodup_range.pairwise_of_forall_ne ?_
  intro j _ k _ ne v here there
  -- Versions with different numbers differ in the digits before the first dot.
  have front {n : Nat} {rest : List String} (dotted : ∀ s ∈ rest, s.toList.head? = some '.')
      (mem : v ∈ rest.map fun s => toString n ++ s) :
      v.toList.takeWhile Char.isDigit = Nat.toDigits 10 n := by
    obtain ⟨s, listed, rfl⟩ := List.mem_map.1 mem
    obtain ⟨cs, text⟩ := List.head?_eq_some_iff.1 (dotted s listed)
    rw [String.toList_append, text, takeWhile_isDigit_append]
  have dotted : ∀ s ∈ [".0a1", ".0a2", ".0", ".0.1"], s.toList.head? = some '.' := by decide
  have same : Nat.toDigits 10 (j + 3) = Nat.toDigits 10 (k + 3) :=
    (front dotted here).symm.trans (front dotted there)
  have value (n : Nat) : Nat.ofDigitChars 10 (Nat.toDigits 10 n) 0 = n :=
    Nat.ofDigitChars_toDigits (by decide) (by decide)
  have equal : j + 3 = k + 3 := by rw [← value (j + 3), same, value]
  omega

end Application

/-- The versions that a specification gives for an application that is known. -/
def VersionSpec.versions : VersionSpec → List String
  | .list versions => versions
  | .range first last => Application.versions.filter fun v =>
      Version.compare v first ≠ .lt && Version.compare v last = .lt

/-- The versions of an application after a specification for it. There are no windows of an
application that is not known. -/
def VersionSpec.addTo (app : String) (old : Option (List String)) :
    VersionSpec → Option (List String)
  | .list versions => some (old.getD [] ++ versions)
  | .range first last =>
    if (Application.find? app).isSome then
      some (AppVersions.appendNew (old.getD []) (range first last).versions)
    else old

namespace AppVersions

theorem mem_appendNew {old new : List String} {v : String} :
    v ∈ appendNew old new ↔ v ∈ old ∨ v ∈ new := by
  induction new generalizing old with
  | nil => simp [appendNew]
  | cons w new ih =>
      show v ∈ appendNew (if old.contains w then old else old ++ [w]) new ↔ _
      rw [ih, List.mem_cons]
      split
      next here =>
        have mem : w ∈ old := by simpa using here
        constructor
        · rintro (h | h)
          · exact .inl h
          · exact .inr (.inr h)
        · rintro (h | rfl | h)
          · exact .inl h
          · exact .inl mem
          · exact .inr h
      · rw [List.mem_append, List.mem_singleton, or_assoc]

/-- New versions without repeats are all appended. -/
theorem appendNew_of_disjoint {old new : List String} (nodup : new.Nodup)
    (fresh : ∀ v ∈ new, v ∉ old) : appendNew old new = old ++ new := by
  induction new generalizing old with
  | nil => simp [appendNew]
  | cons v new ih =>
      obtain ⟨first, nodup⟩ := List.nodup_cons.1 nodup
      show appendNew (if old.contains v then old else old ++ [v]) new = _
      rw [if_neg (by simpa using fresh v (by simp)), ih nodup, List.append_assoc]
      · rfl
      · intro w mem
        have other : w ≠ v := fun same => first (same ▸ mem)
        simpa [other] using fresh w (List.mem_cons_of_mem v mem)

end AppVersions

namespace Config

open Application (resolve)

variable {s : AppVersions} {app name : String}

theorem addSpec_list (versions : List String) :
    addSpec s name (.list versions) =
      s.alter (resolve name) fun old => old.getD [] ++ versions := by
  show s.alter (resolve (resolve name)) _ = _
  rw [Application.resolve_resolve]

theorem addSpec_range (first last : String) :
    addSpec s name (.range first last) =
      if (Application.find? name).isSome then
        s.alter (resolve name) fun old =>
          AppVersions.appendNew (old.getD []) (VersionSpec.range first last).versions
      else s := by
  show s.extend (AppVersions.range (resolve name) first last) = _
  rw [AppVersions.range, Application.find?_resolve]
  cases found : Application.find? name with
  | none => rfl
  | some guid => simp [resolve, found, AppVersions.extend, VersionSpec.versions]

theorem sorted_addSpec (sorted : Dict.Sorted s) (name : String) (spec : VersionSpec) :
    Dict.Sorted (addSpec s name spec) := by
  cases spec with
  | list versions =>
      rw [addSpec_list]
      exact sorted.alter
  | range first last =>
      rw [addSpec_range]
      split
      · exact sorted.alter
      · exact sorted

/-- An entry adds to the application that its name stands for, and to no other one. -/
theorem find?_addSpec (sorted : Dict.Sorted s) (name app : String) (spec : VersionSpec) :
    (addSpec s name spec).find? app =
      if resolve name = app then spec.addTo app (s.find? app) else s.find? app := by
  cases spec with
  | list versions =>
      rw [addSpec_list]
      split
      next here => rw [← here, Dict.find?_alter_self sorted, VersionSpec.addTo]
      next other => exact Dict.find?_alter_of_ne other
  | range first last =>
      rw [addSpec_range]
      by_cases here : resolve name = app
      · rw [if_pos here, ← here, VersionSpec.addTo, Application.find?_resolve]
        split
        · exact Dict.find?_alter_self sorted
        · rfl
      · rw [if_neg here]
        split
        · exact Dict.find?_alter_of_ne here
        · rfl

/-- The entries of a configuration that name an application. -/
def naming (app : String) (entries : Dict VersionSpec) : Dict VersionSpec :=
  entries.filter fun entry => resolve entry.1 = app

theorem find?_addSpecs (sorted : Dict.Sorted s) (entries : Dict VersionSpec) (app : String) :
    (entries.foldl (fun s (name, spec) => addSpec s name spec) s).find? app =
      (naming app entries).foldl (fun old entry => entry.2.addTo app old) (s.find? app) := by
  induction entries generalizing s with
  | nil => rfl
  | cons entry rest ih =>
      rw [List.foldl_cons, ih (sorted_addSpec sorted ..), find?_addSpec sorted, naming, naming,
        List.filter_cons]
      by_cases here : resolve entry.1 = app <;> simp [here]

/-- The versions of an application that a configuration asks for. -/
def versionsFor (c : Config) (app : String) : Option (List String) :=
  (c.supported.getD []).find? app

/-- The versions of an application are made of the entries that name it, one after the other. -/
theorem versionsFor_eq (c : Config) (app : String) :
    c.versionsFor app =
      (naming app c.forVersions).foldl (fun old entry => entry.2.addTo app old) none := by
  have whole :
      c.supported.getD [] = c.forVersions.foldl (fun s (name, spec) => addSpec s name spec) [] := by
    unfold supported
    split
    next empty => rw [List.isEmpty_iff.1 empty]; rfl
    · rfl
  rw [versionsFor, whole, find?_addSpecs Dict.sorted_nil]
  rfl

theorem mem_addTo (known : (Application.find? app).isSome) (old : Option (List String))
    (spec : VersionSpec) (v : String) :
    v ∈ (spec.addTo app old).getD [] ↔ v ∈ old.getD [] ∨ v ∈ spec.versions := by
  cases spec with
  | list versions => simp [VersionSpec.addTo, VersionSpec.versions]
  | range first last => simp [VersionSpec.addTo, known, AppVersions.mem_appendNew]

theorem isSome_addTo (known : (Application.find? app).isSome) (old : Option (List String))
    (spec : VersionSpec) : (spec.addTo app old).isSome := by
  cases spec with
  | list versions => rfl
  | range first last => simp [VersionSpec.addTo, known]

/-- What entries give for an application that is known. -/
theorem mem_foldl_addTo (known : (Application.find? app).isSome) (entries : Dict VersionSpec)
    (old : Option (List String)) (v : String) :
    v ∈ (entries.foldl (fun old entry => entry.2.addTo app old) old).getD [] ↔
      v ∈ old.getD [] ∨ ∃ entry ∈ entries, v ∈ entry.2.versions := by
  induction entries generalizing old with
  | nil => simp
  | cons entry rest ih =>
      rw [List.foldl_cons, ih, mem_addTo known, or_assoc]
      simp

theorem exists_of_bind_eq_ok {ε α β : Type} {x : Except ε α} {f : α → Except ε β} {b : β}
    (ran : x >>= f = .ok b) : ∃ a, x = .ok a ∧ f a = .ok b := by
  cases x with
  | error e => cases ran
  | ok a => exact ⟨a, rfl, ran⟩

/-- An application that is known and named gets versions. -/
theorem isSome_foldl_addTo (known : (Application.find? app).isSome) (entries : Dict VersionSpec)
    (old : Option (List String)) (named : old.isSome ∨ entries ≠ []) :
    (entries.foldl (fun old entry => entry.2.addTo app old) old).isSome := by
  induction entries generalizing old with
  | nil => simpa using named
  | cons entry rest ih =>
      exact ih _ (.inl (isSome_addTo known old entry.2))

/-- A map that was read has its keys in order. -/
theorem sorted_of_dictOf {α : Type} {read : String → Yaml.Mark → Decoder α} {path : String}
    {n : Yaml.Node} {d : Dict α} (ran : dictOf read path n = .ok d) : Dict.Sorted d := by
  obtain ⟨entries, -, ran⟩ := exists_of_bind_eq_ok ran
  generalize start : ([] : Dict α) = before at ran
  have sorted : Dict.Sorted before := start ▸ Dict.sorted_nil
  clear start
  induction entries generalizing before with
  | nil =>
      obtain rfl := Except.ok.inj ran
      exact sorted
  | cons entry rest ih =>
      rw [List.foldlM_cons] at ran
      obtain ⟨next, step, ran⟩ := exists_of_bind_eq_ok ran
      obtain ⟨key, -, step⟩ := exists_of_bind_eq_ok step
      obtain ⟨value, -, step⟩ := exists_of_bind_eq_ok step
      obtain rfl := Except.ok.inj step
      exact ih _ ran (sorted.insert value)

theorem sorted_of_setting {α : Type} {read : Decoder (Dict α)} {path name : String}
    {entries : List (Yaml.Node × Yaml.Node)} {d : Dict α}
    (ordered : ∀ {path n d}, read path n = .ok d → Dict.Sorted d)
    (ran : setting read [] path name entries = .ok d) : Dict.Sorted d := by
  unfold setting at ran
  simp only at ran
  split at ran
  · exact ordered ran
  · obtain rfl := Except.ok.inj ran
    exact Dict.sorted_nil

theorem sorted_of_ofNode {n : Yaml.Node} {c : Config} (ran : ofNode n = .ok c) :
    Dict.Sorted c.forVersions := by
  obtain ⟨entries, -, ran⟩ := exists_of_bind_eq_ok ran
  obtain ⟨versions, made, ran⟩ := exists_of_bind_eq_ok ran
  obtain ⟨overrides, -, ran⟩ := exists_of_bind_eq_ok ran
  obtain ⟨timeout, -, ran⟩ := exists_of_bind_eq_ok ran
  obtain ⟨determined, -, ran⟩ := exists_of_bind_eq_ok ran
  obtain ⟨strict, -, ran⟩ := exists_of_bind_eq_ok ran
  obtain ⟨expected, -, ran⟩ := exists_of_bind_eq_ok ran
  obtain ⟨excluded, -, ran⟩ := exists_of_bind_eq_ok ran
  obtain rfl := Except.ok.inj ran
  exact sorted_of_setting sorted_of_dictOf made

/-- The applications of a configuration file are in the order of their names. -/
theorem sorted_of_ofYaml {source : List Char} {c : Config} (ran : ofYaml source = .ok c) :
    Dict.Sorted c.forVersions := by
  unfold ofYaml at ran
  split at ran
  · cases ran
  · obtain rfl := Except.ok.inj ran
    exact Dict.sorted_nil
  · exact sorted_of_ofNode ran

end Config

namespace CommandLine.Settings

open Application (firefox)

variable {host : Host} {a : Arguments} {c : Config}

theorem sorted_of_read {path : String} (file : read host path = .ok c) :
    Dict.Sorted c.forVersions := by
  unfold read at file
  split at file
  · cases file
  · split at file
    · cases file
    next source _ =>
      cases ran : Config.ofYaml source with
      | error e =>
        rw [ran] at file
        cases file
      | ok c =>
        rw [ran] at file
        obtain rfl := Except.ok.inj file
        exact Config.sorted_of_ofYaml ran

theorem sorted_of_base (file : base host a = .ok c) : Dict.Sorted c.forVersions := by
  unfold base at file
  split at file
  · exact sorted_of_read file
  · split at file
    · exact sorted_of_read file
    · obtain rfl := Except.ok.inj file
      exact Dict.sorted_nil

theorem window_eq (first last : String) (plain : ':' ∉ first.toList) :
    window (first ++ ":" ++ last) = .ok (.range first last) := by
  have text : (first ++ ":" ++ last).toList = first.toList ++ ':' :: last.toList := by simp
  have before : (first.toList ++ ':' :: last.toList).takeWhile (· ≠ ':') = first.toList := by
    rw [List.takeWhile_append_of_pos]
    · simp
    · intro c mem
      simpa using fun (same : c = ':') => plain (same ▸ mem)
  simp only [window, text, before, List.drop_left, String.ofList_toList]

/-- With a window, the configuration is that of the file with one more entry. -/
theorem load_of_window {first last : String} (file : base host a = .ok c)
    (given : a.forFirefox = some (first ++ ":" ++ last)) (plain : ':' ∉ first.toList) :
    ∃ c', load host a = .ok c' ∧
      c'.forVersions = Dict.insert "firefox" (.range first last) c.forVersions := by
  refine ⟨Settings.refine a
    { c with forVersions := Dict.insert "firefox" (.range first last) c.forVersions }, ?_, rfl⟩
  rw [load, file, given]
  simp only [addWindow, window_eq first last plain]
  rfl

section Window

variable {first last : String} {c' : Config}

/-- The entries that name the browser: the window, and those of the file with other names. -/
theorem mem_naming_firefox (sorted : Dict.Sorted c.forVersions)
    (made : c'.forVersions = Dict.insert "firefox" (.range first last) c.forVersions)
    {name : String} {spec : VersionSpec} :
    (name, spec) ∈ Config.naming firefox c'.forVersions ↔
      name = "firefox" ∧ spec = .range first last ∨
        (name, spec) ∈ c.forVersions ∧ name ≠ "firefox" ∧ Application.find? name =
          some firefox := by
  rw [Config.naming, List.mem_filter, made, Dict.mem_insert_iff sorted, decide_eq_true_iff,
    Application.resolve_eq_firefox_iff]
  constructor
  · rintro ⟨here | ⟨other, mem⟩, names⟩
    · exact .inl here
    · exact .inr ⟨mem, other, names⟩
  · rintro (⟨rfl, rfl⟩ | ⟨mem, other, names⟩)
    · exact ⟨.inl ⟨rfl, rfl⟩, Application.find?_shortName⟩
    · exact ⟨.inr ⟨other, mem⟩, names⟩

theorem mem_versionsFor_firefox (sorted : Dict.Sorted c.forVersions)
    (made : c'.forVersions = Dict.insert "firefox" (.range first last) c.forVersions) (v : String) :
    v ∈ (c'.versionsFor firefox).getD [] ↔
      v ∈ (VersionSpec.range first last).versions ∨
        ∃ name spec, (name, spec) ∈ c.forVersions ∧ name ≠ "firefox" ∧
          Application.find? name = some firefox ∧ v ∈ spec.versions := by
  have known : (Application.find? firefox).isSome := by rw [Application.find?_firefox]; rfl
  rw [Config.versionsFor_eq, Config.mem_foldl_addTo known]
  constructor
  · rintro (mem | ⟨⟨name, spec⟩, mem, has⟩)
    · exact absurd mem List.not_mem_nil
    · rcases (mem_naming_firefox sorted made).1 mem with ⟨-, rfl⟩ | ⟨mem, other, names⟩
      · exact .inl has
      · exact .inr ⟨name, spec, mem, other, names, has⟩
  · rintro (has | ⟨name, spec, mem, other, names, has⟩)
    · exact .inr ⟨_, (mem_naming_firefox sorted made).2 (.inl ⟨rfl, rfl⟩), has⟩
    · exact .inr ⟨_, (mem_naming_firefox sorted made).2 (.inr ⟨mem, other, names⟩), has⟩

/-- The browser has versions whatever the file says. -/
theorem isSome_versionsFor_firefox (sorted : Dict.Sorted c.forVersions)
    (made : c'.forVersions = Dict.insert "firefox" (.range first last) c.forVersions) :
    (c'.versionsFor firefox).isSome := by
  have known : (Application.find? firefox).isSome := by rw [Application.find?_firefox]; rfl
  have named := (mem_naming_firefox sorted made).2 (.inl ⟨rfl, rfl⟩)
  rw [Config.versionsFor_eq]
  exact Config.isSome_foldl_addTo known _ _ (.inr (List.ne_nil_of_mem named))

/-- Where the file has no other name for the browser, the window is all there is. -/
theorem versionsFor_firefox_of_only (sorted : Dict.Sorted c.forVersions)
    (made : c'.forVersions = Dict.insert "firefox" (.range first last) c.forVersions)
    (only : ∀ entry ∈ c.forVersions, Application.find? entry.1 = some firefox →
      entry.1 = "firefox") :
    c'.versionsFor firefox = some (VersionSpec.range first last).versions := by
  have single : Config.naming firefox c'.forVersions = [("firefox", .range first last)] := by
    have ordered : Dict.Sorted (Config.naming firefox c'.forVersions) := by
      rw [made]
      exact (sorted.insert _).filter _
    refine ordered.ext (List.pairwise_singleton ..) fun name => Option.ext fun spec => ?_
    rw [Dict.find?_eq_some_iff ordered, Dict.find?_eq_some_iff (List.pairwise_singleton ..),
      mem_naming_firefox sorted made, List.mem_singleton, Prod.mk.injEq, or_iff_left_iff_imp]
    rintro ⟨mem, other, names⟩
    exact absurd (only _ mem names) other
  have nodup : (VersionSpec.range first last).versions.Nodup := by
    rw [VersionSpec.versions]
    exact Application.versions_nodup.filter _
  have fresh : AppVersions.appendNew [] (VersionSpec.range first last).versions = _ :=
    AppVersions.appendNew_of_disjoint nodup (by simp)
  rw [Config.versionsFor_eq, single]
  simpa [VersionSpec.addTo, Application.find?_firefox] using fresh

/-- Other applications keep what the file gives them. -/
theorem versionsFor_of_ne {app : String}
    (made : c'.forVersions = Dict.insert "firefox" (.range first last) c.forVersions)
    (other : app ≠ firefox) : c'.versionsFor app = c.versionsFor app := by
  have out : decide (Application.resolve "firefox" = app) = false := by
    simpa [Application.resolve, Application.find?_shortName] using Ne.symm other
  have same : Config.naming app c'.forVersions = Config.naming app c.forVersions := by
    rw [made]
    exact Dict.filter_alter_of_not (p := fun name => decide (Application.resolve name = app)) _ out
  rw [Config.versionsFor_eq, Config.versionsFor_eq, same]

end Window

/-- A window on the command line. Whatever the file says, the configuration is there, and every
application but the browser has the versions that the file gives it. The browser has the versions of
the window, and besides those that the file gives it under other names than the one that the window
replaces. So it has exactly those of the window if the file uses no such name. -/
theorem window_replaces_one_name (host : Host) (a : Arguments) (c : Config) (first last : String)
    (file : base host a = .ok c) (given : a.forFirefox = some (first ++ ":" ++ last))
    (plain : ':' ∉ first.toList) :
    ∃ c' versions window,
      load host a = .ok c' ∧ c'.versionsFor firefox = some versions ∧
      (AppVersions.range "firefox" first last).find? firefox = some window ∧
      (∀ app, app ≠ firefox → c'.versionsFor app = c.versionsFor app) ∧
      (∀ v, v ∈ versions ↔ v ∈ window ∨
        ∃ name spec, (name, spec) ∈ c.forVersions ∧ name ≠ "firefox" ∧
          Application.find? name = some firefox ∧ v ∈ spec.versions) ∧
      ((∀ entry ∈ c.forVersions, Application.find? entry.1 = some firefox → entry.1 = "firefox") →
        versions = window) := by
  have sorted := sorted_of_base file
  obtain ⟨c', loaded, made⟩ := load_of_window file given plain
  obtain ⟨versions, has⟩ := Option.isSome_iff_exists.1 (isSome_versionsFor_firefox sorted made)
  refine ⟨c', versions, (VersionSpec.range first last).versions, loaded, has, ?_, ?_, ?_, ?_⟩
  · rw [AppVersions.range, Application.find?_shortName]
    simp [VersionSpec.versions]
  · intro app other
    exact versionsFor_of_ne made other
  · intro v
    rw [← mem_versionsFor_firefox sorted made, has]
    rfl
  · intro only
    rw [versionsFor_firefox_of_only sorted made only] at has
    exact (Option.some.inj has).symm

/-- A file that supports `44.0` of the browser under its second short name, and a window for
`38`. -/
theorem window_replaces_one_name_second :
    let host : Host := { look := (FileTree.ofFiles
      [("c.yaml", "for_appversions:\n  fx: [\"44.0\"]\n".toUTF8.toList)]).look }
    let a : Arguments :=
      { path := "a", config := some "c.yaml", forFirefox := some "38.0a1:39.0a1" }
    ∃ c versions, load host a = .ok c ∧ c.versionsFor firefox = some versions ∧
      "44.0" ∈ versions ∧ "38.0" ∈ versions := by
  intro host a
  have read : (base host a).toOption.map (·.forVersions) = some [("fx", .list ["44.0"])] := by
    decide +kernel
  obtain ⟨c, file, entries⟩ : ∃ c, base host a = .ok c ∧
      c.forVersions = [("fx", .list ["44.0"])] := by
    cases result : base host a with
    | error e => simp [result, Except.toOption] at read
    | ok c => exact ⟨c, rfl, by simpa [result, Except.toOption] using read⟩
  obtain ⟨c', versions, window, loaded, has, ranged, -, mem, -⟩ :=
    window_replaces_one_name host a c "38.0a1" "39.0a1" file rfl (by decide)
  refine ⟨c', versions, loaded, has, (mem "44.0").2 (.inr ?_), (mem "38.0").2 (.inl ?_)⟩
  · exact ⟨"fx", .list ["44.0"], by simp [entries], by decide, by decide +kernel, by decide⟩
  · have inside :
        "38.0" ∈ ((AppVersions.range "firefox" "38.0a1" "39.0a1").find? firefox).getD [] := by
      decide +kernel
    rwa [ranged] at inside

end CommandLine.Settings

end AddonAudit
