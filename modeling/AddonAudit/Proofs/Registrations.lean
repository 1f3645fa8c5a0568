import AddonAudit.Proofs.Reports
import Mathlib.Data.List.Destutter
import Mathlib.Logic.Relation

/-!
# Registrations that are read more than once

Manifests include each other without any restriction, and nothing remembers which ones were read:
only the number of inclusions is bounded. So the check always ends, but a manifest is read as often
as an inclusion of it is followed, and each time everything in it counts again. An offending
registration is reported once for every reading of its manifest. The names of the packages are
written down without those that follow themselves, hence a name comes up again after another one.
-/

namespace AddonAudit

namespace Chrome

/-- A text can be split at a separator if it is inside. -/
theorem isSome_splitAt?_iff (sep cs : List Char) :
    (splitAt? sep cs).isSome = true ↔ sep <:+: cs := by
  induction cs with
  | nil =>
      rw [splitAt?, List.infix_nil]
      cases sep <;> simp
  | cons c rest ih =>
      rw [splitAt?, List.infix_cons_iff, ← ih]
      by_cases here : sep <+: c :: rest <;> simp [here]

theorem place_of_entryOf? {file : String} {number : Nat} {line : List Char} {e : Entry}
    (found : entryOf? file number line = some e) : e.file = file ∧ e.line = number := by
  unfold entryOf? at found
  split at found
  · cases found
  · obtain rfl := Option.some.inj found
    exact ⟨rfl, rfl⟩

theorem place_of_mem_entriesFrom {file : String} {number : Nat}
    {lines : List (List Char)} {e : Entry} (mem : e ∈ entriesFrom file number lines) :
    e.file = file ∧ number ≤ e.line := by
  induction lines generalizing number with
  | nil => simp [entriesFrom] at mem
  | cons line rest ih =>
      rw [entriesFrom, List.mem_append, Option.mem_toList] at mem
      rcases mem with here | later
      · obtain ⟨same, first⟩ := place_of_entryOf? here
        exact ⟨same, first.ge⟩
      · obtain ⟨same, above⟩ := ih later
        exact ⟨same, by omega⟩

/-- The instructions of a manifest stand in different lines. -/
theorem nodup_lines (file : String) (number : Nat) (lines : List (List Char)) :
    ((entriesFrom file number lines).map (·.line)).Nodup := by
  induction lines generalizing number with
  | nil => exact .nil
  | cons line rest ih =>
      rw [entriesFrom]
      cases found : entryOf? file number line with
      | none => exact ih (number + 1)
      | some e =>
          refine List.nodup_cons.2 ⟨fun again => ?_, ih (number + 1)⟩
          obtain ⟨other, mem, same⟩ := List.mem_map.1 again
          have here : e.line = number := (place_of_entryOf? found).2
          have above : number + 1 ≤ other.line := (place_of_mem_entriesFrom mem).2
          have same : other.line = e.line := same
          omega

namespace Manifest

/-- Between two occurrences of a name there is no other name. -/
def Together (names : List String) : Prop :=
  ∀ name other, [name, other, name].Sublist names → other = name

theorem withoutRepeats_eq_destutter (names : List String) :
    withoutRepeats names = names.destutter (· ≠ ·) := by
  fun_induction withoutRepeats names with
  | case1 a rest ih => rw [ih, List.destutter_cons_cons, if_neg (by simp), List.destutter_cons']
  | case2 a b rest ne ih => rw [ih, List.destutter_cons_cons, if_pos ne, List.destutter_cons']
  | case3 short many =>
      rcases short with - | ⟨a, - | ⟨b, rest⟩⟩
      · rfl
      · rfl
      · exact absurd rfl (many a b rest)

theorem mem_withoutRepeats {names : List String} {name : String} :
    name ∈ withoutRepeats names ↔ name ∈ names := by
  fun_induction withoutRepeats names with
  | case1 a rest ih => rw [ih]; simp
  | case2 a b rest ne ih => simp only [List.mem_cons, ih]
  | case3 short many => rfl

theorem Together.tail {a : String} {rest : List String} (h : Together (a :: rest)) :
    Together rest :=
  fun name other sub => h name other (sub.cons a)

theorem together_cons_self {a : String} {rest : List String} :
    Together (a :: a :: rest) ↔ Together (a :: rest) := by
  refine ⟨Together.tail, fun h name other sub => ?_⟩
  rcases List.sublist_cons_iff.1 sub with later | ⟨_, cut, later⟩
  · exact h name other later
  · obtain ⟨rfl, rfl⟩ := List.cons.inj cut
    rcases List.sublist_cons_iff.1 later with later | ⟨_, cut, -⟩
    · exact h name other (later.cons_cons name)
    · exact (List.cons.inj cut).1

theorem together_cons_of_ne {a b : String} {rest : List String} (ne : a ≠ b) :
    Together (a :: b :: rest) ↔ a ∉ b :: rest ∧ Together (b :: rest) := by
  constructor
  · refine fun h => ⟨fun mem => ?_, h.tail⟩
    have later : a ∈ rest := (List.mem_cons.1 mem).resolve_left ne
    exact ne.symm (h a b (((List.singleton_sublist.2 later).cons_cons b).cons_cons a))
  · rintro ⟨fresh, h⟩ name other sub
    rcases List.sublist_cons_iff.1 sub with later | ⟨_, cut, later⟩
    · exact h name other later
    · obtain ⟨rfl, rfl⟩ := List.cons.inj cut
      exact absurd (later.subset (by simp)) fresh

/-- Each name comes up once if and only if there was no other name between its occurrences. -/
theorem nodup_withoutRepeats_iff (names : List String) :
    (withoutRepeats names).Nodup ↔ Together names := by
  fun_induction withoutRepeats names with
  | case1 a rest ih => rw [ih, together_cons_self]
  | case2 a b rest ne ih => rw [List.nodup_cons, ih, together_cons_of_ne ne, mem_withoutRepeats]
  | case3 short many =>
      rcases short with - | ⟨a, - | ⟨b, rest⟩⟩
      · exact iff_of_true .nil fun _ _ sub => by simpa using sub.length_le
      · exact iff_of_true (List.nodup_singleton a) fun _ _ sub => by simpa using sub.length_le
      · exact absurd rfl (many a b rest)

end Manifest

end Chrome

namespace Registration

open Bundle
open Chrome (Entry)

variable (p : Package)

/-! ## Readings -/

/-- The instructions of a manifest of a package; none if it is not there. -/
def registrations (file : String) : List Entry :=
  match p.readText file with
  | .error _ => []
  | .ok text => Chrome.Manifest.parse text file

/-- The paths of the manifests that a manifest includes. -/
def included (file : String) : List String :=
  includes (registrations p file)

/-- The inclusions that are followed, one after the other, as many as may still be. -/
def followedFrom : Nat → List String → List String
  | 0, _ => []
  | _, [] => []
  | n + 1, path :: pending => path :: followedFrom n ((included p path).reverse ++ pending)

/-- The inclusions that are followed for a package. -/
def followed : List String :=
  followedFrom p maxIncludes (included p manifestPath).reverse

/-- The paths of all manifests that are read for a package, each as often as it is read. -/
def readings : List String :=
  manifestPath :: followed p

/-- All that is read for a package, as one manifest. -/
def manifest : Chrome.Manifest :=
  (readings p).flatMap (registrations p)

/-- One manifest includes another. -/
def Includes (file path : String) : Prop :=
  path ∈ included p file

theorem length_followedFrom_le (n : Nat) (pending : List String) :
    (followedFrom p n pending).length ≤ n := by
  fun_induction followedFrom p n pending with
  | case1 => exact Nat.le_refl 0
  | case2 => exact Nat.zero_le _
  | case3 n path pending ih => exact Nat.succ_le_succ ih

/-- Only what is reached by inclusions is followed. -/
theorem reached_of_mem_followedFrom {n : Nat} {pending : List String} {start : String}
    (reached : ∀ path ∈ pending, Relation.TransGen (Includes p) start path) :
    ∀ path ∈ followedFrom p n pending, Relation.TransGen (Includes p) start path := by
  fun_induction followedFrom p n pending with
  | case1 => simp
  | case2 => simp
  | case3 n path pending ih =>
      obtain ⟨first, others⟩ := List.forall_mem_cons.1 reached
      refine List.forall_mem_cons.2 ⟨first, ih fun next mem => ?_⟩
      rcases List.mem_append.1 mem with inside | waiting
      · exact first.tail (List.mem_reverse.1 inside)
      · exact others next waiting

/-- If the bound is not met, nothing that is included is left out. -/
theorem mem_followedFrom_of_lt {n : Nat} {pending : List String}
    (short : (followedFrom p n pending).length < n) :
    (∀ path ∈ pending, path ∈ followedFrom p n pending) ∧
      ∀ file ∈ followedFrom p n pending, ∀ path ∈ included p file,
        path ∈ followedFrom p n pending := by
  fun_induction followedFrom p n pending with
  | case1 => simp at short
  | case2 => simp
  | case3 n path pending ih =>
      obtain ⟨waiting, inside⟩ := ih (Nat.lt_of_succ_lt_succ short)
      simp only [List.mem_append, List.mem_reverse] at waiting
      constructor
      · intro next mem
        rcases List.mem_cons.1 mem with rfl | mem
        · exact List.mem_cons_self
        · exact List.mem_cons_of_mem _ (waiting next (.inr mem))
      · intro file mem next named
        rcases List.mem_cons.1 mem with rfl | mem
        · exact List.mem_cons_of_mem _ (waiting next (.inl named))
        · exact List.mem_cons_of_mem _ (inside file mem next named)

/-! ## The manifest and the notices -/

/-- The notice for an included manifest that is not there. -/
def notFound (path : String) : Finding where
  id := ["testcases_chromemanifest", "manifest", "missing_include"]
  message := "Included manifest not found"
  description := ["\x60" ++ path ++ "\x60 is referenced but not in the package."]
  file := some manifestPath

/-- The finding about a followed inclusion. -/
def aboutInclusion (path : String) : List (Severity × Finding) :=
  match p.readText path with
  | .error _ => [(.notice, notFound path)]
  | .ok _ => []

theorem follow_eq_flatMap (n : Nat) (pending : List String) (m : Chrome.Manifest) (b : Bundle) :
    (follow p n pending m b).1 = m ++ (followedFrom p n pending).flatMap (registrations p) := by
  induction n generalizing pending m b with
  | zero => simp [follow, followedFrom]
  | succ n ih =>
      cases pending with
      | nil => simp [follow, followedFrom]
      | cons path pending =>
          rw [follow, followedFrom, List.flatMap_cons, included, registrations]
          cases p.readText path with
          | error e => simpa [includes, Chrome.Manifest.entries] using ih pending m _
          | ok text => simp [ih]

theorem recorded_follow (n : Nat) (pending : List String) (m : Chrome.Manifest) (b : Bundle) :
    Recorded ((followedFrom p n pending).flatMap (aboutInclusion p)) b
      (follow p n pending m b).2 := by
  induction n generalizing pending m b with
  | zero => exact .refl b
  | succ n ih =>
      cases pending with
      | nil => exact .refl b
      | cons path pending =>
          rw [follow, followedFrom, List.flatMap_cons, included, registrations, aboutInclusion]
          cases p.readText path with
          | error e => exact (Recorded.add rfl ..).trans (ih pending m _)
          | ok text => exact ih _ _ b

/-! ## Offending registrations -/

/-- What the files at a base have before their names. -/
def below (base : String) : List Char :=
  (Text.dropTexts ['.', '/'] base.toList).dropWhile (· = '/')

/-- Content is registered inside of the package where no files are. -/
def LeadsNowhere (e : Entry) : Prop :=
  e.kind = "content" ∧ ∃ base ∈ e.args[1]?, ¬"jar:".toList <+: base.toList ∧
    ¬"://".toList <:+: base.toList ∧
    ∀ path ∈ p.paths, ¬below base <+: path.toList

/-- A resource has a name that belongs to the application. -/
def IsReserved (e : Entry) : Prop :=
  e.kind = "resource" ∧ ∃ name ∈ e.args.head?, name ∈ reservedNames

instance : DecidablePred (LeadsNowhere p) :=
  fun e => inferInstanceAs (Decidable (e.kind = "content" ∧ _))

instance : DecidablePred IsReserved :=
  fun e => inferInstanceAs (Decidable (e.kind = "resource" ∧ _))

/-- The warning for content without files. -/
def emptyTarget (e : Entry) : Finding where
  id := ["testcases_chromemanifest", "content", "missing_target"]
  message := "Registered content path is empty"
  description := ["Nothing in the package lives under \x60" ++
    String.ofList (below (e.args[1]?.getD "")) ++ "\x60."]
  file := some e.file
  line := some e.line

/-- The error for a resource with a name of the application. -/
def reservedName (e : Entry) : Finding where
  id := ["testcases_chromemanifest", "resource", "reserved_name"]
  message := "Reserved resource name"
  description := ["\x60resource://" ++ e.args.head?.getD "" ++ "/\x60 belongs to the application."]
  file := some e.file
  line := some e.line
  signing := some .high

theorem leadsNowhere_iff {e : Entry} (content : e.kind = "content") {base : String}
    (found : e.args[1]? = some base) :
    LeadsNowhere p e ↔ ("jar:".toList.isPrefixOf base.toList ||
        (Chrome.splitAt? "://".toList base.toList).isSome) = false ∧
      (p.paths.any fun path => (below base).isPrefixOf path.toList) = false := by
  have outside : ("jar:".toList.isPrefixOf base.toList = false) ↔
      ¬"jar:".toList <+: base.toList := by
    rw [← List.isPrefixOf_iff_prefix, Bool.not_eq_true]
  have elsewhere : (Chrome.splitAt? "://".toList base.toList).isSome = false ↔
      ¬"://".toList <:+: base.toList := by
    rw [← Chrome.isSome_splitAt?_iff, Bool.not_eq_true]
  simp only [LeadsNowhere, content, found, Option.mem_some_iff, exists_eq_left', true_and,
    Bool.or_eq_false_iff, outside, elsewhere, and_assoc]
  simp

theorem checkContent_eq {e : Entry} (content : e.kind = "content") (b : Bundle) :
    checkContent p.paths e b = if LeadsNowhere p e then b.add .warning (emptyTarget e) else b := by
  unfold checkContent
  cases found : e.args[1]? with
  | none =>
      have unsaid : ¬LeadsNowhere p e := by simp [LeadsNowhere, found]
      rw [if_neg unsaid]
  | some base =>
      rw [if_congr (leadsNowhere_iff p content found) rfl rfl, emptyTarget, found,
        Option.getD_some, below]
      dsimp only
      cases "jar:".toList.isPrefixOf base.toList ||
        (Chrome.splitAt? "://".toList base.toList).isSome with
      | true => simp
      | false => cases p.paths.any fun path => _ <;> simp

theorem checkResource_eq {e : Entry} (resource : e.kind = "resource") (b : Bundle) :
    checkResource e b = if IsReserved e then b.add .error (reservedName e) else b := by
  unfold checkResource
  cases found : e.args.head? with
  | none => simp [IsReserved, found]
  | some name => simp [IsReserved, reservedName, found, resource]

/-- A check of the instructions of a kind records a finding for each one that offends. -/
theorem recorded_offences {kind : String} {step : Entry → Bundle → Bundle} {offends : Entry → Prop}
    [DecidablePred offends] {s : Severity} {complaint : Entry → Finding}
    (always : ∀ e, (complaint e).forVersions = none) (ofKind : ∀ e, offends e → e.kind = kind)
    (each : ∀ e, e.kind = kind → ∀ b, step e b = if offends e then b.add s (complaint e) else b)
    (m : Chrome.Manifest) (b : Bundle) :
    Recorded ((m.filter offends).map fun e => (s, complaint e)) b
      ((m.entries kind []).foldl (fun b e => step e b) b) := by
  induction m generalizing b with
  | nil => exact .refl b
  | cons e rest ih =>
      by_cases here : e.kind = kind
      · by_cases bad : offends e
        · have first : Recorded [(s, complaint e)] b (step e b) := by
            rw [each e here, if_pos bad]
            exact .add (always e) s b
          simpa [Chrome.Manifest.entries, here, bad] using first.trans (ih (step e b))
        · have same : step e b = b := by rw [each e here, if_neg bad]
          simpa [Chrome.Manifest.entries, here, bad, same] using ih b
      · have fine : ¬offends e := fun bad => here (ofKind e bad)
        simpa [Chrome.Manifest.entries, here, fine] using ih b

/-! ## How often each registration counts -/

theorem file_of_mem_registrations {file : String} {e : Entry} (mem : e ∈ registrations p file) :
    e.file = file := by
  unfold registrations at mem
  split at mem
  · simp at mem
  · exact (Chrome.place_of_mem_entriesFrom mem).1

theorem nodup_lines_registrations (file : String) :
    ((registrations p file).map (·.line)).Nodup := by
  unfold registrations
  split
  · exact .nil
  · exact Chrome.nodup_lines ..

/-- In one reading, an offending registration counts once. -/
theorem countP_registrations {file : String} {e : Entry} (mem : e ∈ registrations p file)
    {offends : Entry → Prop} [DecidablePred offends] (bad : offends e) (other : String) :
    ((registrations p other).countP fun d => (d.file = e.file ∧ d.line = e.line) ∧ offends d) =
      if other = file then 1 else 0 := by
  have home : e.file = file := file_of_mem_registrations p mem
  split
  next same =>
    subst same
    have lines := nodup_lines_registrations p other
    have itself : ∀ d ∈ registrations p other,
        (decide ((d.file = e.file ∧ d.line = e.line) ∧ offends d) = true ↔ (d == e) = true) := by
      intro d there
      rw [decide_eq_true_iff, beq_iff_eq]
      constructor
      · rintro ⟨⟨-, line⟩, -⟩
        exact List.inj_on_of_nodup_map lines there mem line
      · rintro rfl
        exact ⟨⟨rfl, rfl⟩, bad⟩
    rw [List.countP_congr itself]
    exact List.count_eq_one_of_mem (List.Nodup.of_map _ lines) mem
  next apart =>
    rw [List.countP_eq_zero]
    intro d there
    have away : d.file ≠ e.file := by
      rw [file_of_mem_registrations p there, home]
      exact apart
    simp [away]

/-- An offending registration counts once for every reading of its manifest. -/
theorem countP_flatMap_registrations {file : String} {e : Entry} (mem : e ∈ registrations p file)
    {offends : Entry → Prop} [DecidablePred offends] (bad : offends e) (files : List String) :
    ((files.flatMap (registrations p)).countP fun d =>
      (d.file = e.file ∧ d.line = e.line) ∧ offends d) =
      files.count file := by
  induction files with
  | nil => rfl
  | cons first rest ih =>
      rw [List.flatMap_cons, List.countP_append, ih, countP_registrations p mem bad,
        List.count_cons]
      by_cases here : first = file <;> simp [here, Nat.add_comm]

/-- Whether a record is about a registration. -/
def isAt (b : Bundle) (e : Entry) (r : Record) : Bool :=
  r.file = b.packageStack ++ [e.file] ∧ r.line = some e.line

/-- On the way to a later bundle, each offending registration is reported once for every reading of
its manifest, and nothing else is reported like that. -/
structure ReportedPerReading (b c : Bundle) (s : Severity) (id : List String)
    (offends : Entry → Prop) : Prop where
  each : ∀ file, ∀ e ∈ registrations p file, offends e →
    (reported b c s id).countP (isAt b e) = (readings p).count file
  only : ∀ r ∈ reported b c s id, ∃ file ∈ readings p, ∃ e ∈ registrations p file,
    offends e ∧ isAt b e r

theorem ReportedPerReading.of_recorded {b c : Bundle} {s : Severity} {id : List String}
    {offends : Entry → Prop} [DecidablePred offends] {complaint : Entry → Finding}
    {findings : List (Severity × Finding)} (recorded : Recorded findings b c)
    (picked : pick s id findings = ((manifest p).filter offends).map complaint)
    (place : ∀ e, (complaint e).file = some e.file ∧ (complaint e).line = some e.line) :
    ReportedPerReading p b c s id offends := by
  have places : (reported b c s id).map (fun r => (r.file, r.line)) =
      ((manifest p).filter offends).map fun e => (b.packageStack ++ [e.file], some e.line) := by
    rw [recorded.map_reported s id _ fun _ => rfl, picked, List.map_map]
    refine List.map_congr_left fun e _ => ?_
    simp [stamp, place e]
  constructor
  case each =>
    intro file e mem bad
    rw [← countP_flatMap_registrations p mem bad]
    calc (reported b c s id).countP (isAt b e)
        = ((reported b c s id).map fun r => (r.file, r.line)).countP fun q =>
            q.1 = b.packageStack ++ [e.file] ∧ q.2 = some e.line := by
          rw [List.countP_map]
          rfl
      _ = (manifest p).countP fun d => (d.file = e.file ∧ d.line = e.line) ∧ offends d := by
          rw [places, List.countP_map, List.countP_filter]
          congr 1
          funext d
          simp
  case only =>
    intro r mem
    have placed : (r.file, r.line) ∈ (reported b c s id).map fun r => (r.file, r.line) :=
      List.mem_map_of_mem mem
    rw [places] at placed
    obtain ⟨e, kept, same⟩ := List.mem_map.1 placed
    obtain ⟨listed, bad⟩ := List.mem_filter.1 kept
    obtain ⟨file, opened, inside⟩ := List.mem_flatMap.1 listed
    refine ⟨file, opened, e, inside, by simpa using bad, ?_⟩
    obtain ⟨sameFile, sameLine⟩ := Prod.mk.inj same
    simp [isAt, ← sameFile, ← sameLine]

/-! ## The whole check -/

/-- The names of packages that are registered for content, in the order of the readings. -/
def registeredNames : List String :=
  (manifest p).filterMap fun e => if e.kind = "content" then e.args.head? else none

/-- The findings about registrations. -/
def aboutRegistrations : List (Severity × Finding) :=
  (followed p).flatMap (aboutInclusion p) ++
    (((manifest p).filter (LeadsNowhere p)).map (fun e => (.warning, emptyTarget e)) ++
      ((manifest p).filter IsReserved).map fun e => (.error, reservedName e))

/-- What the check of the registrations does on the way to a later bundle. -/
structure RegistrationsReported (b c : Bundle) : Prop where
  /-- The check follows so many inclusions and no more, however the manifests include each other. -/
  bounded : (followed p).length ≤ maxIncludes
  reached : ∀ path ∈ followed p, Relation.TransGen (Includes p) manifestPath path
  /-- Below the bound, every inclusion of a manifest that is read is followed. -/
  complete : (followed p).length < maxIncludes →
    ∀ file ∈ readings p, ∀ path, Includes p file path → path ∈ followed p
  content : ReportedPerReading p b c .warning
    ["testcases_chromemanifest", "content", "missing_target"] (LeadsNowhere p)
  resources : ReportedPerReading p b c .error
    ["testcases_chromemanifest", "resource", "reserved_name"] IsReserved
  /-- Every name is written down, but once only if there is no other name between its
  registrations. -/
  names : ∃ names, c.metadata.find? "chrome_packages" = some (Json.strings names) ∧
    names = (registeredNames p).destutter (· ≠ ·) ∧
      (∀ name, name ∈ names ↔ name ∈ registeredNames p) ∧
      (names.Nodup ↔ Chrome.Manifest.Together (registeredNames p))

theorem contentPackages_eq (m : Chrome.Manifest) :
    m.contentPackages = Chrome.Manifest.withoutRepeats
      (m.filterMap fun e => if e.kind = "content" then e.args.head? else none) := by
  rw [Chrome.Manifest.contentPackages, Chrome.Manifest.entries, List.filterMap_filter]
  simp

theorem find?_describe (m : Chrome.Manifest) (b : Bundle) :
    (describe m b).metadata.find? "chrome_packages" = some (Json.strings m.contentPackages) := by
  rw [describe]
  split
  · exact (Dict.find?_insert ..).trans (if_pos rfl)
  · exact (Dict.find?_insert_of_ne (by decide) _).trans ((Dict.find?_insert ..).trans (if_pos rfl))

theorem recorded_describe (m : Chrome.Manifest) (b : Bundle) : Recorded [] b (describe m b) := by
  rw [describe]
  split
  · exact .setMeta ..
  · exact (Recorded.setMeta ..).trans (.setMeta ..)

/-- If there is a manifest, all that is read is checked as one manifest. -/
theorem check_eq {source : List Char} (readable : p.readText manifestPath = .ok source)
    (b : Bundle) :
    ∃ c, Recorded (aboutRegistrations p) b c ∧ check p b = describe (manifest p) c := by
  have root : registrations p manifestPath = Chrome.Manifest.parse source manifestPath := by
    simp [registrations, readable]
  let read :=
    follow p maxIncludes (included p manifestPath).reverse (registrations p manifestPath) b
  have whole : read.1 = manifest p := follow_eq_flatMap ..
  have noted : Recorded ((followed p).flatMap (aboutInclusion p)) b read.2 := recorded_follow ..
  have content :=
    recorded_offences (fun _ => rfl) (fun _ h => h.1) (fun e => checkContent_eq p)
      (manifest p) read.2
  have resources :=
    recorded_offences (fun _ => rfl) (fun _ h => h.1) (fun e => checkResource_eq) (manifest p)
    (((manifest p).entries "content" []).foldl (fun b e => checkContent p.paths e b) read.2)
  refine ⟨_, noted.trans (content.trans resources), ?_⟩
  rw [check, readable]
  simp only [← root, ← whole]
  rfl

theorem id_of_mem_inclusions {entry : Severity × Finding}
    (mem : entry ∈ (followed p).flatMap (aboutInclusion p)) :
    entry.2.id = ["testcases_chromemanifest", "manifest", "missing_include"] := by
  obtain ⟨path, -, made⟩ := List.mem_flatMap.1 mem
  unfold aboutInclusion at made
  split at made
  · obtain rfl := List.mem_singleton.1 made
    rfl
  · simp at made

theorem pick_aboutRegistrations_content :
    pick .warning ["testcases_chromemanifest", "content", "missing_target"] (aboutRegistrations p) =
      ((manifest p).filter (LeadsNowhere p)).map emptyTarget := by
  rw [aboutRegistrations, pick_append, pick_append, pick_map (f := emptyTarget) (fun _ => rfl),
    pick_eq_nil fun entry mem => by simp [id_of_mem_inclusions p mem],
    pick_eq_nil (List.forall_mem_map.2 fun e _ => by simp [reservedName])]
  simp

theorem pick_aboutRegistrations_resource :
    pick .error ["testcases_chromemanifest", "resource", "reserved_name"] (aboutRegistrations p) =
      ((manifest p).filter IsReserved).map reservedName := by
  rw [aboutRegistrations, pick_append, pick_append, pick_map (f := reservedName) (fun _ => rfl),
    pick_eq_nil fun entry mem => by simp [id_of_mem_inclusions p mem],
    pick_eq_nil (List.forall_mem_map.2 fun e _ => by simp [emptyTarget])]
  simp

/-- A package without a manifest has nothing to check. Otherwise the check ends after so many
inclusions, and what a manifest registers counts again whenever it is read again. -/
theorem check_reports_per_reading (b : Bundle) :
    (∀ error, p.readText manifestPath = .error error → check p b = b) ∧
      ∀ source, p.readText manifestPath = .ok source → RegistrationsReported p b (check p b) := by
  constructor
  · intro error unreadable
    rw [check, unreadable]
  · intro source readable
    obtain ⟨c, recorded, same⟩ := check_eq p readable b
    have recorded : Recorded (aboutRegistrations p) b (check p b) := by
      rw [same]
      simpa using recorded.trans (recorded_describe (manifest p) c)
    constructor
    case bounded => exact length_followedFrom_le ..
    case reached =>
      refine reached_of_mem_followedFrom p fun path mem => ?_
      exact .single (List.mem_reverse.1 mem)
    case complete =>
      intro short file opened path named
      obtain ⟨first, inside⟩ := mem_followedFrom_of_lt p short
      rcases List.mem_cons.1 opened with rfl | opened
      · exact first path (List.mem_reverse.2 named)
      · exact inside file opened path named
    case content =>
      exact .of_recorded p recorded (pick_aboutRegistrations_content p) fun _ => ⟨rfl, rfl⟩
    case resources =>
      exact .of_recorded p recorded (pick_aboutRegistrations_resource p) fun _ => ⟨rfl, rfl⟩
    case names =>
      refine ⟨_, by rw [same]; exact find?_describe (manifest p) c, ?_⟩
      rw [contentPackages_eq]
      exact ⟨Chrome.Manifest.withoutRepeats_eq_destutter _,
        fun _ => Chrome.Manifest.mem_withoutRepeats, Chrome.Manifest.nodup_withoutRepeats_iff _⟩

/-- A package whose manifest includes another one twice. -/
def sharing : Package :=
  .ofFiles "a.xpi" [("chrome.manifest", "manifest b\nmanifest b\n".toUTF8.toList),
    ("b", "content x q/\ncontent y b\nresource gre z\n".toUTF8.toList)]

theorem check_reports_per_reading_sharing :
    RegistrationsReported sharing {} (check sharing {}) ∧
      readings sharing = ["chrome.manifest", "b", "b"] ∧
      (∃ e ∈ registrations sharing "b", LeadsNowhere sharing e ∧
        (reported {} (check sharing {}) .warning
          ["testcases_chromemanifest", "content", "missing_target"]).countP (isAt {} e) = 2) ∧
      registeredNames sharing = ["x", "y", "x", "y"] := by
  have source : sharing.readText manifestPath = .ok "manifest b\nmanifest b\n".toList := by
    decide +kernel
  have reports := (check_reports_per_reading sharing {}).2 _ source
  have read : readings sharing = ["chrome.manifest", "b", "b"] := by decide +kernel
  obtain ⟨e, mem, bad⟩ : ∃ e ∈ registrations sharing "b", LeadsNowhere sharing e := by
    decide +kernel
  refine ⟨reports, read, ⟨e, mem, bad, ?_⟩, by decide +kernel⟩
  rw [reports.content.each "b" e mem bad, read]
  decide

end Registration

end AddonAudit
