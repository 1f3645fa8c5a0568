import AddonAudit.Proofs.Audit.Frame

/-!
# The contents of a package, file by file

Checks of files write to one bundle, one after the other, and read flags from it. In a package
without packages inside, nothing that one file does reaches another one: the records of the contents
are those that each file has alone, in the order of the files. A file whose analysis has a fault
keeps the records up to the fault and has one error more.
-/

namespace AddonAudit.Audit

open Bundle Script

/-- Whether the contents of a file are checked: it is not excluded and holds no known library. -/
def isChecked (config : Config) (path : String) : Bool :=
  !config.excludes path && (libraryIn? config path).isNone

/-- The analysis of a file of a package that is a script or a document. -/
inductive AnalysisOf (p : Package) (path : String) :
    (Options → Session → Except Fault Unit × Session) → Prop where
  | script {source : List Char} : Role.of? path = some .script → p.readText path = .ok source →
      AnalysisOf p path fun options => Script.analyse path source options
  | markup {source : List Char} : Role.of? path = some .markup → p.readText path = .ok source →
      AnalysisOf p path fun options => Markup.check path source options

variable {audit : Package → Bool → Audit Unit} {config : Config} {p : Package} {path : String}
  {a b c d : Bundle} {s : Severity} {check : Options → Session → Except Fault Unit × Session}

theorem AnalysisOf.isAnalysis (h : AnalysisOf p path check) : IsAnalysis path check := by
  cases h with
  | script => exact .script _
  | markup => exact .markup _

/-! ## One file -/

section File

variable (checked : isChecked config path = true)

include checked

theorem examine_of_checked : examine audit config p path = checkFile audit config p path := by
  rw [isChecked, Bool.and_eq_true, Bool.not_eq_true'] at checked
  rw [examine, if_neg (Bool.eq_false_iff.1 checked.1)]

theorem library_of_checked (role : Role.of? path = some .script) : Library.find? path = none := by
  rw [isChecked, Bool.and_eq_true, Bool.not_eq_true'] at checked
  simpa [libraryIn?, checked.1, role] using checked.2

theorem checkFile_of_analysisOf (h : AnalysisOf p path check) :
    checkFile audit config p path = analyse config path check := by
  unfold checkFile
  cases h with
  | script role found =>
      rw [role]
      simp only [library_of_checked checked role, found]
      rfl
  | markup role found =>
      rw [role]
      simp only [found]
      rfl

end File

theorem examine_of_unchecked (unchecked : isChecked config path = false) :
    examine audit config p path = pure () := by
  unfold examine
  split
  · rfl
  next included =>
    have found : libraryIn? config path ≠ none := by
      intro noLibrary
      simp [isChecked, included, noLibrary] at unchecked
    have role : Role.of? path = some .script := by
      by_contra other
      simp [libraryIn?, other] at found
    have library : (Library.find? path).isNone = false := by
      by_contra absent
      simp only [Bool.not_eq_false, Option.isNone_iff_eq_none] at absent
      simp [libraryIn?, absent] at found
    unfold checkFile
    rw [role]
    simp only [library]
    rfl

section Alone

variable (flat : ∀ isAddon, Role.of? path ≠ some (.package isAddon))

include flat

theorem examine_framed (listed : path ∈ p.paths) :
    Framed (fun _ => True) [path] (examine audit config p path) := by
  rw [examine_of_absent (fun _ _ => pure ()) fun _ isAddon nested => flat isAddon nested.role]
  exact (framed_files config _).examine trivial listed fun _ _ _ => .done

/-- A file that can be read ends no audit that is not strict and has no deadline. -/
theorem examine_ok (lax : config.strict = false) (readable : ∃ data, p.read path = .ok data)
    (b : Bundle) : ∃ d, examine audit config p path ⟨b, none⟩ = (.ok (), ⟨d, none⟩) := by
  have analysed : ∀ {check}, IsAnalysis path check →
      ∃ d, analyse config path check ⟨b, none⟩ = (.ok (), ⟨d, none⟩) := by
    intro check h
    obtain ⟨untimed, ok⟩ := analyse_untimed config h (s := ⟨b, none⟩) rfl
    generalize analyse config path check ⟨b, none⟩ = outcome at untimed ok ⊢
    obtain ⟨result, d, clock⟩ := outcome
    cases untimed
    cases ok lax
    exact ⟨d, rfl⟩
  obtain ⟨data, found⟩ := readable
  have text : p.readText path = .ok (Text.ofBytes data) := by
    rw [Package.readText, found]
    rfl
  unfold examine
  split
  · exact ⟨b, rfl⟩
  · unfold checkFile
    simp only [text, ofRead, pure_bind]
    cases role : Role.of? path with
    | none => exact ⟨b, rfl⟩
    | some kind =>
        cases kind with
        | script =>
            simp only
            split
            · exact analysed (.script _)
            · exact ⟨b, rfl⟩
        | markup => exact analysed (.markup _)
        | stylesheet => exact ⟨_, rfl⟩
        | package isAddon => exact absurd role (flat isAddon)

end Alone

/-- What a check records does not depend on the records before it. -/
theorem Framed.gains_alone {x : Audit Unit} {place : List String}
    (framed : Framed (fun _ => True) place x) (view : SameView a b) (empty : a.messages = [])
    (fresh : ∀ r ∈ b.messages, r.uid < b.next) (s : Severity) :
    Gains b (x ⟨b, none⟩).2.bundle s ((x ⟨a, none⟩).2.bundle.records s) := by
  have absent : ∀ r, r ∉ a.messages := by
    rw [empty]
    exact fun _ => List.not_mem_nil
  have first : a.records s = [] := by
    rw [List.eq_nil_iff_forall_not_mem]
    intro r mem
    exact absent r (mem_messages.2 ⟨s, mem⟩)
  -- Both runs are compared with a third one, from the number 0.
  obtain ⟨new, added, same⟩ := framed.gains view fresh trivial none s
  obtain ⟨own, alone, same'⟩ :=
    framed.gains (.refl a) (fun r mem => absurd mem (absent r)) trivial none s
  rw [first, List.nil_append] at alone
  exact ⟨new, added, by rw [same, alone, same']⟩

/-- Files are checked one after the other, each as if it were alone. -/
theorem checkFiles_alone (audit : Package → Bool → Audit Unit) (lax : config.strict = false)
    (empty : a.messages = []) {list : List String} (listed : ∀ path ∈ list, path ∈ p.paths)
    (flat : ∀ path ∈ list, ∀ isAddon, Role.of? path ≠ some (.package isAddon))
    (readable : ∀ path ∈ list, ∃ data, p.read path = .ok data) (view : SameView a b)
    (fresh : ∀ r ∈ b.messages, r.uid < b.next) :
    ∃ d, checkFiles audit config p list ⟨b, none⟩ = (.ok (), ⟨d, none⟩) ∧ b.SameSetting d ∧
      ∀ s, Gains b d s ((list.filter (isChecked config)).flatMap fun path =>
        (checkFile audit config p path ⟨a, none⟩).2.bundle.records s) := by
  induction list generalizing b with
  | nil => exact ⟨b, rfl, .refl b, .nothing b⟩
  | cons path rest ih =>
      obtain ⟨inPackage, listed⟩ := List.forall_mem_cons.1 listed
      obtain ⟨noPackage, flat⟩ := List.forall_mem_cons.1 flat
      obtain ⟨found, readable⟩ := List.forall_mem_cons.1 readable
      have framed : Framed (fun _ => True) [path] (examine audit config p path) :=
        examine_framed noPackage inPackage
      obtain ⟨c, examined⟩ : ∃ c, examine audit config p path ⟨b, none⟩ = (.ok (), ⟨c, none⟩) :=
        examine_ok noPackage lax found b
      have setting : b.SameSetting (examine audit config p path ⟨b, none⟩).2.bundle :=
        examine_sameSetting (fun _ isAddon nested => noPackage isAddon nested.role) ⟨b, none⟩
      have fresh' := (framed.adding.adds (s := ⟨b, none⟩) fresh List.nil_prefix).fresh
      rw [examined] at setting fresh'
      have first :
          ∀ s, Gains b c s ((examine audit config p path ⟨a, none⟩).2.bundle.records s) := by
        have gains := framed.gains_alone view empty fresh
        rw [examined] at gains
        exact gains
      obtain ⟨d, checked, setting', gains⟩ := ih listed flat readable
        (view.trans setting.sameView) fresh'
      refine ⟨d, ?_, setting.trans setting', fun s => ?_⟩
      · rw [checkFiles_cons, bind_ok (checkDeadline_of_untimed rfl), bind_ok examined, checked]
      · cases which : isChecked config path with
        | true =>
            rw [List.filter_cons_of_pos which, List.flatMap_cons, ← examine_of_checked which]
            exact (first s).trans (gains s)
        | false =>
            rw [List.filter_cons_of_neg (Bool.eq_false_iff.1 which)]
            rw [examine_of_unchecked which] at examined
            cases examined
            exact gains s

/-- A fault is recorded as one error of the first tier about the file. -/
theorem recordFault_records (path : String) (f : Fault) (b : Bundle) :
    ∃ r, r.id = ["javascript", "traverser", "unexpected_exception"] ∧
      r.severity = .error ∧ r.tier = 1 ∧
      r.file = b.packageStack ++ [path] ∧
      ∀ s, (recordFault path f b).records s = b.records s ++ if s = .error then [r] else [] := by
  let lowered : Bundle := { b with tier := 1 }
  let r := lowered.stamp .error (faultFinding path f)
  have recorded : lowered.add .error (faultFinding path f) = lowered.append r := add_of_relevant rfl
  refine ⟨r, rfl, rfl, rfl, rfl, fun s => ?_⟩
  have same : ∀ s, lowered.records s = b.records s := by
    intro s
    cases s <;> rfl
  have kept :
      (recordFault path f b).records s = (lowered.add .error (faultFinding path f)).records s := by
    cases s <;> rfl
  rw [kept, recorded, append_records, same]
  show (if .error = s then _ else _) = _
  cases s with
  | error => rfl
  | warning | notice => exact (List.append_nil _).symm

/-- Without packages inside, in an audit that is not strict and has no deadline, the contents of a
package whose files can be read are checked to the end. The records that they add are those of the
files that are not excluded and hold no known library, in order, each alone in a bundle that looks
the same. If the analysis of such a file has a fault, the file has the records up to the fault and
one error more, of the first tier; the current tier stays. -/
theorem contents_are_files_alone (audit : Package → Bool → Audit Unit)
    (config : Config) (p : Package) (a b : Bundle) (lax : config.strict = false)
    (flat : ∀ path ∈ p.paths, ∀ isAddon, Role.of? path ≠ some (.package isAddon))
    (readable : ∀ path ∈ p.paths, ∃ data, p.read path = .ok data)
    (fresh : ∀ r ∈ b.messages, r.uid < b.next) (view : SameView a b) (empty : a.messages = []) :
    (∃ t, checkContents audit config p ⟨b, none⟩ = (.ok (), t) ∧ t.bundle.tier = b.tier ∧
      ∀ s, Gains b t.bundle s ((p.paths.filter (isChecked config)).flatMap fun path =>
        (checkFile audit config p path ⟨a, none⟩).2.bundle.records s)) ∧
    ∀ path check f u, isChecked config path = true → AnalysisOf p path check →
      check { strict := false } ⟨a, none⟩ = (.error f, u) →
      ∃ t r, checkFile audit config p path ⟨a, none⟩ = (.ok (), t) ∧ t.bundle.tier = a.tier ∧
        r.id = ["javascript", "traverser", "unexpected_exception"] ∧
        r.severity = .error ∧ r.tier = 1 ∧
        r.file = a.packageStack ++ [path] ∧
        ∀ s, t.bundle.records s = u.bundle.records s ++ if s = .error then [r] else [] := by
  constructor
  · obtain ⟨d, checked, setting, gains⟩ :=
      checkFiles_alone audit lax empty (fun _ mem => mem) flat readable view fresh
    refine ⟨⟨noteLibraries config p d, none⟩, ?_, ?_, fun s => ?_⟩
    · rw [checkContents, bind_ok checked]
      rfl
    · exact ((isRun_noteLibraries config p).samePlace d).tier.trans setting.tier
    · obtain ⟨new, added, same⟩ := gains s
      exact ⟨new, ((noteLibraries_sameRecords config p d).records s).trans added, same⟩
  · intro path check f u checked analysis ends
    have other : f ≠ .timeout := by
      rintro rfl
      have inTime := (analysis.isAnalysis.untimed { strict := false } (s := ⟨a, none⟩) rfl).1
      rw [ends] at inTime
      exact inTime rfl
    have setting := analysis.isAnalysis.sameSetting { strict := false } ⟨a, none⟩
    rw [ends] at setting
    obtain ⟨r, id, severity, tier, file, records⟩ := recordFault_records path f u.bundle
    refine ⟨u.update (recordFault path f), r, ?_, ?_, id, severity, tier, ?_, records⟩
    · rw [checkFile_of_analysisOf checked analysis]
      have ends : check { strict := config.strict } ⟨a, none⟩ = (.error f, u) := by
        rw [lax]
        exact ends
      rw [analyse_of_fault other ends, lax]
      rfl
    · exact setting.tier
    · rw [file, setting.packageStack]

theorem eq_ok_of_toOption {ε α : Type} {r : Except ε α} {x : α} (h : r.toOption = some x) :
    r = .ok x := by
  cases r with
  | error e => exact nomatch h
  | ok y => exact congrArg Except.ok (Option.some.inj h)

/-- After an earlier error, the contents of a script that is nested too deep, a stylesheet and a
known library. The script keeps the notice about its first line and has an error of the first tier
for the fault; the notice of the stylesheet comes after it. -/
theorem contents_are_files_alone_after_error :
    let deep : Bytes := Text.toBytes "//__defineGetter__\n" ++ List.replicate 198 33 ++ [49]
    let p := Package.ofFiles "a.xpi"
      [("b.css", Text.toBytes "-moz-binding:url(x)"), ("a.js", deep), ("jquery.js", [])]
    let a := (ofSupported none).setTier 3
    let b := a.add .error { id := ["main", "test_package"], message := "Unexpected package type" }
    p.paths.filter (isChecked {}) = ["a.js", "b.css"] ∧
      ∃ t, checkContents (tiers {} 1) {} p ⟨b, none⟩ = (.ok (), t) ∧ t.bundle.tier = 3 ∧
        t.bundle.notices.map (fun r => (r.id, r.file)) =
          [(["testcases_regex", "javascript", "define_accessor"], ["a.js"]),
            (["testcases_css", "-moz-binding", "used"], ["b.css"])] ∧
        t.bundle.errors.map (fun r => (r.id, r.tier, r.file)) =
          [(["main", "test_package"], 3, []),
            (["javascript", "traverser", "unexpected_exception"], 1, ["a.js"])] := by
  intro deep p a b
  let source := "//__defineGetter__\n".toList ++ List.replicate 198 '!' ++ ['1']
  have listed : p.paths.filter (isChecked {}) = ["a.js", "b.css"] := by decide +kernel
  have readable : ∀ path ∈ p.paths, ∃ data, p.read path = .ok data := by
    intro path mem
    have all : ∀ path ∈ p.paths, (p.read path).isOk := by decide +kernel
    have found := all path mem
    cases content : p.read path with
    | ok data => exact ⟨data, rfl⟩
    | error e =>
        rw [content] at found
        exact nomatch found
  obtain ⟨⟨t, ended, tier, gains⟩, faults⟩ := contents_are_files_alone (tiers {} 1) {} p a b rfl
    (by decide +kernel) readable (by decide +kernel) (push_sameSetting ..).sameView rfl
  -- The analysis of the script ends in a fault, with the notice before it.
  have analysis : AnalysisOf p "a.js" fun options => Script.analyse "a.js" source options :=
    .script (by decide +kernel) (eq_ok_of_toOption (by decide +kernel))
  have partly : (Script.analyse "a.js" source { strict := false } ⟨a, none⟩).1.toOption.isNone ∧
      ((Script.analyse "a.js" source { strict := false } ⟨a, none⟩).2.bundle.records .notice).map
        (fun r => (r.id, r.file)) =
          [(["testcases_regex", "javascript", "define_accessor"], ["a.js"])] ∧
      (Script.analyse "a.js" source { strict := false } ⟨a, none⟩).2.bundle.records .error =
        [] := by
    decide +kernel
  generalize ends : Script.analyse "a.js" source { strict := false } ⟨a, none⟩ = outcome at partly
  obtain ⟨f | _, u⟩ := outcome
  case ok => exact nomatch partly.1
  obtain ⟨-, notices, errors⟩ := partly
  obtain ⟨v, r, checked, -, id, -, first, file, records⟩ :=
    faults "a.js" _ f u (by decide +kernel) analysis ends
  have sheet : ((checkFile (tiers {} 1) {} p "b.css" ⟨a, none⟩).2.bundle.records .notice).map
        (fun r => (r.id, r.file)) = [(["testcases_css", "-moz-binding", "used"], ["b.css"])] ∧
      (checkFile (tiers {} 1) {} p "b.css" ⟨a, none⟩).2.bundle.records .error = [] := by
    decide +kernel
  simp only [listed, List.flatMap_cons, List.flatMap_nil, List.append_nil, checked,
    records] at gains
  refine ⟨listed, t, ended, tier, ?_, ?_⟩
  · have seen := (gains .notice).map (fun r => (r.id, r.file)) fun _ => rfl
    rw [if_neg (by decide), List.append_nil, List.map_append, notices, sheet.1] at seen
    exact seen
  · have seen := (gains .error).map (fun r => (r.id, r.tier, r.file)) fun _ => rfl
    rw [if_pos rfl, errors, sheet.2, List.nil_append, List.append_nil,
      List.map_singleton, id, first, file] at seen
    exact seen

end AddonAudit.Audit
