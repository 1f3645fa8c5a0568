import AddonAudit.Proofs.Audit.Rules
import AddonAudit.Proofs.Package

/-!
# Which files end an audit

An audit reads the files that the package lists, under the paths that are listed. A listed path that
starts with the mark of the present folder is cleaned to another path when it is read. No other path
can end the audit, neither in the package itself nor in one that is nested in it.
-/

namespace AddonAudit.Audit

open Bundle Package

/-- The path of a file that is not found starts with the mark of the present folder. -/
def IsMarked (e : PackageError) : Prop :=
  ∃ path, e = .notFound path ∧ hereMark <+: path.toList

/-- An audit ends with the error of a package only at a marked path. -/
def RaisesMarked (x : Audit Unit) : Prop :=
  ∀ s e, (x s).1 = .error (.package e) → IsMarked e

variable {config : Config} {path : String}

/-- A listed path that cannot be read is marked. -/
theorem isMarked_of_read {name : String} {files : List (String × Bytes)} {e : PackageError}
    (mem : path ∈ (ofFiles name files).paths) (failed : (ofFiles name files).read path = .error e) :
    IsMarked e := by
  refine ⟨path, eq_notFound_of_read failed, ?_⟩
  by_contra plain
  obtain ⟨-, content, -, found⟩ := read_of_mem_paths mem plain
  exact nomatch failed.symm.trans found

/-- An analysis ends an audit at the deadline or with a fault, never with the error of a package. -/
theorem analyse_raisesMarked (config : Config) (path : String)
    (check : Script.Options → Session → Except Script.Fault Unit × Session) :
    RaisesMarked (analyse config path check) := by
  intro s e failed
  have ends := analyse_ends config path check s
  generalize check { strict := config.strict } s = checked,
    analyse config path check s = ended at failed ends
  cases ends with
  | well | late | raised | recorded => exact nomatch failed

theorem raisesMarked_rules :
    Rules config (fun p => ∃ name files, p = ofFiles name files) RaisesMarked fun _ =>
      RaisesMarked where
  skip _ _ _ failed := nomatch failed
  report _ _ _ failed := nomatch failed
  analyse _ := analyse_raisesMarked _ _ _
  within inner s e failed := inner _ e failed
  unread := by
    rintro _ path e ⟨name, files, rfl⟩ mem failed s _ raised
    cases raised
    exact isMarked_of_read mem failed
  opened opened := ⟨_, ofArchive_eq opened⟩
  done _ _ failed := nomatch failed
  seq := by
    intro x y first second s e failed
    generalize start : x s = outcome
    obtain ⟨_ | _, t⟩ := outcome
    · rw [bind_error start] at failed
      exact first s e (start ▸ failed)
    · rw [bind_ok start] at failed
      exact second t e failed
  gate := by
    intro x inner s e failed
    rw [gated_apply] at failed
    split at failed
    · exact nomatch failed
    · exact inner s e failed
  deadline := by
    intro s e failed
    rw [checkDeadline_apply] at failed
    simp only at failed
    split at failed
    · exact nomatch failed
    · exact nomatch failed
  tier _ _ _ failed := nomatch failed
  change _ _ _ failed := nomatch failed
  about inner := inner

/-- Under every path a package gives back the last file that was put under its clean form. For a
listed path this is the file that is listed, unless the path starts with the mark of the present
folder: such a path is no fixed point of cleaning, and it is found only if a file was put under what
is left of it. The audit of the package, to any depth, reads all listed paths, and it can end with
the error of a package only at a path with the mark. A package from an archive is one of these. -/
theorem listed_files_read_back (name : String) (files : List (String × Bytes)) :
    let p := ofFiles name files
    (∀ path, p.contains path = (lastContent? (cleanPath path) files).isSome ∧
      p.read path = (lastContent? (cleanPath path) files).elim (.error (.notFound path)) .ok) ∧
    (∀ path ∈ p.paths, (¬ hereMark <+: path.toList →
        p.contains path = true ∧ ∃ content, lastContent? path files = some content ∧
          p.read path = .ok content) ∧
      (hereMark <+: path.toList → cleanPath path ≠ path ∧
        (cleanPath path ∉ p.paths → p.contains path = false ∧
          p.read path = .error (.notFound path)))) ∧
    (∀ path, cleanPath (cleanPath path) = cleanPath path ↔ ¬ hereMark <+: (cleanPath path).toList) ∧
    (∀ config depth hasManifest s e,
      (tiers config depth p hasManifest s).1 = .error (.package e) →
        ∃ path, e = .notFound path ∧ hereMark <+: path.toList) ∧
    (∀ config s e, (run config p s).1 = .error (.package e) →
      ∃ path, e = .notFound path ∧ hereMark <+: path.toList) ∧
    ∀ data q, ofArchive name data = .ok q → ∃ entries, q = ofFiles name entries := by
  intro p
  have raises : ∀ config depth hasManifest, RaisesMarked (tiers config depth p hasManifest) :=
    fun config depth hasManifest => raisesMarked_rules.tiers depth p ⟨name, files, rfl⟩ hasManifest
  refine ⟨fun path => ⟨contains_ofFiles, read_ofFiles⟩, ?_, cleanPath_cleanPath_iff, raises,
    fun config => raises config (Audit.depth p) true, ?_⟩
  · intro path mem
    refine ⟨read_of_mem_paths mem, fun marked => ⟨?_, fun absent => ?_⟩⟩
    · intro fixed
      exact (trimmed_of_mem_paths mem).cleanPath_eq_self_iff.1 fixed marked
    · have missing : lastContent? (cleanPath path) files = none := by
        simpa using mt mem_paths_ofFiles.2 absent
      rw [contains_ofFiles, read_ofFiles, missing]
      exact ⟨rfl, rfl⟩
  · intro data q opened
    exact ofArchive_eq opened

/-- A slash before the mark keeps it in the listed path. The file is listed and cannot be read; the
file next to it can. -/
theorem listed_files_read_back_slash :
    let p := ofFiles "a.xpi" [("/./a.js", [120]), (".\\b.js", [121])]
    p.paths = ["./a.js", "b.js"] ∧ p.contains "./a.js" = false ∧
      p.read "./a.js" = .error (.notFound "./a.js") ∧
      p.contains "b.js" = true ∧ ∃ content, p.read "b.js" = .ok content := by
  intro p
  have listed : p.paths = ["./a.js", "b.js"] := by decide +kernel
  obtain ⟨-, back, -⟩ := listed_files_read_back "a.xpi" [("/./a.js", [120]), (".\\b.js", [121])]
  obtain ⟨-, marked⟩ := back "./a.js" (by rw [listed]; decide)
  obtain ⟨plain, -⟩ := back "b.js" (by rw [listed]; decide)
  obtain ⟨-, lost⟩ := marked (by decide)
  obtain ⟨held, content, -, found⟩ := plain (by decide)
  have absent : cleanPath "./a.js" ∉ p.paths := by
    rw [listed]
    decide +kernel
  exact ⟨listed, (lost absent).1, (lost absent).2, held, content, found⟩

end AddonAudit.Audit
