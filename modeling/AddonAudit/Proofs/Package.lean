import AddonAudit.Package
import AddonAudit.Proofs.Dict
import Mathlib.Data.List.Induction

/-!
# Reading back what a package lists

A path is cleaned when a file is put into a package and again when it is asked for. Cleaning removes
every `./` at the front and then every slash, so it can uncover a `./` that stays. A path is a fixed
point of cleaning exactly if nothing was uncovered, and then what is listed under it can be read
back.
-/

namespace AddonAudit

namespace Text

variable {pre cs : List Char}

theorem dropTexts_of_not_prefix (absent : ¬ pre <+: cs) : dropTexts pre cs = cs := by
  rw [dropTexts, dif_neg]
  intro here
  exact absent (List.isPrefixOf_iff_prefix.1 here.2)

theorem dropTexts_of_prefix (nonempty : pre ≠ []) (here : pre <+: cs) :
    dropTexts pre cs = dropTexts pre (cs.drop pre.length) := by
  rw [dropTexts, dif_pos ⟨nonempty, List.isPrefixOf_iff_prefix.2 here⟩]

theorem dropTexts_suffix (pre cs : List Char) : dropTexts pre cs <:+ cs := by
  fun_induction dropTexts pre cs with
  | case1 cs here ih => exact ih.trans (List.drop_suffix _ cs)
  | case2 cs absent => exact List.suffix_rfl

end Text

namespace Dict

variable {α : Type} {d : Dict α} {key : String}

theorem isSome_find? : (d.find? key).isSome ↔ key ∈ d.keys := by
  induction d with
  | nil => simp [keys]
  | cons entry rest ih =>
      rw [find?_cons]
      split
      next same => simp [keys, same]
      next ne =>
        rw [ih]
        simp [keys, Ne.symm ne]

end Dict

namespace Package

/-- The characters that mark the present folder at the front of a path. -/
def hereMark : List Char := ['.', '/']

/-- A path without backslashes and without a slash at its front. -/
structure Trimmed (path : String) : Prop where
  slashes : '\\' ∉ path.toList
  front : path.toList.head? ≠ some '/'

theorem toList_cleanPath (path : String) : (cleanPath path).toList =
    (Text.dropTexts hereMark (path.toList.map fun c => if c = '\\' then '/' else c)).dropWhile
      (· = '/') :=
  String.toList_ofList

/-- What cleaning gives is trimmed. -/
theorem trimmed_cleanPath (path : String) : Trimmed (cleanPath path) where
  slashes := by
    rw [toList_cleanPath]
    intro mem
    have mapped := (Text.dropTexts_suffix _ _).subset ((List.dropWhile_suffix _).subset mem)
    obtain ⟨c, -, same⟩ := List.mem_map.1 mapped
    split at same
    · exact absurd same (by decide)
    next other => exact other same
  front := by
    rw [toList_cleanPath]
    intro slash
    have stays := List.head?_dropWhile_not (· = '/')
      (Text.dropTexts hereMark (path.toList.map fun c => if c = '\\' then '/' else c))
    rw [slash] at stays
    simp at stays

/-- Cleaning leaves a trimmed path as it is, unless it starts with the mark of the present
folder. -/
theorem Trimmed.cleanPath_eq_self_iff {path : String} (h : Trimmed path) :
    cleanPath path = path ↔ ¬ hereMark <+: path.toList := by
  have mapped : (path.toList.map fun c => if c = '\\' then '/' else c) = path.toList := by
    have kept : ∀ c ∈ path.toList, (if c = '\\' then '/' else c) = id c := by
      intro c mem
      have other : c ≠ '\\' := fun same => h.slashes (same ▸ mem)
      exact if_neg other
    rw [List.map_congr_left kept, List.map_id]
  rw [← String.toList_inj, toList_cleanPath, mapped]
  constructor
  · intro same here
    -- At least the mark is gone, so the path has become shorter.
    rw [Text.dropTexts_of_prefix (by decide) here] at same
    have shorter := ((List.dropWhile_suffix (· = '/')).trans
      (Text.dropTexts_suffix hereMark (path.toList.drop hereMark.length))).length_le
    rw [same, List.length_drop] at shorter
    have long := here.length_le
    simp only [hereMark, List.length_cons, List.length_nil] at shorter long
    omega
  · intro absent
    rw [Text.dropTexts_of_not_prefix absent]
    cases front : path.toList with
    | nil => rfl
    | cons c rest =>
        have other : c ≠ '/' := by
          intro slash
          exact h.front (by rw [front, slash]; rfl)
        rw [List.dropWhile_cons_of_neg (by simpa using other)]

theorem cleanPath_cleanPath_iff (path : String) :
    cleanPath (cleanPath path) = cleanPath path ↔ ¬ hereMark <+: (cleanPath path).toList :=
  (trimmed_cleanPath path).cleanPath_eq_self_iff

/-- The content of the last file whose path has a clean form. -/
def lastContent? (clean : String) (files : List (String × Bytes)) : Option Bytes :=
  (files.reverse.find? fun entry => cleanPath entry.1 = clean).map Prod.snd

variable {name path : String} {files : List (String × Bytes)}

theorem ofFiles_concat (name : String) (files : List (String × Bytes)) (entry : String × Bytes) :
    ofFiles name (files ++ [entry]) = (ofFiles name files).insert entry.1 entry.2 := by
  simp only [ofFiles, List.foldl_append, List.foldl_cons, List.foldl_nil]

theorem ofFiles_storage (name : String) (files : List (String × Bytes)) :
    (ofFiles name files).storage = .held := by
  induction files using List.reverseRecOn with
  | nil => rfl
  | append_singleton files entry ih =>
      rw [ofFiles_concat]
      exact ih

/-- Under a path stands what was put there last. -/
theorem find?_ofFiles (clean : String) (name : String) (files : List (String × Bytes)) :
    Dict.find? clean (ofFiles name files).files = lastContent? clean files := by
  induction files using List.reverseRecOn with
  | nil => rfl
  | append_singleton files entry ih =>
      rw [ofFiles_concat, lastContent?, List.reverse_concat, List.find?_cons]
      show Dict.find? clean (Dict.insert (cleanPath entry.1) entry.2 (ofFiles name files).files) = _
      rw [Dict.find?_insert, ih]
      by_cases same : cleanPath entry.1 = clean
      · simp [same]
      · simp [same, lastContent?]

theorem mem_paths_ofFiles :
    path ∈ (ofFiles name files).paths ↔ (lastContent? path files).isSome := by
  rw [paths, ofFiles_storage, ← find?_ofFiles path name, Dict.isSome_find?]

theorem contains_ofFiles : (ofFiles name files).contains path =
    (lastContent? (cleanPath path) files).isSome := by
  rw [contains, Bool.eq_iff_iff, List.contains_iff_mem, mem_paths_ofFiles]

theorem read_ofFiles : (ofFiles name files).read path =
    (lastContent? (cleanPath path) files).elim (.error (.notFound path)) .ok := by
  simp only [read, ofFiles_storage, find?_ofFiles]
  cases lastContent? (cleanPath path) files with
  | none => rfl
  | some content => rfl

/-- Every listed path is the clean form of a path. -/
theorem trimmed_of_mem_paths (mem : path ∈ (ofFiles name files).paths) : Trimmed path := by
  obtain ⟨content, found⟩ := Option.isSome_iff_exists.1 (mem_paths_ofFiles.1 mem)
  obtain ⟨entry, first, -⟩ := Option.map_eq_some_iff.1 found
  have clean : cleanPath entry.1 = path := by simpa using List.find?_some first
  exact clean ▸ trimmed_cleanPath entry.1

/-- What an archive adds to a package is a list of insertions. -/
theorem addEntries_eq {data : Bytes} {total : Nat} {entries : List Archive.Entry} {p q : Package}
    (added : addEntries data total entries p = .ok q) :
    ∃ files : List (String × Bytes),
      q = files.foldl (fun p entry => p.insert entry.1 entry.2) p := by
  induction entries generalizing total p with
  | nil => exact ⟨[], (Except.ok.inj added).symm⟩
  | cons e rest ih =>
      rw [addEntries] at added
      split at added
      · exact nomatch added
      · split at added
        · exact ih added
        · split at added
          · exact nomatch added
          · split at added
            · exact nomatch added
            next content _ =>
              obtain ⟨files, rfl⟩ := ih added
              exact ⟨(e.name, content) :: files, rfl⟩

/-- A package that comes from an archive holds a list of files. -/
theorem ofArchive_eq {data : Bytes} {p : Package} (opened : ofArchive name data = .ok p) :
    ∃ files, p = ofFiles name files := by
  rw [ofArchive] at opened
  split at opened
  · exact nomatch opened
  · exact addEntries_eq opened

/-- A listed path that starts with no mark of the present folder can be read back. -/
theorem read_of_mem_paths (mem : path ∈ (ofFiles name files).paths)
    (plain : ¬ hereMark <+: path.toList) :
    (ofFiles name files).contains path = true ∧ ∃ content, lastContent? path files = some content ∧
      (ofFiles name files).read path = .ok content := by
  have fixed : cleanPath path = path := (trimmed_of_mem_paths mem).cleanPath_eq_self_iff.2 plain
  have listed := mem_paths_ofFiles.1 mem
  obtain ⟨content, found⟩ := Option.isSome_iff_exists.1 listed
  rw [contains_ofFiles, read_ofFiles, fixed, found]
  exact ⟨rfl, content, rfl, rfl⟩

/-- A path can fail to be read only as one that is not there. -/
theorem eq_notFound_of_read {e : PackageError}
    (failed : (ofFiles name files).read path = .error e) : e = .notFound path := by
  rw [read_ofFiles] at failed
  cases found : lastContent? (cleanPath path) files with
  | some content =>
      rw [found] at failed
      exact nomatch failed
  | none =>
      rw [found] at failed
      exact (Except.error.inj failed).symm

end Package

end AddonAudit
