import AddonAudit.Manifest.Chrome
import AddonAudit.Proofs.Numbering
import AddonAudit.Proofs.VersionRules

/-!
# Layouts of registration manifests

The same instructions can be laid out in many ways: with any white space around their words, with
lines that hold no instruction, with comments, and with either kind of line end. A layout says all
of that about a source, and reading the source gives back its instructions and the numbers of their
lines, nothing else.
-/

namespace AddonAudit

namespace Text

variable {cs word : List Char}

theorem wordsOf_cons (word : List Char) (c : Char) (rest : List Char) :
    wordsOf word (c :: rest) =
      if isBlank c then
        if word.isEmpty then wordsOf [] rest else String.ofList word.reverse :: wordsOf [] rest
      else wordsOf (c :: word) rest := by
  cases word <;> rfl

theorem wordsOf_blanks (blank : ∀ c ∈ cs, isBlank c = true) (rest : List Char) :
    wordsOf [] (cs ++ rest) = wordsOf [] rest := by
  induction cs with
  | nil => rfl
  | cons c cs ih =>
      rw [List.cons_append, wordsOf_cons, if_pos (blank c List.mem_cons_self)]
      exact ih fun d mem => blank d (List.mem_cons_of_mem c mem)

/-- The characters of a word are collected from behind. -/
theorem wordsOf_letters (letters : ∀ c ∈ cs, isBlank c = false) (rest : List Char) :
    wordsOf word (cs ++ rest) = wordsOf (cs.reverse ++ word) rest := by
  induction cs generalizing word with
  | nil => rfl
  | cons c cs ih =>
      have letter : ¬isBlank c = true := by simp [letters c List.mem_cons_self]
      rw [List.cons_append, wordsOf_cons, if_neg letter, ih fun d mem =>
        letters d (List.mem_cons_of_mem c mem),
        List.reverse_cons, List.append_assoc, List.singleton_append]

/-- White space ends a word. -/
theorem wordsOf_blank {b : Char} (started : word ≠ []) (blank : isBlank b = true)
    (rest : List Char) :
    wordsOf word (b :: rest) = String.ofList word.reverse :: wordsOf [] rest := by
  have nonempty : ¬word.isEmpty = true := by simpa using started
  rw [wordsOf_cons, if_pos blank, if_neg nonempty]

/-- White space at the end of a text is in no word. -/
theorem wordsOf_concat_blank {b : Char} (blank : isBlank b = true) (word cs : List Char) :
    wordsOf word (cs ++ [b]) = wordsOf word cs := by
  induction cs generalizing word with
  | nil =>
      cases word with
      | nil =>
          have alone : ∀ c ∈ [b], isBlank c = true := by simpa using blank
          exact wordsOf_blanks alone []
      | cons c word =>
          rw [List.nil_append, wordsOf_blank (List.cons_ne_nil c word) blank]
          rfl
  | cons c cs ih =>
      rw [List.cons_append, wordsOf_cons, wordsOf_cons, ih, ih]

/-- A text of blanks ends the word before it and has no word of its own. -/
theorem wordsOf_blanks_end (started : word ≠ []) (blank : ∀ c ∈ cs, isBlank c = true) :
    wordsOf word cs = [String.ofList word.reverse] := by
  cases cs with
  | nil =>
      cases word with
      | nil => exact absurd rfl started
      | cons c word => rfl
  | cons c cs =>
      have wordless := wordsOf_blanks (fun d mem => blank d (List.mem_cons_of_mem c mem)) []
      rw [List.append_nil] at wordless
      rw [wordsOf_blank started (blank c List.mem_cons_self), wordless]
      rfl

theorem splitChars_intercalate {sep : Char} {pieces : List (List Char)} (nonempty : pieces ≠ [])
    (whole : ∀ piece ∈ pieces, sep ∉ piece) :
    splitChars sep ([sep].intercalate pieces) = pieces := by
  induction pieces with
  | nil => exact absurd rfl nonempty
  | cons piece pieces ih =>
      have first := splitChars_of_not_mem (whole piece List.mem_cons_self)
      cases pieces with
      | nil => rw [List.intercalate_singleton, first]
      | cons next pieces =>
          rw [List.intercalate_cons_cons, List.append_assoc, List.singleton_append,
            splitChars_append_sep, first, ih (List.cons_ne_nil _ _) fun piece mem =>
              whole piece (List.mem_cons_of_mem _ mem)]
          rfl

end Text

namespace Chrome

/-! ## Line ends -/

/-- White space at the end of a line does not count, whether a comment hides it or not. -/
theorem entryOf?_concat_blank {b : Char} (blank : Text.isBlank b = true) (file : String)
    (number : Nat) (line : List Char) :
    entryOf? file number (line ++ [b]) = entryOf? file number line := by
  have other : b ≠ '#' := by
    rintro rfl
    exact absurd blank (by decide)
  have same : Text.wordsOf [] ((line ++ [b]).takeWhile (· ≠ '#')) =
      Text.wordsOf [] (line.takeWhile (· ≠ '#')) := by
    by_cases plain : ∀ c ∈ line, c ≠ '#'
    · have all : line.takeWhile (· ≠ '#') = line :=
        List.takeWhile_eq_self_iff.2 fun c mem => decide_eq_true (plain c mem)
      have last : [b].takeWhile (· ≠ '#') = [b] := by simp [other]
      rw [List.takeWhile_append_of_pos fun c mem => decide_eq_true (plain c mem), all, last,
        Text.wordsOf_concat_blank blank]
    · have short : (line.takeWhile (· ≠ '#')).length ≠ line.length := by
        intro full
        have all := (List.takeWhile_sublist (· ≠ '#')).eq_of_length full
        exact plain fun c mem => of_decide_eq_true (List.takeWhile_eq_self_iff.1 all c mem)
      rw [List.takeWhile_append, if_neg short]
  rw [entryOf?, entryOf?, Text.words, Text.words, String.toList_ofList, String.toList_ofList, same]

theorem entryOf?_dropReturn (file : String) (number : Nat) (line : List Char) :
    entryOf? file number (Text.dropReturn line) = entryOf? file number line := by
  obtain ⟨tail, whole, plain | returns⟩ := Text.dropReturn_append line
  · rw [plain, List.append_nil] at whole
    rw [← whole]
  · have same := entryOf?_concat_blank (show Text.isBlank '\r' = true by decide) file number
      (Text.dropReturn line)
    rw [returns] at whole
    rw [← same, ← whole]

theorem entriesFrom_append (file : String) (number : Nat) (lines more : List (List Char)) :
    entriesFrom file number (lines ++ more) =
      entriesFrom file number lines ++ entriesFrom file (number + lines.length) more := by
  induction lines generalizing number with
  | nil => rfl
  | cons line lines ih =>
      rw [List.cons_append, entriesFrom, entriesFrom, ih, List.append_assoc, List.length_cons,
        Nat.add_right_comm, Nat.add_assoc]

theorem entriesFrom_map_dropReturn (file : String) (number : Nat) (lines : List (List Char)) :
    entriesFrom file number (lines.map Text.dropReturn) = entriesFrom file number lines := by
  induction lines generalizing number with
  | nil => rfl
  | cons line lines ih => rw [List.map_cons, entriesFrom, entriesFrom, entryOf?_dropReturn, ih]

/-- The instructions of a source are those between its newlines: what lines leave out of it is
blank. -/
theorem parse_eq (source : List Char) (file : String) :
    Manifest.parse source file = entriesFrom file 1 (Text.splitChars '\n' source) := by
  obtain ⟨front, last, split⟩ := Text.exists_front source
  rw [Manifest.parse, Text.linesOf_eq split, split, entriesFrom_append, entriesFrom_append,
    entriesFrom_map_dropReturn, List.length_map]
  by_cases empty : last = []
  · rw [if_pos empty, empty]
    rfl
  · rw [if_neg empty]

/-! ## Layouts -/

/-- White space on one line. -/
structure Space where
  text : List Char
  blank : ∀ c ∈ text, Text.isBlank c = true
  oneLine : '\n' ∉ text

/-- White space between two words. -/
structure Gap extends Space where
  nonempty : text ≠ []

/-- A word of an instruction. -/
structure Word where
  text : List Char
  nonempty : text ≠ []
  letters : ∀ c ∈ text, Text.isBlank c = false
  noComment : '#' ∉ text

/-- A comment, without its number sign. -/
structure Comment where
  text : List Char
  oneLine : '\n' ∉ text

/-- An instruction: its kind, and its arguments with the white space before each of them. -/
structure Instruction where
  kind : Word
  args : List (Gap × Word)

/-- A line of a manifest. Each part of it but white space may be missing, and white space may be
empty. -/
structure Row where
  indent : Space
  instruction : Option Instruction
  trail : Space
  comment : Option Comment

def Instruction.text (instruction : Instruction) : List Char :=
  instruction.kind.text ++ instruction.args.flatMap fun arg => arg.1.text ++ arg.2.text

def Comment.whole (comment : Comment) : List Char :=
  '#' :: comment.text

namespace Row

/-- What is before the comment of a line. -/
def code (row : Row) : List Char :=
  row.indent.text ++ row.instruction.elim [] Instruction.text ++ row.trail.text

def text (row : Row) : List Char :=
  row.code ++ row.comment.elim [] Comment.whole

/-- The instruction of a line, as it is to be read. -/
def listed? (file : String) (number : Nat) (row : Row) : Option Entry :=
  row.instruction.map fun instruction =>
    ⟨String.ofList instruction.kind.text, instruction.args.map fun arg => String.ofList arg.2.text,
      file, number⟩

end Row

/-- A source with the lines given. It ends with a newline if its last line is empty. -/
def source (rows : List Row) : List Char :=
  ['\n'].intercalate (rows.map Row.text)

/-- The instructions of lines, with the numbers of the lines from one on. -/
def listed (file : String) (rows : List Row) : Manifest :=
  (rows.zipIdx 1).filterMap fun numbered => numbered.1.listed? file numbered.2

/-! ## Reading a layout -/

/-- The arguments that follow a word. -/
theorem wordsOf_args {word : List Char} (started : word ≠ []) (args : List (Gap × Word))
    (trail : Space) :
    Text.wordsOf word ((args.flatMap fun arg => arg.1.text ++ arg.2.text) ++ trail.text) =
      String.ofList word.reverse :: args.map fun arg => String.ofList arg.2.text := by
  induction args generalizing word with
  | nil =>
      have alone := Text.wordsOf_blanks_end started trail.blank
      simpa using alone
  | cons arg args ih =>
      obtain ⟨gap, next⟩ := arg
      obtain ⟨b, blanks, isGap⟩ := List.exists_cons_of_ne_nil gap.nonempty
      have blank := gap.blank
      rw [isGap] at blank
      have follows : next.text.reverse ≠ [] := List.reverse_ne_nil_iff.2 next.nonempty
      rw [List.flatMap_cons, isGap, List.append_assoc, List.append_assoc, List.cons_append,
        Text.wordsOf_blank started (blank b List.mem_cons_self),
        Text.wordsOf_blanks fun c mem => blank c (List.mem_cons_of_mem b mem),
        Text.wordsOf_letters next.letters, List.append_nil, ih follows, List.reverse_reverse]
      rfl

theorem not_mem_of_blank {space : List Char} (blank : ∀ c ∈ space, Text.isBlank c = true) {c : Char}
    (other : Text.isBlank c = false) : c ∉ space := by
  intro mem
  exact absurd (blank c mem) (by simp [other])

theorem not_mem_of_letters {word : List Char}
    (letters : ∀ c ∈ word, Text.isBlank c = false) {c : Char} (blank : Text.isBlank c = true) :
    c ∉ word := by
  intro mem
  exact absurd (letters c mem) (by simp [blank])

theorem Instruction.number_sign_not_mem (instruction : Instruction) : '#' ∉ instruction.text := by
  simp only [Instruction.text, List.mem_append, List.mem_flatMap, not_or, not_exists, not_and]
  refine ⟨instruction.kind.noComment, ?_⟩
  intro arg _
  exact ⟨not_mem_of_blank arg.1.blank (by decide), arg.2.noComment⟩

theorem Instruction.newline_not_mem (instruction : Instruction) : '\n' ∉ instruction.text := by
  simp only [Instruction.text, List.mem_append, List.mem_flatMap, not_or, not_exists, not_and]
  refine ⟨not_mem_of_letters instruction.kind.letters (by decide), ?_⟩
  intro arg _
  exact ⟨arg.1.oneLine, not_mem_of_letters arg.2.letters (by decide)⟩

namespace Row

variable (row : Row)

theorem number_sign_not_mem_code : '#' ∉ row.code := by
  have indent := not_mem_of_blank row.indent.blank (show Text.isBlank '#' = false by decide)
  have trail := not_mem_of_blank row.trail.blank (show Text.isBlank '#' = false by decide)
  cases isInstruction : row.instruction with
  | none => simp [code, isInstruction, indent, trail]
  | some instruction => simp [code, isInstruction, indent, trail, instruction.number_sign_not_mem]

theorem newline_not_mem_text : '\n' ∉ row.text := by
  have code : '\n' ∉ row.code := by
    have indent := row.indent.oneLine
    have trail := row.trail.oneLine
    cases isInstruction : row.instruction with
    | none => simp [code, isInstruction, indent, trail]
    | some instruction => simp [code, isInstruction, indent, trail, instruction.newline_not_mem]
  cases isComment : row.comment with
  | none => simp [text, isComment, code]
  | some comment => simp [text, isComment, code, Comment.whole, comment.oneLine]

/-- A comment is cut off. -/
theorem takeWhile_text : row.text.takeWhile (· ≠ '#') = row.code := by
  have whole : ∀ c ∈ row.code, decide (c ≠ '#') = true := by
    intro c mem
    exact decide_eq_true fun same => row.number_sign_not_mem_code (same ▸ mem)
  rw [text, List.takeWhile_append_of_pos whole]
  cases row.comment with
  | none => exact List.append_nil _
  | some comment => exact List.append_nil _

theorem wordsOf_code :
    Text.wordsOf [] row.code = row.instruction.elim [] fun instruction =>
      String.ofList instruction.kind.text :: instruction.args.map fun arg =>
        String.ofList arg.2.text := by
  rw [code, List.append_assoc, Text.wordsOf_blanks row.indent.blank]
  cases row.instruction with
  | none =>
      have wordless := Text.wordsOf_blanks row.trail.blank []
      rw [List.append_nil] at wordless
      exact wordless
  | some instruction =>
      have started : instruction.kind.text.reverse ≠ [] :=
        List.reverse_ne_nil_iff.2 instruction.kind.nonempty
      rw [Option.elim_some, Instruction.text, List.append_assoc,
        Text.wordsOf_letters instruction.kind.letters, List.append_nil, wordsOf_args started,
        List.reverse_reverse]
      rfl

/-- A line is read as its instruction, if it has one. -/
theorem entryOf?_text (file : String) (number : Nat) :
    entryOf? file number row.text = row.listed? file number := by
  rw [entryOf?, takeWhile_text, Text.words, String.toList_ofList, wordsOf_code, listed?]
  cases row.instruction <;> rfl

end Row

/-- Lines are numbered whether they have an instruction or not. -/
theorem entriesFrom_rows (file : String) (number : Nat) (rows : List Row) :
    entriesFrom file number (rows.map Row.text) =
      (rows.zipIdx number).filterMap fun numbered => numbered.1.listed? file numbered.2 := by
  induction rows generalizing number with
  | nil => rfl
  | cons row rows ih =>
      rw [List.map_cons, entriesFrom, row.entryOf?_text, ih, List.zipIdx_cons, List.filterMap_cons]
      cases row.listed? file number <;> rfl

theorem parse_source (file : String) (rows : List Row) :
    Manifest.parse (source rows) file = listed file rows := by
  cases rows with
  | nil => rfl
  | cons row rows =>
      have nonempty : (row :: rows).map Row.text ≠ [] := List.cons_ne_nil _ _
      have whole : ∀ line ∈ (row :: rows).map Row.text, '\n' ∉ line := by
        intro line mem
        obtain ⟨row, -, rfl⟩ := List.mem_map.1 mem
        exact row.newline_not_mem_text
      rw [parse_eq, source, Text.splitChars_intercalate nonempty whole, entriesFrom_rows, listed]

/-- Every layout of instructions is read as exactly these instructions, in order, each with the
number of its line; and each source that extends a manifest adds its own instructions behind those
that are there, numbered from its own first line. -/
theorem instructions_read_from_layout :
    (∀ (file : String) (rows : List Row), Manifest.parse (source rows) file = listed file rows) ∧
      ∀ (m : Manifest) (sources : List (String × List Row)),
        sources.foldl (fun m s => m.extend (source s.2) s.1) m =
          m ++ sources.flatMap fun s => listed s.1 s.2 := by
  refine ⟨parse_source, ?_⟩
  intro m sources
  induction sources generalizing m with
  | nil => exact (List.append_nil m).symm
  | cons s sources ih =>
      rw [List.foldl_cons, ih, Manifest.extend, parse_source, List.append_assoc, List.flatMap_cons]

/-- White space is a text of blanks that do not end a line. -/
def Space.ofText (text : List Char)
    (blank : (text.all fun c => Text.isBlank c && c ≠ '\n') = true := by decide) : Space where
  text := text
  blank c mem := (Bool.and_eq_true_iff.1 (List.all_eq_true.1 blank c mem)).1
  oneLine mem := absurd (Bool.and_eq_true_iff.1 (List.all_eq_true.1 blank '\n' mem)).2 (by decide)

/-- A word is a text without blanks and number signs. -/
def Word.ofText (text : List Char) (nonempty : text ≠ [] := by decide)
    (plain : (text.all fun c => !Text.isBlank c && c ≠ '#') = true := by decide) : Word where
  text := text
  nonempty := nonempty
  letters c mem := by
    have letter := (Bool.and_eq_true_iff.1 (List.all_eq_true.1 plain c mem)).1
    rwa [Bool.not_eq_true'] at letter
  noComment mem := absurd (Bool.and_eq_true_iff.1 (List.all_eq_true.1 plain '#' mem)).2 (by decide)

/-- An indented instruction before a line end with a carriage return, a blank line, a comment, and
an instruction with a comment behind it. -/
def sampleRows : List Row :=
  let nothing : Space := .ofText []
  let returns : Space := .ofText "\r".toList
  let gap : Gap := ⟨.ofText " \t".toList, by decide⟩
  let skin : Instruction :=
    ⟨.ofText "skin".toList, [(gap, .ofText "a".toList), (gap, .ofText "b/".toList)]⟩
  let overlay : Instruction := ⟨.ofText "overlay".toList, [(gap, .ofText "d".toList)]⟩
  [⟨.ofText "\t".toList, some skin, returns, none⟩, ⟨nothing, none, returns, none⟩,
    ⟨nothing, none, nothing, some ⟨"skin c".toList, by decide⟩⟩,
    ⟨nothing, some overlay, nothing, some ⟨" e".toList, by decide⟩⟩]

theorem instructions_read_from_layout_sample :
    source sampleRows = "\tskin \ta \tb/\r\n\r\n#skin c\noverlay \td# e".toList ∧
      Manifest.parse (source sampleRows) "a.manifest" =
        [⟨"skin", ["a", "b/"], "a.manifest", 1⟩, ⟨"overlay", ["d"], "a.manifest", 4⟩] ∧
      (Manifest.parse (source sampleRows) "a.manifest").extend (source sampleRows) "b.manifest" =
        [⟨"skin", ["a", "b/"], "a.manifest", 1⟩, ⟨"overlay", ["d"], "a.manifest", 4⟩,
          ⟨"skin", ["a", "b/"], "b.manifest", 1⟩, ⟨"overlay", ["d"], "b.manifest", 4⟩] := by
  obtain ⟨reads, appends⟩ := instructions_read_from_layout
  have first := reads "a.manifest" sampleRows
  have second :=
    appends (Manifest.parse (source sampleRows) "a.manifest") [("b.manifest", sampleRows)]
  refine ⟨by decide, first.trans (by decide), second.trans ?_⟩
  rw [first]
  decide

end Chrome

end AddonAudit
