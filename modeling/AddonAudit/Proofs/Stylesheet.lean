import AddonAudit.Check.Stylesheet
import AddonAudit.Proofs.Matching
import AddonAudit.Proofs.Numbering
import AddonAudit.Proofs.Reports

/-!
# Places in stylesheets

A stylesheet is searched with its comments blanked. Each character of a comment becomes one space,
but columns are counted in bytes. The ends of lines are kept, so every character keeps its line. It
keeps its column only if the comments before it on its line have no wide characters: each of those
moves what follows it to the left, by all of its bytes but one.
-/

namespace AddonAudit

namespace Text

/-- The line of the character with an index. -/
def lineOf (cs : List Char) (i : Nat) : Nat :=
  (Lines.ofChars cs).lineAt (utf8Length (cs.take i))

/-- The column of the character with an index. -/
def columnOf (cs : List Char) (i : Nat) : Nat :=
  (Lines.ofChars cs).columnAt (utf8Length (cs.take i))

end Text

namespace Stylesheet

/-! ## Comments -/

/-- A comment goes to the first mark that ends one. -/
def IsComment (cs : List Char) : Prop :=
  ∃ body, cs = ['/', '*'] ++ body ++ ['*', '/'] ∧ ¬['*', '/'] <:+: body ++ ['*']

/-- A character of a stylesheet, and whether it belongs to a comment. -/
structure Spot where
  char : Char
  inComment : Bool

/-- A stylesheet whose comments are known: from left to right, whatever starts a comment belongs to
one. -/
inductive Commented : List Spot → Prop where
  | nil : Commented []
  | comment {text : List Char} {rest : List Spot} (isComment : IsComment text)
      (after : Commented rest) :
      Commented (text.map (⟨·, true⟩) ++ rest)
  | code {c : Char} {rest : List Spot}
      (noComment : ∀ text, IsComment text → ¬text <+: c :: rest.map Spot.char)
      (after : Commented rest) : Commented (⟨c, false⟩ :: rest)

theorem not_isComment_nil : ¬IsComment [] := by
  rintro ⟨body, empty, -⟩
  cases empty

theorem length_le_of_isComment {text other : List Char} (isComment : IsComment text)
    (isOther : IsComment other) {rest rest' : List Char} (same : text ++ rest = other ++ rest') :
    other.length ≤ text.length := by
  obtain ⟨body, rfl, -⟩ := isComment
  obtain ⟨body', rfl, first⟩ := isOther
  by_contra longer
  simp only [List.length_append, List.length_cons, List.length_nil] at longer
  -- the end of the shorter comment would be inside of the longer one
  have tails : body ++ ['*', '/'] ++ rest = body' ++ ['*'] ++ '/' :: rest' := by
    simpa using same
  apply first
  have inside : body ++ ['*', '/'] <+: body' ++ ['*'] := by
    refine List.prefix_of_prefix_length_le ⟨rest, tails⟩ (List.prefix_append _ _) ?_
    simp only [List.length_append, List.length_cons, List.length_nil]
    omega
  exact (List.suffix_append body _).isInfix.trans inside.isInfix

/-- At most one comment starts at a place. -/
theorem eq_of_isComment {text other : List Char} (isComment : IsComment text)
    (isOther : IsComment other) {rest rest' : List Char} (same : text ++ rest = other ++ rest') :
    text = other := by
  have length := Nat.le_antisymm (length_le_of_isComment isOther isComment same.symm)
    (length_le_of_isComment isComment isOther same)
  exact (List.append_inj same length).1

theorem map_char_comment (text : List Char) :
    (text.map fun c => (⟨c, true⟩ : Spot)).map Spot.char = text := by
  rw [List.map_map]
  exact List.map_id' text

/-- There is one way to tell the comments of a stylesheet from the rest. -/
theorem Commented.unique {spots other : List Spot} (commented : Commented spots)
    (isOther : Commented other) (same : spots.map Spot.char = other.map Spot.char) :
    spots = other := by
  induction commented generalizing other with
  | nil => exact (List.map_eq_nil_iff.1 same.symm).symm
  | @comment text rest isComment _ ih =>
      rw [List.map_append, map_char_comment] at same
      cases isOther with
      | nil =>
          rw [List.map_nil, List.append_eq_nil_iff] at same
          exact absurd (same.1 ▸ isComment) not_isComment_nil
      | comment isComment' after =>
          rw [List.map_append, map_char_comment] at same
          obtain rfl := eq_of_isComment isComment isComment' same
          rw [ih after (List.append_cancel_left same)]
      | code noComment after => exact absurd ⟨_, same⟩ (noComment text isComment)
  | @code c rest noComment _ ih =>
      cases isOther with
      | nil => cases same
      | comment isComment after =>
          rw [List.map_append, map_char_comment] at same
          exact absurd ⟨_, same.symm⟩ (noComment _ isComment)
      | code _ after =>
          obtain ⟨first, later⟩ := List.cons.inj same
          cases first
          rw [ih after later]

/-- What a search for a mark that ends a comment goes on with. -/
def closes : Pattern.Continuation :=
  fun d => if ['*', '/'] <+: d.rest then some (d.skip ['*', '/']) else none

theorem run_comment (c : Pattern.Cursor) :
    comment.run c some =
      if ['/', '*'] <+: c.rest then
        Pattern.repeatFrom (Pattern.one fun _ => true).run false
          ((c.skip ['/', '*']).rest.length + 1)
          (c.skip ['/', '*']) closes
      else none := by
  rw [comment, Pattern.run_all_cons, Pattern.run_text]
  simp only [Pattern.run_all_cons, Pattern.run_text]
  rfl

/-- A mark inside of a comment would end it before. -/
theorem not_infix_of_first {tail : List Char} {k : Nat} (stands : ['*', '/'] <+: tail.drop k)
    (first : ∀ j < k, ¬['*', '/'] <+: tail.drop j) : ¬['*', '/'] <:+: tail.take k ++ ['*'] := by
  rintro ⟨x, z, inside⟩
  obtain ⟨after, behind⟩ := stands
  have whole : tail = x ++ (['*', '/'] ++ (z ++ '/' :: after)) := by
    calc tail = tail.take k ++ tail.drop k := (List.take_append_drop k tail).symm
      _ = tail.take k ++ ['*'] ++ '/' :: after := by rw [← behind, List.append_assoc]; rfl
      _ = x ++ (['*', '/'] ++ (z ++ '/' :: after)) := by
          rw [← inside, List.append_assoc, List.append_assoc]
  have earlier : x.length < k := by
    have length := congrArg List.length inside
    have taken := List.length_take_le k tail
    simp only [List.length_append, List.length_cons, List.length_nil] at length
    omega
  apply first x.length earlier
  rw [whole, List.drop_left]
  exact List.prefix_append _ _

theorem closes_eq_none {d : Pattern.Cursor} (fails : closes d = none) : ¬['*', '/'] <+: d.rest := by
  intro stands
  rw [closes, if_pos stands] at fails
  cases fails

theorem rest_of_closes {d e : Pattern.Cursor} (found : closes d = some e) :
    d.rest = ['*', '/'] ++ e.rest := by
  rw [closes] at found
  split at found
  next stands =>
    obtain ⟨after, rest⟩ := stands
    cases found
    rw [Pattern.Cursor.rest_skip, ← rest]
    rfl
  · cases found

/-- Behind the start of a comment the first mark that ends it is found, if there is one. -/
theorem repeatFrom_closes (start : Pattern.Cursor) :
    (∃ body d, start.rest = body ++ ['*', '/'] ++ d.rest ∧ ¬['*', '/'] <:+: body ++ ['*'] ∧
      Pattern.repeatFrom (Pattern.one fun _ => true).run false (start.rest.length + 1) start
        closes = some d) ∨
    ¬['*', '/'] <:+: start.rest ∧
      Pattern.repeatFrom (Pattern.one fun _ => true).run false (start.rest.length + 1) start
        closes = none := by
  have behind : ∀ {k}, k ≤ start.rest.length → (start.skip (start.rest.take k)).rest =
      start.rest.drop k := by
    intro k inside
    rw [Pattern.Cursor.rest_skip, List.length_take_of_le inside]
  rcases Pattern.repeatFrom_shortest closes (Nat.lt_succ_self start.rest.length) with
    ⟨k, d, inside, early, found, result⟩ | ⟨nowhere, result⟩
  · have stands := rest_of_closes found
    rw [behind inside] at stands
    refine .inl ⟨start.rest.take k, d, ?_, ?_, result⟩
    · rw [List.append_assoc, ← stands, List.take_append_drop]
    · apply not_infix_of_first
      · rw [stands]
        exact List.prefix_append _ _
      · intro j below
        have unclosed := closes_eq_none (early j below)
        rwa [behind (Nat.le_of_lt (Nat.lt_of_lt_of_le below inside))] at unclosed
  · refine .inr ⟨?_, result⟩
    rintro ⟨x, z, whole⟩
    have inside : x.length ≤ start.rest.length := by
      rw [← whole, List.append_assoc, List.length_append]
      exact Nat.le_add_right _ _
    have unclosed := closes_eq_none (nowhere x.length inside)
    rw [behind inside, ← whole, List.append_assoc, List.drop_left] at unclosed
    exact unclosed (List.prefix_append _ _)

/-- The search stops behind a comment that starts at the place, and finds nothing if there is
none. -/
theorem matchAt?_comment (c : Pattern.Cursor) :
    (∃ text m, IsComment text ∧ c.rest = text ++ m.stop.rest ∧ comment.matchAt? c = some m) ∨
      (∀ text, IsComment text → ¬text <+: c.rest) ∧ comment.matchAt? c = none := by
  rw [Pattern.matchAt?, run_comment]
  by_cases opens : ['/', '*'] <+: c.rest
  · have rest :
        c.rest = ['/', '*'] ++ (Pattern.Cursor.skip { c with groups := [] } ['/', '*']).rest := by
      rw [Pattern.Cursor.rest_skip]
      exact (List.prefix_iff_eq_append.1 opens).symm
    simp only [if_pos opens]
    rcases repeatFrom_closes (Pattern.Cursor.skip { c with groups := [] } ['/', '*']) with
      ⟨body, d, closed, first, found⟩ | ⟨never, found⟩
    · refine .inl ⟨['/', '*'] ++ body ++ ['*', '/'], ⟨c.offset, d⟩, ⟨body, rfl, first⟩, ?_, ?_⟩
      · rw [rest, closed]
        simp only [List.append_assoc]
      · rw [found]
        rfl
    · refine .inr ⟨?_, ?_⟩
      · rintro text ⟨body, rfl, -⟩ ⟨after, whole⟩
        apply never
        rw [rest, List.append_assoc, List.append_assoc] at whole
        rw [← List.append_cancel_left whole, ← List.append_assoc]
        exact List.infix_append _ _ _
      · rw [found]
        rfl
  · refine .inr ⟨?_, by simp only [if_neg opens]; rfl⟩
    rintro text ⟨body, rfl, -⟩ stands
    rw [List.append_assoc] at stands
    exact opens ((List.prefix_append _ _).trans stands)

/-! ## Blanking -/

/-- What is left of a character. -/
def Spot.shown (s : Spot) : Char :=
  if s.inComment = true ∧ s.char ≠ '\n' then ' ' else s.char

/-- The bytes of a character that are lost. -/
def Spot.lost (s : Spot) : Nat :=
  if s.inComment then s.char.utf8Size - 1 else 0

theorem map_shown_comment (text : List Char) :
    (text.map fun c => (⟨c, true⟩ : Spot)).map Spot.shown = blankOut text := by
  rw [blankOut, List.map_map]
  apply List.map_congr_left
  intro c _
  by_cases newline : c = '\n' <;> simp [Spot.shown, newline]

/-- The characters of all comments are blanked, and no others are. -/
theorem exists_commented (source : List Char) :
    ∃ spots, Commented spots ∧ source = spots.map Spot.char ∧
      withoutComments source = spots.map Spot.shown := by
  refine Pattern.replaceAll_induction
    (R := fun source out => ∃ spots, Commented spots ∧ source = spots.map Spot.char ∧
      out = spots.map Spot.shown) ⟨[], .nil, rfl, rfl⟩ ?_ ?_ source
  · rintro before c cs out idle ⟨spots, commented, rfl, rfl⟩
    rcases matchAt?_comment { before, rest := c :: spots.map Spot.char } with
      ⟨text, m, isComment, whole, found⟩ | ⟨noComment, -⟩
    · obtain ⟨body, rfl, -⟩ := isComment
      have length := congrArg List.length whole
      rw [idle m found] at length
      simp only [List.length_append, List.length_cons] at length
      omega
    · exact ⟨⟨c, false⟩ :: spots, .code noComment commented, rfl, rfl⟩
  · rintro before m taken rest out found stop ⟨spots, commented, rfl, rfl⟩
    rcases matchAt?_comment { before, rest := taken ++ spots.map Spot.char } with
      ⟨text, m', isComment, whole, found'⟩ | ⟨-, unmatched⟩
    · cases found.symm.trans found'
      rw [stop] at whole
      have whole : taken ++ spots.map Spot.char = text ++ spots.map Spot.char := whole
      obtain rfl := List.append_cancel_right whole
      refine ⟨_, .comment isComment commented, ?_, ?_⟩
      · rw [List.map_append, map_char_comment]
      · rw [List.map_append, map_shown_comment]
    · cases found.symm.trans unmatched

/-! ## Places -/

/-- What follows the last line end. -/
def lastLine (spots : List Spot) : List Spot :=
  (spots.reverse.takeWhile (·.char ≠ '\n')).reverse

/-- The bytes of characters that are lost. -/
def lostIn : List Spot → Nat
  | [] => 0
  | s :: rest => s.lost + lostIn rest

/-- The bytes that are lost in the line of the place behind some characters. -/
def lostBefore (spots : List Spot) : Nat :=
  lostIn (lastLine spots)

theorem exists_lastLine (spots : List Spot) :
    ∃ front, spots = front ++ lastLine spots ∧ ∀ s ∈ front.getLast?, s.char = '\n' := by
  obtain ⟨front, split, stops⟩ := Text.exists_lastRun (·.char ≠ '\n') spots
  refine ⟨front, split, ?_⟩
  intro s mem
  simpa using stops s mem

theorem char_ne_of_mem_lastLine {spots : List Spot} {s : Spot} (mem : s ∈ lastLine spots) :
    s.char ≠ '\n' := by
  rw [lastLine, List.mem_reverse] at mem
  simpa using List.mem_takeWhile_imp mem

/-- Characters that are changed, but not into line ends or from line ends, stay on their line,
behind what the characters before them on the line are changed into. -/
theorem place_map {f : Spot → Char} (ends : ∀ s, f s = '\n' ↔ s.char = '\n')
    (spots : List Spot) (i : Nat) :
    Text.lineOf (spots.map f) i = (spots.take i).countP (·.char = '\n') + 1 ∧
      Text.columnOf (spots.map f) i = Text.utf8Length ((lastLine (spots.take i)).map f) := by
  obtain ⟨front, split, last⟩ := exists_lastLine (spots.take i)
  have other : ∀ s ∈ lastLine (spots.take i), s.char ≠ '\n' :=
    fun s mem => char_ne_of_mem_lastLine mem
  generalize lastLine (spots.take i) = line at split other ⊢
  have fresh : front.map f = [] ∨ (front.map f).getLast? = some '\n' := by
    rw [List.map_eq_nil_iff, List.getLast?_map]
    cases isLast : front.getLast? with
    | none => exact .inl (List.getLast?_eq_none_iff.1 isLast)
    | some s => exact .inr (congrArg some ((ends s).2 (last s isLast)))
  have one : '\n' ∉ line.map f := by
    intro mem
    obtain ⟨s, inLine, newline⟩ := List.mem_map.1 mem
    exact other s inLine ((ends s).1 newline)
  have count : (front.map f).count '\n' = (spots.take i).countP (·.char = '\n') := by
    have noNewline : line.countP (·.char = '\n') = 0 := by
      rw [List.countP_eq_zero]
      intro s mem
      simpa using other s mem
    rw [split, List.countP_append, noNewline, Nat.add_zero, List.count, List.countP_map]
    apply List.countP_congr
    intro s _
    simp [ends s]
  have whole : spots.map f = front.map f ++ line.map f ++ (spots.drop i).map f := by
    rw [← List.map_append, ← split, ← List.map_append, List.take_append_drop]
  have offset : Text.utf8Length ((spots.map f).take i) =
      Text.utf8Length (front.map f) + Text.utf8Length (line.map f) := by
    rw [← List.map_take, split, List.map_append, Text.utf8Length_append]
  have place := Text.Lines.place_of_fresh fresh one ((spots.drop i).map f) (Nat.le_refl _)
  rw [Text.lineOf, Text.columnOf, offset, whole, ← count]
  exact place

theorem shown_eq_newline (s : Spot) : s.shown = '\n' ↔ s.char = '\n' := by
  rw [Spot.shown]
  split
  next blanked =>
    refine iff_of_false ?_ blanked.2
    decide
  · rfl

theorem utf8Size_shown (s : Spot) : s.shown.utf8Size + s.lost = s.char.utf8Size := by
  have size := s.char.utf8Size_pos
  rw [Spot.shown, Spot.lost]
  by_cases inComment : s.inComment = true
  · by_cases newline : s.char = '\n'
    · rw [if_neg (fun blanked => blanked.2 newline), if_pos inComment, newline]
      rfl
    · have space : ' '.utf8Size = 1 := rfl
      rw [if_pos ⟨inComment, newline⟩, if_pos inComment, space]
      omega
  · rw [if_neg (fun blanked => inComment blanked.1), if_neg inComment, Nat.add_zero]

theorem utf8Length_shown (spots : List Spot) :
    Text.utf8Length (spots.map Spot.shown) + lostIn spots =
      Text.utf8Length (spots.map Spot.char) := by
  induction spots with
  | nil => rfl
  | cons s spots ih =>
      have size := utf8Size_shown s
      simp only [List.map_cons, Text.utf8Length_cons, lostIn]
      omega

theorem lost_eq_zero (s : Spot) : s.lost = 0 ↔ (s.inComment = true → s.char.utf8Size = 1) := by
  have size := s.char.utf8Size_pos
  rw [Spot.lost]
  split
  next inComment =>
    simp only [inComment, true_imp_iff]
    omega
  next outside => simp [outside]

theorem lostIn_eq_zero (spots : List Spot) :
    lostIn spots = 0 ↔ ∀ s ∈ spots, s.inComment = true → s.char.utf8Size = 1 := by
  induction spots with
  | nil => simp [lostIn]
  | cons s spots ih => rw [lostIn, Nat.add_eq_zero_iff, lost_eq_zero, ih, List.forall_mem_cons]

/-! ## Bindings -/

/-- The name of a binding, in any case and outside of comments, with what follows it. -/
def StartsBinding (spots : List Spot) : Prop :=
  ∃ name rest, spots = name ++ rest ∧ (∀ s ∈ name, s.inComment = false) ∧
    name.map (fun s => Pattern.fold s.char) = "-moz-binding".toList

theorem inComment_of_fold {s : Spot} (letter : Pattern.fold s.shown ∈ "-moz-binding".toList) :
    s.inComment = false := by
  by_contra inComment
  rw [Bool.not_eq_false] at inComment
  by_cases newline : s.char = '\n'
  · rw [(shown_eq_newline s).2 newline] at letter
    exact absurd letter (by decide)
  · rw [Spot.shown, if_pos ⟨inComment, newline⟩] at letter
    exact absurd letter (by decide)

theorem shown_of_code {s : Spot} (outside : s.inComment = false) : s.shown = s.char := by
  rw [Spot.shown, if_neg]
  simp [outside]

/-- What the search for bindings matches starts with the name of a binding that is in the
stylesheet. -/
theorem startsBinding_of_matchAt? {spots : List Spot} {c : Pattern.Cursor} {m : Pattern.Match}
    (found : binding.matchAt? c = some m) (here : spots.map Spot.shown = c.rest) :
    StartsBinding spots := by
  obtain ⟨d, matched, -⟩ := Option.map_eq_some_iff.1 found
  rw [binding, Pattern.run_all_cons] at matched
  obtain ⟨ys, rest, whole, folds⟩ := Pattern.exists_of_run_textAnyCase matched
  have whole : spots.map Spot.shown = ys ++ rest := here.trans whole
  obtain ⟨name, more, rfl, rfl, -⟩ := List.map_eq_append_iff.1 whole
  have letters : (name.map Spot.shown).map Pattern.fold = "-moz-binding".toList :=
    folds.trans (by decide)
  have outside : ∀ s ∈ name, s.inComment = false := by
    intro s mem
    apply inComment_of_fold
    rw [← letters]
    exact List.mem_map_of_mem (List.mem_map_of_mem mem)
  refine ⟨name, more, rfl, outside, ?_⟩
  rw [← letters, List.map_map]
  apply List.map_congr_left
  intro s mem
  rw [Function.comp_apply, shown_of_code (outside s mem)]

/-- A finding at an offset of a text. -/
def IsAt (lines : Text.Lines) (offset : Nat) (f : Finding) : Prop :=
  f.line = some (lines.lineAt offset) ∧ f.column = some (lines.columnAt offset)

theorem recorded_reportBinding (file : String) (lines : Text.Lines) (m : Pattern.Match)
    (b : Bundle) :
    ∃ entry, Bundle.Recorded [entry] b (reportBinding file lines m b) ∧
      IsAt lines m.offset entry.2 := by
  rw [reportBinding]
  split
  · exact ⟨_, .add rfl .warning b, rfl, rfl⟩
  · exact ⟨_, .add rfl .notice b, rfl, rfl⟩

theorem recorded_bindings (file : String) (lines : Text.Lines) (ms : List Pattern.Match)
    (b : Bundle) :
    ∃ findings, Bundle.Recorded findings b (ms.foldl (fun b m => reportBinding file lines m b) b) ∧
      ∀ entry ∈ findings, ∃ m ∈ ms, IsAt lines m.offset entry.2 := by
  induction ms generalizing b with
  | nil => exact ⟨[], .refl b, by simp⟩
  | cons m ms ih =>
      obtain ⟨entry, first, isAt⟩ := recorded_reportBinding file lines m b
      obtain ⟨findings, later, places⟩ := ih (reportBinding file lines m b)
      refine ⟨entry :: findings, first.trans later, ?_⟩
      intro entry' mem
      rcases List.mem_cons.1 mem with rfl | mem
      · exact ⟨m, List.mem_cons_self, isAt⟩
      · obtain ⟨m', mem', isAt'⟩ := places entry' mem
        exact ⟨m', List.mem_cons_of_mem m mem', isAt'⟩

/-- Every new record of the check is about a match of the search, and has the place of the match in
the blanked text. -/
theorem exists_of_mem_newRecords (file : String) (source : List Char) (b : Bundle)
    {severity : Severity} {r : Record}
    (mem : r ∈ Bundle.newRecords b (check file source b) severity) :
    ∃ m ∈ binding.findAll (withoutComments source),
      r.line = some ((Text.Lines.ofChars (withoutComments source)).lineAt m.offset) ∧
      r.column = some ((Text.Lines.ofChars (withoutComments source)).columnAt m.offset) := by
  obtain ⟨findings, recorded, places⟩ :=
    recorded_bindings file (Text.Lines.ofChars (withoutComments source))
    (binding.findAll (withoutComments source)) b
  obtain ⟨f, isFinding, same⟩ := recorded.exists_of_mem_newRecords mem
  obtain ⟨m, isMatch, line, column⟩ := places _ isFinding
  exact ⟨m, isMatch, (congrArg Record.line same).trans line,
    (congrArg Record.column same).trans column⟩

/-- There is one way to tell the comments of a stylesheet from the rest. With the comments blanked
every character is on its line, and its column is smaller by the bytes that are lost in the comments
before it on the line. So it is the same exactly if these comments have no wide characters. Every
finding is about the name of a binding outside of comments: its line is the line of the name, and
its column is that of the name but for the bytes that are lost. -/
theorem blanking_moves_columns_only (file : String) (source : List Char) (b : Bundle) :
    ∃ spots, (∀ others, Commented others ∧ source = others.map Spot.char ↔ others = spots) ∧
      withoutComments source = spots.map Spot.shown ∧
      (∀ i, Text.lineOf (withoutComments source) i = Text.lineOf source i ∧
        Text.columnOf (withoutComments source) i + lostBefore (spots.take i) =
          Text.columnOf source i ∧
        (Text.columnOf (withoutComments source) i = Text.columnOf source i ↔
          ∀ s ∈ lastLine (spots.take i), s.inComment = true → s.char.utf8Size = 1)) ∧
      ∀ severity, ∀ r ∈ Bundle.newRecords b (check file source b) severity,
        ∃ i column, StartsBinding (spots.drop i) ∧ r.line = some (Text.lineOf source i) ∧
          r.column = some column ∧ column + lostBefore (spots.take i) = Text.columnOf source i := by
  obtain ⟨spots, commented, whole, blanked⟩ := exists_commented source
  have lines (i : Nat) : Text.lineOf (withoutComments source) i = Text.lineOf source i := by
    rw [blanked, whole, (place_map shown_eq_newline spots i).1,
      (place_map (fun _ => Iff.rfl) spots i).1]
  have columns (i : Nat) : Text.columnOf (withoutComments source) i + lostBefore (spots.take i) =
      Text.columnOf source i := by
    rw [blanked, whole, (place_map shown_eq_newline spots i).2,
      (place_map (fun _ => Iff.rfl) spots i).2, lostBefore, utf8Length_shown]
  refine ⟨spots, ?_, blanked, ?_, ?_⟩
  · intro others
    constructor
    · rintro ⟨commented', whole'⟩
      exact commented'.unique commented (whole'.symm.trans whole)
    · rintro rfl
      exact ⟨commented, whole⟩
  · intro i
    refine ⟨lines i, columns i, ?_⟩
    rw [← lostIn_eq_zero, ← lostBefore, ← columns i]
    omega
  · intro severity r mem
    obtain ⟨m, isMatch, line, column⟩ := exists_of_mem_newRecords file source b mem
    obtain ⟨xs, c, split, offset, found⟩ := Pattern.exists_matchAt?_of_mem_findAll isMatch
    have before : (withoutComments source).take xs.length = xs := by
      rw [split, List.take_left]
    have here : (spots.drop xs.length).map Spot.shown = c.rest := by
      rw [List.map_drop, ← blanked, split, List.drop_left]
    rw [offset, ← before] at line column
    exact ⟨xs.length, _, startsBinding_of_matchAt? found here,
      line.trans (congrArg some (lines _)), column, columns _⟩

end Stylesheet

end AddonAudit
