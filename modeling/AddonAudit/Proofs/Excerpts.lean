import AddonAudit.Proofs.Numbering
import AddonAudit.Proofs.VersionRules
import Mathlib.Data.List.DropRight

/-!
# What an excerpt shows

Of the line of an offset an excerpt shows the trimmed text of a window. The window is the whole line
if that is short. Of a longer line it has a fixed width, and half of it is before the column. The
column is counted in bytes, the window in characters, so wide characters before a place push the
window to the right of it. The end of the line stops the window, so a place near the end is in it
all the same.
-/

namespace AddonAudit.Text

/-! ## Trimming -/

theorem dropFront_append_cons {p : Char → Bool} {c : Char} (stays : p c = false)
    (xs ys : List Char) : dropFront p (xs ++ c :: ys) = dropFront p xs ++ c :: ys := by
  induction xs with
  | nil => simp [dropFront, stays]
  | cons x xs ih =>
      simp only [dropFront] at ih
      by_cases dropped : p x = true <;> simp [dropFront, dropped, ih]

theorem dropBack_append_cons {p : Char → Bool} {c : Char} (stays : p c = false)
    (xs ys : List Char) : dropBack p (xs ++ c :: ys) = xs ++ c :: dropBack p ys := by
  have front := dropFront_append_cons stays ys.reverse xs.reverse
  simp only [dropFront] at front
  simp [dropBack, front]

/-- A character that is not white space keeps trimming on its two sides apart. -/
theorem trimChars_append_cons {c : Char} (visible : isBlank c = false) (xs ys : List Char) :
    trimChars (xs ++ c :: ys) = dropFront isBlank xs ++ c :: dropBack isBlank ys := by
  rw [trimChars, dropFront_append_cons visible, dropBack_append_cons visible]

theorem dropBack_isPrefix (p : Char → Bool) (cs : List Char) : dropBack p cs <+: cs :=
  List.rdropWhile_prefix p cs

theorem trimChars_isInfix (cs : List Char) : trimChars cs <:+: cs :=
  (dropBack_isPrefix isBlank _).isInfix.trans (List.dropWhile_suffix isBlank).isInfix

theorem ne_of_visible {c d : Char} (visible : isBlank c = false) (blank : isBlank d = true) :
    c ≠ d := by
  rintro rfl
  rw [visible] at blank
  cases blank

/-! ## The line of a character -/

/-- What is before a character on its line. -/
def lineBefore (before : List Char) : List Char :=
  (before.reverse.takeWhile (· ≠ '\n')).reverse

/-- What is behind a character on its line, without the carriage returns at the end. -/
def lineAfter (after : List Char) : List Char :=
  dropBack (· = '\r') (after.takeWhile (· ≠ '\n'))

theorem length_le_utf8Length (cs : List Char) : cs.length ≤ utf8Length cs := by
  induction cs with
  | nil => exact Nat.le_refl 0
  | cons c cs ih =>
      have size := c.utf8Size_pos
      rw [List.length_cons, utf8Length_cons]
      omega

theorem exists_lineBefore (before : List Char) :
    ∃ earlier, before = earlier ++ lineBefore before ∧
      (earlier = [] ∨ earlier.getLast? = some '\n') ∧
      '\n' ∉ lineBefore before := by
  obtain ⟨earlier, split, stops⟩ := exists_lastRun (· ≠ '\n') before
  refine ⟨earlier, split, ?_, ?_⟩
  · cases last : earlier.getLast? with
    | none => exact .inl (List.getLast?_eq_none_iff.1 last)
    | some c =>
        have newline : c = '\n' := by simpa using stops c last
        exact .inr (congrArg some newline)
  · intro mem
    rw [lineBefore, List.mem_reverse] at mem
    simpa using List.mem_takeWhile_imp mem

/-- What stands between two line ends is a piece of the text, numbered by the line ends before
it. -/
theorem getElem?_splitChars_of_fresh {before piece after : List Char}
    (fresh : before = [] ∨ before.getLast? = some '\n') (one : '\n' ∉ piece)
    (ends : after.takeWhile (· ≠ '\n') = []) :
    (splitChars '\n' (before ++ (piece ++ after)))[before.count '\n']? = some piece := by
  have first : ∃ rest, splitChars '\n' (piece ++ after) = piece :: rest := by
    obtain ⟨rest, split⟩ := splitChars_eq_cons '\n' (piece ++ after)
    have all : ∀ c ∈ piece, decide (c ≠ '\n') = true := by
      intro c mem
      exact decide_eq_true fun same => one (same ▸ mem)
    rw [List.takeWhile_append_of_pos all, ends, List.append_nil] at split
    exact ⟨rest, split⟩
  obtain ⟨rest, split⟩ := first
  rcases fresh with rfl | last
  · rw [List.nil_append, split]
    rfl
  · obtain ⟨front, rfl⟩ := List.getLast?_eq_some_iff.1 last
    have number : (front ++ ['\n']).count '\n' = (splitChars '\n' front).length := by
      rw [List.count_append, length_splitChars]
      rfl
    rw [List.append_assoc, List.singleton_append, splitChars_append_sep, split, number,
      List.getElem?_append_right (Nat.le_refl _), Nat.sub_self, List.getElem?_cons_zero]

theorem takeWhile_dropWhile_self (p : Char → Bool) (cs : List Char) :
    (cs.dropWhile p).takeWhile p = [] := by
  cases rest : cs.dropWhile p with
  | nil => rfl
  | cons c rest' =>
      have stops := List.head?_dropWhile_not p cs
      rw [rest] at stops
      exact List.takeWhile_cons_of_neg (by simpa using stops)

namespace Lines

/-- The line that is kept for the offset of a character is the line of the character, and the column
is the number of bytes before it there. -/
theorem line_of_char {cs before after : List Char} {c : Char} (whole : cs = before ++ c :: after)
    (visible : isBlank c = false) :
    (ofChars cs).lines[(ofChars cs).lineAt (utf8Length before) - 1]? =
        some (lineBefore before ++ c :: lineAfter after) ∧
      (ofChars cs).columnAt (utf8Length before) = utf8Length (lineBefore before) := by
  have noEnd : c ≠ '\n' := ne_of_visible visible (by decide)
  have noReturn : c ≠ '\r' := ne_of_visible visible (by decide)
  obtain ⟨earlier, split, fresh, one⟩ := exists_lineBefore before
  generalize lineBefore before = front at split one ⊢
  have rest : after = after.takeWhile (· ≠ '\n') ++ after.dropWhile (· ≠ '\n') :=
    List.takeWhile_append_dropWhile.symm
  have onePiece : '\n' ∉ front ++ c :: after.takeWhile (· ≠ '\n') := by
    rw [List.mem_append, List.mem_cons, not_or, not_or]
    refine ⟨one, noEnd.symm, fun mem => ?_⟩
    simpa using List.mem_takeWhile_imp mem
  have parts : cs =
      earlier ++ ((front ++ c :: after.takeWhile (· ≠ '\n')) ++ after.dropWhile (· ≠ '\n')) := by
    rw [whole, split, List.append_assoc, List.append_assoc, List.cons_append, ← rest]
  have piece : (splitChars '\n' cs)[earlier.count '\n']? =
      some (front ++ c :: after.takeWhile (· ≠ '\n')) := by
    rw [parts]
    exact getElem?_splitChars_of_fresh fresh onePiece (takeWhile_dropWhile_self _ after)
  have place := place_of_fresh fresh one (c :: after) (Nat.le_refl (utf8Length front))
  rw [← split, ← whole, ← utf8Length_append, ← split] at place
  refine ⟨?_, place.2⟩
  rw [place.1, Nat.add_sub_cancel]
  simp only [ofChars, List.getElem?_toArray, List.getElem?_map, piece, Option.map_some]
  -- the carriage returns that are dropped from the piece are all behind the character
  rw [dropBack_append_cons (by simpa using noReturn)]
  rfl

/-! ## The window -/

/-- Some characters of a line that follow each other: the index of the first one, and how many they
are. -/
structure Window where
  first : Nat
  width : Nat

/-- The characters of a line that are in a window. -/
def Window.text (w : Window) (line : List Char) : List Char :=
  (line.drop w.first).take w.width

/-- Whether the character of a line with an index is in a window. -/
def Window.Includes (w : Window) (index : Nat) : Prop :=
  w.first ≤ index ∧ index < w.first + w.width

/-- The window of a line that is shown for a column. -/
def windowAt (line : List Char) (column : Nat) : Window :=
  if (trimChars line).length ≤ maxWidth then ⟨0, line.length⟩
  else ⟨min column line.length - maxWidth / 2, maxWidth⟩

theorem windowAt_of_short {line : List Char} (short : (trimChars line).length ≤ maxWidth)
    (column : Nat) : windowAt line column = ⟨0, line.length⟩ :=
  if_pos short

theorem windowAt_of_long {line : List Char} (long : ¬(trimChars line).length ≤ maxWidth)
    (column : Nat) : windowAt line column = ⟨min column line.length - maxWidth / 2, maxWidth⟩ :=
  if_neg long

/-- What is shown of a line is the trimmed text of its window. -/
theorem shown_eq (line : List Char) (column : Nat) :
    shown line column = String.ofList (trimChars ((windowAt line column).text line)) := by
  by_cases short : (trimChars line).length ≤ maxWidth
  · simp only [shown, if_pos short, windowAt_of_short short, Window.text, List.drop_zero,
      List.take_length]
  · simp only [shown, if_neg short, windowAt_of_long short, Window.text]

theorem length_shown_le (line : List Char) (column : Nat) :
    (trimChars ((windowAt line column).text line)).length ≤ maxWidth := by
  by_cases short : (trimChars line).length ≤ maxWidth
  · rwa [windowAt_of_short short, Window.text, List.drop_zero, List.take_length]
  · rw [windowAt_of_long short]
    exact Nat.le_trans (trimChars_isInfix _).length_le (List.length_take_le _ _)

variable {front back : List Char} {c : Char}

/-- A window that includes a character has it between the ends of what is before it and behind
it. -/
theorem Window.text_of_includes {w : Window} (inside : w.Includes front.length) :
    w.text (front ++ c :: back) =
      front.drop w.first ++ c :: back.take (w.first + w.width - front.length - 1) := by
  obtain ⟨after, before⟩ := inside
  have length : (front.drop w.first).length = front.length - w.first := List.length_drop
  have more : w.width - (front.length - w.first) = w.first + w.width - front.length - 1 + 1 := by
    omega
  rw [Window.text, List.drop_append_of_le_length after, List.take_append, length, more,
    List.take_succ_cons, List.take_of_length_le (by omega)]

/-- A window that starts behind a character has only what follows it. -/
theorem Window.text_of_behind {w : Window} (behind : front.length < w.first) :
    w.text (front ++ c :: back) <:+: back := by
  have skip : (front ++ c :: back).drop w.first = back.drop (w.first - front.length - 1) := by
    have index : w.first - front.length = w.first - front.length - 1 + 1 := by omega
    rw [List.drop_append, List.drop_of_length_le (Nat.le_of_lt behind), List.nil_append, index,
      List.drop_succ_cons]
    rfl
  rw [Window.text, skip]
  exact (List.take_prefix _ _).isInfix.trans (List.drop_suffix _ _).isInfix

/-- The window for the column of a character never ends before it. -/
theorem lt_windowAt_end (front back : List Char) (c : Char) :
    front.length < (windowAt (front ++ c :: back) (utf8Length front)).first +
      (windowAt (front ++ c :: back) (utf8Length front)).width := by
  have bytes := length_le_utf8Length front
  by_cases short : (trimChars (front ++ c :: back)).length ≤ maxWidth
  · simp only [windowAt_of_short short, List.length_append, List.length_cons]
    omega
  · -- there are at least as many bytes before the character as characters
    simp only [windowAt_of_long short, maxWidth, List.length_append, List.length_cons]
    omega

/-- The window for the column of a character includes it if the line is short, if the bytes before
it are not many more than the characters, or if the end of the line is near. -/
theorem windowAt_includes_iff (front back : List Char) (c : Char) :
    (windowAt (front ++ c :: back) (utf8Length front)).Includes front.length ↔
      (trimChars (front ++ c :: back)).length ≤ maxWidth ∨
        utf8Length front ≤ front.length + maxWidth / 2 ∨ back.length < maxWidth / 2 := by
  have ends := lt_windowAt_end front back c
  rw [Window.Includes, and_iff_left ends]
  by_cases short : (trimChars (front ++ c :: back)).length ≤ maxWidth
  · simp [windowAt_of_short short, short]
  · simp only [windowAt_of_long short, short, false_or, List.length_append, List.length_cons]
    omega

/-- The line that is shown for an offset. -/
def shownFor (l : Lines) (offset : Nat) : Option String :=
  (l.excerpt (l.lineAt offset) (l.columnAt offset)).line

/-- For the offset of a character that is not white space the trimmed text of a window of its line
is shown, and it has no more characters than the limit. The window includes the character exactly if
the trimmed line is within the limit, or the bytes before the character on the line are at most half
the limit more than the characters there, or fewer characters than half the limit follow it. Then
the character is shown between what stands directly before it and behind it. Otherwise the window
starts behind the character, and only what follows it on the line is shown. -/
theorem excerpt_includes_unless_wide {s : String} {before after : List Char} {c : Char}
    (whole : s.toList = before ++ c :: after) (visible : isBlank c = false) :
    ∃ line w,
      (ofString s).lines[(ofString s).lineAt (utf8Length before) - 1]? = some line ∧
      line = lineBefore before ++ c :: lineAfter after ∧
      w = windowAt line ((ofString s).columnAt (utf8Length before)) ∧
      (ofString s).shownFor (utf8Length before) = some (String.ofList (trimChars (w.text line))) ∧
      (trimChars (w.text line)).length ≤ 140 ∧
      (w.Includes (lineBefore before).length ↔
        (trimChars line).length ≤ 140 ∨
          utf8Length (lineBefore before) ≤ (lineBefore before).length + 70 ∨
          (lineAfter after).length < 70) ∧
      (w.Includes (lineBefore before).length →
        ∃ front back, trimChars (w.text line) = front ++ c :: back ∧
          front <:+ lineBefore before ∧ back <+: lineAfter after) ∧
      (¬w.Includes (lineBefore before).length → trimChars (w.text line) <:+: lineAfter after) := by
  obtain ⟨kept, column⟩ := line_of_char whole visible
  refine ⟨_, _, kept, rfl, rfl, ?_, length_shown_le _ _, ?_, ?_, ?_⟩
  · simp only [shownFor, excerpt, shownAt, ofString, kept, Option.map_some, shown_eq]
  · rw [ofString, column]
    exact windowAt_includes_iff _ _ c
  · intro inside
    rw [Window.text_of_includes inside, trimChars_append_cons visible]
    refine ⟨_, _, rfl, ?_, ?_⟩
    · exact (List.dropWhile_suffix isBlank).trans (List.drop_suffix _ _)
    · exact (dropBack_isPrefix isBlank _).trans (List.take_prefix _ _)
  · intro outside
    rw [ofString, column] at outside ⊢
    have ends := lt_windowAt_end (lineBefore before) (lineAfter after) c
    refine (trimChars_isInfix _).trans (Window.text_of_behind ?_)
    by_contra early
    exact outside ⟨Nat.le_of_not_lt early, ends⟩

/-- Behind 24 characters of four bytes the window starts two characters too late. -/
theorem excerpt_includes_unless_wide_missed :
    isBlank 'x' = false ∧
      ∃ (w : Window) (text : List Char), ¬w.Includes 24 ∧
        text = trimChars (w.text (List.replicate 24 '😀' ++ 'x' :: List.replicate 116 'a')) ∧
        (ofString (String.ofList
          (List.replicate 24 '😀' ++ 'x' :: List.replicate 116 'a'))).shownFor 96 =
          some (String.ofList text) ∧
        'x' ∉ text := by
  have visible : isBlank 'x' = false := by decide
  have front : lineBefore (List.replicate 24 '😀') = List.replicate 24 '😀' := by decide
  have back : lineAfter (List.replicate 116 'a') = List.replicate 116 'a' := by decide
  obtain ⟨line, w, -, rfl, -, isShown, -, inside, -, behind⟩ :=
    excerpt_includes_unless_wide
      (s := String.ofList (List.replicate 24 '😀' ++ 'x' :: List.replicate 116 'a'))
      String.toList_ofList visible
  rw [front, back] at isShown inside behind
  have outside : ¬w.Includes 24 := by
    intro included
    have narrow := inside.1 included
    revert narrow
    decide +kernel
  refine ⟨visible, w, _, outside, rfl, isShown, fun mem => ?_⟩
  have letter := List.eq_of_mem_replicate ((behind outside).subset mem)
  revert letter
  decide

end Lines

end AddonAudit.Text
