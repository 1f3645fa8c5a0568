import AddonAudit.Check.Battery
import AddonAudit.Check.Location
import AddonAudit.Proofs.Lines
import AddonAudit.Text.Utf8
import Mathlib.Data.List.Pairwise

/-!
# Lines by offset and lines by number

A place of a text can be named by its byte offset or by the number of its line and its column. Some
checks go through the lines one after the other and count them, others look up the line of an
offset. The bytes of a text tie the two together: a line starts at its first byte and after every
newline byte.
-/

namespace AddonAudit.Text

/-- The byte that ends a line. -/
def newline : UInt8 := 10

/-- The bytes of characters. -/
def encoded (cs : List Char) : Bytes :=
  cs.flatMap String.utf8EncodeChar

theorem toList_loop_eq (bs : ByteArray) (i : Nat) (r : List UInt8) :
    ByteArray.toList.loop bs i r = r.reverse ++ bs.data.toList.drop i := by
  fun_induction ByteArray.toList.loop bs i r with
  | case1 i r inside ih =>
      have inside' : i < bs.data.toList.length := inside
      have here : bs.get! i = bs.data.toList[i] := getElem!_pos bs.data i inside
      rw [ih, here, List.reverse_cons, List.append_assoc, List.singleton_append,
        ← List.drop_eq_getElem_cons inside']
  | case2 i r outside =>
      have outside' : bs.data.toList.length ≤ i := Nat.le_of_not_lt outside
      rw [List.drop_of_length_le outside', List.append_nil]

theorem toBytes_ofList (cs : List Char) : toBytes (String.ofList cs) = encoded cs := by
  rw [toBytes, ByteArray.toList, toList_loop_eq, String.toUTF8_eq_toByteArray,
    String.toByteArray_ofList, List.utf8Encode, List.toList_data_toByteArray]
  rfl

theorem encoded_cons (c : Char) (cs : List Char) :
    encoded (c :: cs) = String.utf8EncodeChar c ++ encoded cs :=
  List.flatMap_cons

theorem length_encoded (cs : List Char) : (encoded cs).length = utf8Length cs := by
  induction cs with
  | nil => rfl
  | cons c cs ih =>
      rw [encoded_cons, List.length_append, String.length_utf8EncodeChar, ih, utf8Length_cons]

theorem newline_ne_ofNat {n : Nat} (byte : n < 256) (other : n ≠ 10) : newline ≠ UInt8.ofNat n := by
  intro same
  have numbers := congrArg UInt8.toNat same
  rw [UInt8.toNat_ofNat', Nat.mod_eq_of_lt byte] at numbers
  exact other numbers.symm

/-- No other character has the newline byte in it. -/
theorem newline_not_mem_encode {c : Char} (other : c ≠ '\n') :
    newline ∉ String.utf8EncodeChar c := by
  have value : c.val.toNat ≠ 10 := fun same => other (Char.ext (UInt32.toNat_inj.1 same))
  have later : ∀ n, 0x80 ≤ n → n < 256 → newline ≠ UInt8.ofNat n :=
    fun n high byte => newline_ne_ofNat byte (by omega)
  rw [String.utf8EncodeChar]
  split
  · rw [List.mem_singleton]
    exact newline_ne_ofNat (by omega) value
  -- in the longer encodings every byte is above the first 128 ones
  · split
    · simp only [List.mem_cons, List.not_mem_nil, or_false, not_or]
      exact ⟨later _ (by omega) (by omega), later _ (by omega) (by omega)⟩
    · split
      all_goals
        simp only [List.mem_cons, List.not_mem_nil, or_false, not_or]
      · exact ⟨later _ (by omega) (by omega), later _ (by omega) (by omega),
          later _ (by omega) (by omega)⟩
      · exact ⟨later _ (by omega) (by omega), later _ (by omega) (by omega),
          later _ (by omega) (by omega), later _ (by omega) (by omega)⟩

theorem encode_newline : String.utf8EncodeChar '\n' = [newline] := rfl

namespace Lines

/-- A line starts after every newline byte. -/
theorem mem_startsFrom_iff {offset start : Nat} {cs : List Char} :
    start ∈ startsFrom offset cs ↔
      offset < start ∧ (encoded cs)[start - offset - 1]? = some newline := by
  induction cs generalizing offset with
  | nil => simp [startsFrom, encoded]
  | cons c cs ih =>
      rw [startsFrom_cons, encoded_cons]
      split
      next isNewline =>
        rw [isNewline, encode_newline, List.mem_cons, ih, show '\n'.utf8Size = 1 from rfl]
        by_cases first : start = offset + 1
        · simp [first]
        · by_cases later : offset + 1 < start
          · have index : start - offset - 1 = start - (offset + 1) - 1 + 1 := by omega
            rw [index, List.singleton_append, List.getElem?_cons_succ]
            simp only [first, later, Nat.lt_of_succ_lt later, false_or, true_and]
          · simp only [first, later, false_or, false_and, false_iff]
            omega
      next other =>
        rw [ih]
        have size := String.length_utf8EncodeChar c
        have positive := c.utf8Size_pos
        by_cases later : offset + c.utf8Size < start
        · rw [List.getElem?_append_right (by omega), size,
            show start - offset - 1 - c.utf8Size = start - (offset + c.utf8Size) - 1 by omega]
          simp only [later, true_and, show offset < start by omega]
        · simp only [later, false_and, false_iff, not_and]
          intro after found
          rw [List.getElem?_append_left (by omega)] at found
          exact newline_not_mem_encode other (List.mem_of_getElem? found)

/-- Up to a place there are as many line starts after the first as there are newline bytes before
it. -/
theorem length_startsFrom_upTo (base offset : Nat) (cs : List Char) :
    ((startsFrom base cs).takeWhile (· ≤ offset)).length =
      ((encoded cs).take (offset - base)).count newline := by
  induction cs generalizing base with
  | nil => simp [startsFrom, encoded]
  | cons c cs ih =>
      rw [startsFrom_cons, encoded_cons, List.take_append, List.count_append]
      split
      next isNewline =>
        rw [isNewline, encode_newline, show '\n'.utf8Size = 1 from rfl, List.length_singleton,
          Nat.sub_sub]
        by_cases reached : base + 1 ≤ offset
        · have one : [newline].take (offset - base) = [newline] :=
            List.take_of_length_le (by rw [List.length_singleton]; omega)
          rw [List.takeWhile_cons_of_pos (by simpa using reached), List.length_cons, ih, one,
            List.count_singleton_self, Nat.add_comm]
        · rw [List.takeWhile_cons_of_neg (by simpa using reached),
            show offset - base = 0 by omega, show offset - (base + 1) = 0 by omega]
          rfl
      next other =>
        have noNewline : newline ∉ (String.utf8EncodeChar c).take (offset - base) := fun mem =>
          newline_not_mem_encode other (List.mem_of_mem_take mem)
        rw [ih, List.count_eq_zero_of_not_mem noNewline, Nat.zero_add, String.length_utf8EncodeChar,
          Nat.sub_sub]

/-- The byte offset at which the line of a place starts: it is the first one or behind a newline
byte, and no newline byte is between it and the place. -/
structure IsStart (bytes : Bytes) (offset start : Nat) : Prop where
  le : start ≤ offset
  fresh : start = 0 ∨ bytes[start - 1]? = some newline
  last : ∀ i, start ≤ i → i < offset → bytes[i]? ≠ some newline

/-- The last line start up to a place is where the line of the place starts. -/
theorem isStart_getLastD (cs : List Char) (offset : Nat) :
    IsStart (encoded cs) offset (((startsOf cs).takeWhile (· ≤ offset)).getLastD 0) := by
  have increasing := startsOf_increasing cs
  have nonempty : (startsOf cs).takeWhile (· ≤ offset) ≠ [] := by
    rw [takeWhile_startsOf]
    exact List.cons_ne_nil _ _
  rw [List.getLastD_eq_getLast?, List.getLast?_eq_some_getLast nonempty, Option.getD_some]
  obtain ⟨isStart, le⟩ := (mem_takeWhile_le_iff increasing).1 (List.getLast_mem nonempty)
  refine ⟨le, ?_, fun i after before found => ?_⟩
  · rcases List.mem_cons.1 isStart with first | later
    · exact .inl first
    · exact .inr (mem_startsFrom_iff.1 later).2
  · have next : i + 1 ∈ startsOf cs :=
      List.mem_cons_of_mem _ (mem_startsFrom_iff.2 ⟨Nat.succ_pos i, found⟩)
    have upTo : i + 1 ∈ (startsOf cs).takeWhile (· ≤ offset) :=
      (mem_takeWhile_le_iff increasing).2 ⟨next, before⟩
    have ordered : ((startsOf cs).takeWhile (· ≤ offset)).Pairwise (· ≤ ·) :=
      (increasing.sublist (List.takeWhile_sublist _)).imp Nat.le_of_lt
    have below := ordered.rel_getLast upTo
    omega

end Lines

/-- A line of a text, counted from zero, with what is before and after it. -/
structure IsLine (cs : List Char) (i : Nat) (before line after : List Char) : Prop where
  whole : cs = before ++ line ++ after
  number : before.count '\n' = i
  fresh : before = [] ∨ before.getLast? = some '\n'
  one : '\n' ∉ line
  ends : after = [] ∨ ['\n'] <+: after ∨ ['\r', '\n'] <+: after

theorem splitChars_ne_nil (sep : Char) (cs : List Char) : splitChars sep cs ≠ [] := by
  cases cs with
  | nil => exact List.cons_ne_nil _ _
  | cons c cs =>
      rw [splitChars]
      split
      · exact List.cons_ne_nil _ _
      · split <;> exact List.cons_ne_nil _ _

/-- There is one piece more than there are separators. -/
theorem length_splitChars (sep : Char) (cs : List Char) :
    (splitChars sep cs).length = cs.count sep + 1 := by
  induction cs with
  | nil => rfl
  | cons c cs ih =>
      rw [splitChars, List.count_cons]
      split
      next same => simp [same, ih]
      next other =>
        rw [if_neg (by simpa using other), Nat.add_zero, ← ih]
        split
        next empty => exact absurd empty (splitChars_ne_nil sep cs)
        next piece pieces split => rw [split, List.length_cons, List.length_cons]

/-- A piece of a text between line ends, with what is before and after it. Only the last piece has
no line end behind it. -/
structure IsPiece (cs : List Char) (i : Nat) (before piece after : List Char) : Prop where
  whole : cs = before ++ piece ++ after
  number : before.count '\n' = i
  fresh : before = [] ∨ before.getLast? = some '\n'
  one : '\n' ∉ piece
  ends : i < cs.count '\n' ∧ ['\n'] <+: after ∨ i = cs.count '\n' ∧ after = []

namespace IsPiece

variable {cs before piece after : List Char} {i : Nat}

theorem newline_mem (h : IsPiece cs i before piece after) (nonempty : before ≠ []) :
    '\n' ∈ before := by
  rcases h.fresh with empty | last
  · exact absurd empty nonempty
  · exact List.mem_of_getLast? last

theorem eq_nil (h : IsPiece cs 0 before piece after) : before = [] := by
  by_contra nonempty
  exact List.count_eq_zero.1 h.number (h.newline_mem nonempty)

theorem cons_newline (h : IsPiece cs i before piece after) :
    IsPiece ('\n' :: cs) (i + 1) ('\n' :: before) piece after where
  whole := by rw [h.whole, List.cons_append, List.cons_append]
  number := by rw [List.count_cons_self, h.number]
  fresh := by
    rcases h.fresh with rfl | last
    · exact .inr rfl
    · exact .inr (by rw [List.getLast?_cons, last, Option.getD_some])
  one := h.one
  ends := by
    rw [List.count_cons_self, Nat.add_lt_add_iff_right, Nat.add_right_cancel_iff]
    exact h.ends

theorem first_newline (cs : List Char) : IsPiece ('\n' :: cs) 0 [] [] ('\n' :: cs) where
  whole := rfl
  number := rfl
  fresh := .inl rfl
  one := List.not_mem_nil
  ends := .inl ⟨by rw [List.count_cons_self]; exact Nat.succ_pos _, List.prefix_append ['\n'] cs⟩

theorem cons_first {c : Char} (other : c ≠ '\n') (h : IsPiece cs 0 [] piece after) :
    IsPiece (c :: cs) 0 [] (c :: piece) after where
  whole := by rw [h.whole]; rfl
  number := rfl
  fresh := .inl rfl
  one := by
    rw [List.mem_cons, not_or]
    exact ⟨other.symm, h.one⟩
  ends := by
    rw [List.count_cons_of_ne other]
    exact h.ends

theorem cons_later {c : Char} (other : c ≠ '\n') (h : IsPiece cs (i + 1) before piece after) :
    IsPiece (c :: cs) (i + 1) (c :: before) piece after where
  whole := by rw [h.whole, List.cons_append, List.cons_append]
  number := by rw [List.count_cons_of_ne other, h.number]
  fresh := by
    rcases h.fresh with empty | last
    · have count := h.number
      rw [empty] at count
      cases count
    · exact .inr (by rw [List.getLast?_cons, last, Option.getD_some])
  one := h.one
  ends := by
    rw [List.count_cons_of_ne other]
    exact h.ends

end IsPiece

/-- A text is split into its pieces. -/
theorem isPiece_of_splitChars {cs piece : List Char} {i : Nat}
    (found : (splitChars '\n' cs)[i]? = some piece) :
    ∃ before after, IsPiece cs i before piece after := by
  induction cs generalizing piece i with
  | nil =>
      obtain ⟨rfl, rfl⟩ : i = 0 ∧ piece = [] := by
        cases i with
        | zero => exact ⟨rfl, (Option.some.inj found).symm⟩
        | succ i => cases found
      exact ⟨[], [], rfl, rfl, .inl rfl, List.not_mem_nil, .inr ⟨rfl, rfl⟩⟩
  | cons c cs ih =>
      rw [splitChars] at found
      split at found
      next same =>
        subst same
        cases i with
        | zero =>
            cases Option.some.inj found
            exact ⟨[], _, .first_newline cs⟩
        | succ i =>
            obtain ⟨before, after, piece⟩ := ih found
            exact ⟨_, after, piece.cons_newline⟩
      next other =>
        split at found
        next empty => exact absurd empty (splitChars_ne_nil '\n' cs)
        next first pieces split =>
          rw [split] at ih
          cases i with
          | zero =>
              cases Option.some.inj found
              obtain ⟨before, after, piece⟩ := ih (i := 0) rfl
              cases piece.eq_nil
              exact ⟨[], after, piece.cons_first other⟩
          | succ i =>
              obtain ⟨before, after, piece⟩ := ih (i := i + 1) found
              exact ⟨_, after, piece.cons_later other⟩

theorem dropReturn_append (piece : List Char) :
    ∃ tail, piece = dropReturn piece ++ tail ∧ (tail = [] ∨ tail = ['\r']) := by
  rw [dropReturn]
  split
  next last =>
    refine ⟨['\r'], ?_, .inr rfl⟩
    obtain ⟨front, rfl⟩ := List.getLast?_eq_some_iff.1 last
    rw [List.dropLast_concat]
  · exact ⟨[], (List.append_nil _).symm, .inl rfl⟩

/-- The lines of a text are its pieces; an empty one at the end is none. -/
theorem linesOf_eq {cs last : List Char} {front : List (List Char)}
    (split : splitChars '\n' cs = front ++ [last]) :
    linesOf cs = front.map dropReturn ++ if last = [] then [] else [last] := by
  simp only [linesOf, split, List.getLast?_concat, List.dropLast_concat]
  cases last with
  | nil => exact (List.append_nil _).symm
  | cons c last => rfl

theorem length_front {cs last : List Char} {front : List (List Char)}
    (split : splitChars '\n' cs = front ++ [last]) : front.length = cs.count '\n' := by
  have length := length_splitChars '\n' cs
  rw [split, List.length_append, List.length_singleton] at length
  omega

theorem exists_front (cs : List Char) : ∃ front last, splitChars '\n' cs = front ++ [last] := by
  rcases List.eq_nil_or_concat (splitChars '\n' cs) with empty | ⟨front, last, split⟩
  · exact absurd empty (splitChars_ne_nil '\n' cs)
  · exact ⟨front, last, split.trans List.concat_eq_append⟩

/-- The last piece goes to the end of the text. -/
theorem isPiece_last {cs last : List Char} {front : List (List Char)}
    (split : splitChars '\n' cs = front ++ [last]) :
    ∃ before, IsPiece cs (cs.count '\n') before last [] := by
  have found : (splitChars '\n' cs)[cs.count '\n']? = some last := by
    rw [split, ← length_front split, List.getElem?_concat_length]
  obtain ⟨before, after, piece⟩ := isPiece_of_splitChars found
  rcases piece.ends with ⟨early, -⟩ | ⟨-, rfl⟩
  · exact absurd early (Nat.lt_irrefl _)
  · exact ⟨before, piece⟩

/-- The lines of a text stand in it one after the other. -/
theorem isLine_of_linesOf {cs line : List Char} {i : Nat} (found : (linesOf cs)[i]? = some line) :
    ∃ before after, IsLine cs i before line after := by
  obtain ⟨front, last, split⟩ := exists_front cs
  have length := length_front split
  rw [linesOf_eq split] at found
  by_cases early : i < front.length
  · -- a line before the last piece has lost its line end
    rw [List.getElem?_append_left (by rwa [List.length_map]), List.getElem?_map,
      List.getElem?_eq_getElem early] at found
    have inFront : (splitChars '\n' cs)[i]? = some front[i] := by
      rw [split, List.getElem?_append_left early, List.getElem?_eq_getElem early]
    obtain ⟨before, after, piece⟩ := isPiece_of_splitChars inFront
    obtain ⟨tail, whole, short⟩ := dropReturn_append front[i]
    have newlineAfter : ['\n'] <+: after := by
      rcases piece.ends with ⟨-, stands⟩ | ⟨final, -⟩
      · exact stands
      · omega
    cases Option.some.inj found
    refine ⟨before, tail ++ after, ?_, piece.number, piece.fresh, ?_, .inr ?_⟩
    · rw [piece.whole, List.append_assoc, List.append_assoc,
        ← List.append_assoc (dropReturn _), ← whole]
    · exact fun mem => piece.one (whole ▸ List.mem_append_left _ mem)
    · rcases short with rfl | rfl
      · exact .inl newlineAfter
      · exact .inr ((List.prefix_append_right_inj ['\r']).2 newlineAfter)
  · -- the last piece is a line as it is
    rw [List.getElem?_append_right (by rw [List.length_map]; omega), List.length_map] at found
    obtain ⟨before, piece⟩ := isPiece_last split
    split at found
    · cases found
    next nonempty =>
      have final : i - front.length = 0 := by
        have inside := (List.getElem?_eq_some_iff.1 found).1
        rw [List.length_singleton] at inside
        omega
      rw [final] at found
      cases Option.some.inj found
      rw [show i = cs.count '\n' by omega]
      exact ⟨before, [], piece.whole, piece.number, piece.fresh, piece.one, .inl rfl⟩

namespace Lines

theorem length_startsFrom (offset : Nat) (cs : List Char) :
    (startsFrom offset cs).length = cs.count '\n' := by
  induction cs generalizing offset with
  | nil => rfl
  | cons c cs ih =>
      rw [startsFrom_cons]
      split
      next same => rw [List.length_cons, ih, same, List.count_cons_self]
      next other => rw [ih, List.count_cons_of_ne other]

/-- After a line end the next line starts. -/
theorem startsOf_of_fresh {before : List Char} (fresh : before = [] ∨ before.getLast? = some '\n') :
    ∃ front, startsOf before = front ++ [utf8Length before] ∧ front.length = before.count '\n' := by
  rcases fresh with rfl | last
  · exact ⟨[], rfl, rfl⟩
  · obtain ⟨front, rfl⟩ := List.getLast?_eq_some_iff.1 last
    refine ⟨startsOf front, ?_, ?_⟩
    · simp only [startsOf, startsFrom_append, utf8Length_append, Nat.zero_add]
      rfl
    · rw [startsOf, List.length_cons, length_startsFrom, List.count_append]
      rfl

variable {cs before line after : List Char} {i : Nat}

/-- A line starts at its line start. -/
theorem getElem?_starts_of_isLine (h : IsLine cs i before line after) :
    (ofChars cs).starts[i]? = some (utf8Length before) := by
  obtain ⟨front, starts, length⟩ := startsOf_of_fresh h.fresh
  have all : startsOf cs =
      front ++ utf8Length before :: startsFrom (utf8Length before) (line ++ after) := by
    rw [h.whole, List.append_assoc, startsOf, startsFrom_append, ← List.cons_append,
      ← startsOf, starts, Nat.zero_add, List.append_assoc, List.singleton_append]
  rw [starts_ofChars, List.getElem?_toArray, all, ← h.number, ← length,
    List.getElem?_append_right (Nat.le_refl _), Nat.sub_self, List.getElem?_cons_zero]

/-- Behind a line end, up to the next one, places have the number of the line and are counted from
its start. -/
theorem place_of_fresh (fresh : before = [] ∨ before.getLast? = some '\n') (one : '\n' ∉ line)
    (after : List Char) {k : Nat} (inside : k ≤ utf8Length line) :
    (ofChars (before ++ line ++ after)).lineAt (utf8Length before + k) = before.count '\n' + 1 ∧
      (ofChars (before ++ line ++ after)).columnAt (utf8Length before + k) = k := by
  have noStarts : startsUpTo line k = [] := by
    rw [startsUpTo, startsFrom_of_not_mem one, List.takeWhile_nil]
  have last : lastStart before = utf8Length before := by
    obtain ⟨front, starts, -⟩ := startsOf_of_fresh fresh
    rw [lastStart, starts, List.getLastD_concat]
  rw [lineAt_append _ _ _ inside, columnAt_append _ _ _ inside, noStarts, length_startsFrom, last]
  exact ⟨rfl, by rw [Nat.sub_self, List.getLast?_nil, Option.map_none, Option.getD_none,
    Nat.zero_add]⟩

theorem place_of_isLine (h : IsLine cs i before line after) {k : Nat}
    (inside : k ≤ utf8Length line) :
    (ofChars cs).lineAt (utf8Length before + k) = i + 1 ∧
      (ofChars cs).columnAt (utf8Length before + k) = k := by
  rw [h.whole, ← h.number]
  exact place_of_fresh h.fresh h.one after inside

/-- Every line start before the end of the text is that of a line. -/
theorem length_linesOf (cs : List Char) :
    (linesOf cs).length = (startsOf cs).countP (· < utf8Length cs) := by
  obtain ⟨pieces, last, split⟩ := exists_front cs
  obtain ⟨before, piece⟩ := isPiece_last split
  obtain ⟨front, starts, length⟩ := startsOf_of_fresh piece.fresh
  have whole : cs = before ++ last := by rw [piece.whole, List.append_nil]
  have all : startsOf cs = front ++ [utf8Length before] := by
    rw [whole, startsOf, startsFrom_append, startsFrom_of_not_mem piece.one,
      List.append_nil, ← startsOf, starts]
  have increasing := startsOf_increasing cs
  rw [all] at increasing
  have early : ∀ start ∈ front, decide (start < utf8Length cs) = true := by
    intro start mem
    have below := (List.pairwise_append.1 increasing).2.2 start mem _ (List.mem_singleton_self _)
    have longer := utf8Length_append before last
    rw [decide_eq_true_eq, whole]
    omega
  rw [linesOf_eq split, all, List.length_append, List.length_map, length_front split,
    List.countP_append, List.countP_eq_length.2 early, length, piece.number,
    List.countP_singleton, whole, utf8Length_append]
  cases last with
  | nil => simp
  | cons c last =>
      have positive := c.utf8Size_pos
      simp
      omega

/-- The lines that a text is cut into, those that its offsets are looked up in, and the newline
bytes before an offset number the same places alike. The table of line starts is increasing and has
a start for each line that is kept. The line of an offset, also of one behind the end, is one more
than the number of newline bytes before it, and its column is counted from a line start that is not
after it: the place behind the last of these bytes, or the first place. The lines that are checked
one after the other stand at the line starts, one at each that is before the end of the text, so
that a test that finds something in a line reports the place that its offset in the text has. -/
theorem numbering_agrees (s : String) :
    (ofString s).starts.toList.Pairwise (· < ·) ∧
    (ofString s).starts.size = (ofString s).lines.size ∧
    (∀ offset,
      (ofString s).lineAt offset = 1 + ((toBytes s).take offset).count newline ∧
      ∃ start, (ofString s).starts[(ofString s).lineAt offset - 1]? = some start ∧
        IsStart (toBytes s) offset start ∧ (ofString s).columnAt offset = offset - start) ∧
    (linesOf s.toList).length = (ofString s).starts.toList.countP (· < (toBytes s).length) ∧
    ∀ i line, (linesOf s.toList)[i]? = some line →
      ∃ before after, IsLine s.toList i before line after ∧
        (ofString s).starts[i]? = some (utf8Length before) ∧
        ∀ k ≤ utf8Length line,
          (ofString s).lineAt (utf8Length before + k) = i + 1 ∧
          (ofString s).columnAt (utf8Length before + k) = k ∧
          ∀ t file, Battery.findingAt t file (ofString s) (i + 1) k =
            t.decorate (.atOffset t.id t.message file (ofString s) (utf8Length before + k)) := by
  have bytes : toBytes s = encoded s.toList := by
    rw [← toBytes_ofList, String.ofList_toList]
  refine ⟨startsOf_increasing s.toList, ?_, fun offset => ⟨?_, ?_⟩, ?_, fun i line found => ?_⟩
  · simp only [ofString, ofChars, List.size_toArray, List.length_cons, length_startsFrom,
      List.length_map, length_splitChars]
  · rw [ofString, lineAt_eq, takeWhile_startsOf, List.length_cons, length_startsFrom_upTo, bytes,
      Nat.add_comm, Nat.sub_zero]
  · refine ⟨_, getElem?_starts_lineAt s.toList offset, ?_, columnAt_eq s.toList offset⟩
    rw [bytes]
    exact isStart_getLastD s.toList offset
  · rw [bytes, length_encoded, length_linesOf]
    rfl
  · obtain ⟨before, after, isLine⟩ := isLine_of_linesOf found
    refine ⟨before, after, isLine, getElem?_starts_of_isLine isLine, fun k inside => ?_⟩
    have place := place_of_isLine isLine inside
    refine ⟨place.1, place.2, fun t file => ?_⟩
    simp only [Battery.findingAt, Finding.atOffset, ofString, place]

/-- The last of three lines, after a wide character, a carriage return and an empty line. -/
theorem numbering_agrees_third_line :
    (linesOf "ä\r\n\nx".toList)[2]? = some ['x'] ∧ 1 ≤ utf8Length ['x'] ∧
      ∃ before after, IsLine "ä\r\n\nx".toList 2 before ['x'] after ∧
        (ofString "ä\r\n\nx").starts[2]? = some (utf8Length before) ∧
        (ofString "ä\r\n\nx").lineAt (utf8Length before + 1) = 3 ∧
        (ofString "ä\r\n\nx").columnAt (utf8Length before + 1) = 1 := by
  have found : (linesOf "ä\r\n\nx".toList)[2]? = some ['x'] := by decide +kernel
  have inside : 1 ≤ utf8Length ['x'] := by decide
  obtain ⟨-, -, -, -, lines⟩ := numbering_agrees "ä\r\n\nx"
  obtain ⟨before, after, isLine, start, places⟩ := lines 2 ['x'] found
  obtain ⟨line, column, -⟩ := places 1 inside
  exact ⟨found, inside, before, after, isLine, start, line, column⟩

end Lines

end AddonAudit.Text
