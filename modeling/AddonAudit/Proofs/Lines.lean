import AddonAudit.Proofs.Search
import AddonAudit.Text.Lines

/-!
# Where the lines of a text start

A text that is put together from parts has the line starts of its parts, each shifted by the bytes
before it. So the line and the column of a place depend on what is before it only through the number
of lines and the length of the last one.
-/

namespace AddonAudit.Text

@[simp] theorem utf8Length_nil : utf8Length [] = 0 := rfl

@[simp] theorem utf8Length_cons (c : Char) (cs : List Char) :
    utf8Length (c :: cs) = c.utf8Size + utf8Length cs := rfl

@[simp] theorem utf8Length_append (cs ds : List Char) :
    utf8Length (cs ++ ds) = utf8Length cs + utf8Length ds := by
  induction cs with
  | nil => simp
  | cons c cs ih =>
      simp only [List.cons_append, utf8Length_cons, ih]
      omega

@[simp] theorem utf8Length_replicate (n : Nat) (c : Char) :
    utf8Length (List.replicate n c) = n * c.utf8Size := by
  induction n with
  | zero => simp
  | succ n ih =>
      simp only [List.replicate_succ, utf8Length_cons, ih, Nat.succ_mul]
      omega

theorem takeWhile_append_of_nil {α : Type} {p : α → Bool} {l r : List α}
    (stopped : r.takeWhile p = []) : (l ++ r).takeWhile p = l.takeWhile p := by
  rw [List.takeWhile_append, stopped, List.append_nil]
  split
  next all => exact ((List.takeWhile_prefix p).eq_of_length all).symm
  · rfl

theorem getElem?_append_length_sub_one {α : Type} {l : List α} (nonempty : l ≠ []) (r : List α) :
    (l ++ r)[l.length - 1]? = l.getLast? := by
  have length := List.length_pos_iff.2 nonempty
  rw [List.getElem?_append_left (by omega), List.getLast?_eq_getElem?]

/-- A list is cut before the last elements of it that all have a property. -/
theorem exists_lastRun {α : Type} (p : α → Bool) (l : List α) :
    ∃ front, l = front ++ (l.reverse.takeWhile p).reverse ∧ ∀ x ∈ front.getLast?, p x = false := by
  refine ⟨(l.reverse.dropWhile p).reverse, ?_, ?_⟩
  · rw [← List.reverse_append, List.takeWhile_append_dropWhile, List.reverse_reverse]
  · intro x mem
    rw [List.getLast?_reverse] at mem
    have stops := List.head?_dropWhile_not p l.reverse
    rw [mem] at stops
    exact stops

namespace Lines

theorem startsFrom_cons (offset : Nat) (c : Char) (cs : List Char) :
    startsFrom offset (c :: cs) =
      if c = '\n' then (offset + c.utf8Size) :: startsFrom (offset + c.utf8Size) cs
      else startsFrom (offset + c.utf8Size) cs := rfl

theorem startsFrom_append (offset : Nat) (cs ds : List Char) :
    startsFrom offset (cs ++ ds) =
      startsFrom offset cs ++ startsFrom (offset + utf8Length cs) ds := by
  induction cs generalizing offset with
  | nil => rfl
  | cons c cs ih =>
      simp only [List.cons_append, startsFrom_cons, utf8Length_cons, ih, Nat.add_assoc]
      split <;> rfl

/-- What is before a text shifts its line starts. -/
theorem startsFrom_add (offset shift : Nat) (cs : List Char) :
    startsFrom (shift + offset) cs = (startsFrom offset cs).map (shift + ·) := by
  induction cs generalizing offset with
  | nil => rfl
  | cons c cs ih =>
      simp only [startsFrom_cons, Nat.add_assoc, ih]
      split <;> rfl

theorem startsFrom_of_not_mem {cs : List Char} (one : '\n' ∉ cs) (offset : Nat) :
    startsFrom offset cs = [] := by
  induction cs generalizing offset with
  | nil => rfl
  | cons c cs ih =>
      rw [startsFrom_cons, if_neg (List.ne_of_not_mem_cons one).symm]
      exact ih (List.not_mem_of_not_mem_cons one) _

/-- A text of line ends starts a line at each byte. -/
theorem startsFrom_newlines (offset n : Nat) :
    startsFrom offset (List.replicate n '\n') = List.range' (offset + 1) n := by
  induction n generalizing offset with
  | zero => rfl
  | succ n ih =>
      rw [List.replicate_succ, startsFrom_cons, if_pos rfl, ih]
      rfl

/-- A line starts after the first byte, and not after the end. -/
theorem mem_startsFrom {offset start : Nat} {cs : List Char} (mem : start ∈ startsFrom offset cs) :
    offset < start ∧ start ≤ offset + utf8Length cs := by
  induction cs generalizing offset with
  | nil => cases mem
  | cons c cs ih =>
      have size := c.utf8Size_pos
      have later : start ∈ startsFrom (offset + c.utf8Size) cs →
          offset < start ∧ start ≤ offset + utf8Length (c :: cs) := by
        intro mem
        have bounds := ih mem
        simp only [utf8Length_cons]
        omega
      rw [startsFrom_cons] at mem
      split at mem
      · rcases List.mem_cons.1 mem with rfl | mem
        · simp only [utf8Length_cons]
          omega
        · exact later mem
      · exact later mem

/-- The byte offsets at which the lines of a text start. -/
def startsOf (cs : List Char) : List Nat :=
  0 :: startsFrom 0 cs

theorem starts_ofChars (cs : List Char) : (ofChars cs).starts = (startsOf cs).toArray := rfl

theorem startsFrom_increasing (offset : Nat) (cs : List Char) :
    (startsFrom offset cs).Pairwise (· < ·) := by
  induction cs generalizing offset with
  | nil => exact .nil
  | cons c cs ih =>
      rw [startsFrom_cons]
      split
      · exact List.pairwise_cons.2 ⟨fun start mem => (mem_startsFrom mem).1, ih _⟩
      · exact ih _

/-- Every line starts after the one before it. -/
theorem startsOf_increasing (cs : List Char) : (startsOf cs).Pairwise (· < ·) :=
  List.pairwise_cons.2 ⟨fun _ mem => (mem_startsFrom mem).1, startsFrom_increasing 0 cs⟩

/-- The first line starts before every place. -/
theorem takeWhile_startsOf (cs : List Char) (offset : Nat) :
    (startsOf cs).takeWhile (· ≤ offset) = 0 :: (startsFrom 0 cs).takeWhile (· ≤ offset) :=
  List.takeWhile_cons_of_pos (by simp)

/-- The line of a place is the number of line starts up to it. -/
theorem lineAt_eq (cs : List Char) (offset : Nat) :
    (ofChars cs).lineAt offset = ((startsOf cs).takeWhile (· ≤ offset)).length := by
  have search := binarySearch_eq (edge_of_increasing (startsOf_increasing cs) offset)
  rw [lineAt, starts_ofChars, search]
  split
  next index found =>
    split at found
    next more =>
      cases found
      omega
    · cases found
  next index missing =>
    split at missing
    · cases missing
    · cases missing
      rfl

/-- The line start that the column of a place is counted from is the last one up to it. -/
theorem getElem?_starts_lineAt (cs : List Char) (offset : Nat) :
    (ofChars cs).starts[(ofChars cs).lineAt offset - 1]? =
      some (((startsOf cs).takeWhile (· ≤ offset)).getLastD 0) := by
  have nonempty : (startsOf cs).takeWhile (· ≤ offset) ≠ [] := by
    rw [takeWhile_startsOf]
    exact List.cons_ne_nil _ _
  have last := getElem?_append_length_sub_one nonempty ((startsOf cs).dropWhile (· ≤ offset))
  rw [List.takeWhile_append_dropWhile] at last
  rw [lineAt_eq, starts_ofChars, List.getElem?_toArray, last, List.getLastD_eq_getLast?,
    List.getLast?_eq_some_getLast nonempty, Option.getD_some]

theorem columnAt_eq (cs : List Char) (offset : Nat) :
    (ofChars cs).columnAt offset = offset - ((startsOf cs).takeWhile (· ≤ offset)).getLastD 0 := by
  rw [columnAt, Array.getD_eq_getD_getElem?, getElem?_starts_lineAt, Option.getD_some]

/-- The start of the last line. -/
def lastStart (cs : List Char) : Nat :=
  (startsOf cs).getLastD 0

theorem lastStart_le (cs : List Char) : lastStart cs ≤ utf8Length cs := by
  have last : lastStart cs ∈ 0 :: startsFrom 0 cs := by
    rw [lastStart, startsOf, List.getLastD_eq_getLast?,
      List.getLast?_eq_some_getLast (List.cons_ne_nil _ _)]
    exact List.getLast_mem _
  rcases List.mem_cons.1 last with first | later
  · omega
  · have bounds := mem_startsFrom later
    omega

/-- The line starts of a text that are not after a place inside of it. -/
def startsUpTo (cs : List Char) (k : Nat) : List Nat :=
  (startsFrom 0 cs).takeWhile (· ≤ k)

theorem startsUpTo_zero (cs : List Char) : startsUpTo cs 0 = [] := by
  rw [startsUpTo, List.takeWhile_eq_nil_iff]
  intro nonempty
  have bounds := mem_startsFrom (List.get_mem (startsFrom 0 cs) ⟨0, nonempty⟩)
  simp only [decide_eq_true_eq]
  omega

/-- Up to a place in the middle part of a text there are all line starts of the part before it, and
those of the middle part up to the place. -/
theorem takeWhile_starts (cs ds es : List Char) {k : Nat} (inside : k ≤ utf8Length ds) :
    (startsOf (cs ++ ds ++ es)).takeWhile (· ≤ utf8Length cs + k) =
      startsOf cs ++ (startsUpTo ds k).map (utf8Length cs + ·) := by
  have before : ∀ start ∈ startsOf cs, decide (start ≤ utf8Length cs + k) = true := by
    intro start mem
    rcases List.mem_cons.1 mem with rfl | mem
    · simp
    · have bounds := mem_startsFrom mem
      simp only [decide_eq_true_eq]
      omega
  have after : (startsFrom (utf8Length (cs ++ ds)) es).takeWhile (· ≤ utf8Length cs + k) = [] := by
    rw [List.takeWhile_eq_nil_iff]
    intro nonempty
    have bounds :=
      mem_startsFrom (List.get_mem (startsFrom (utf8Length (cs ++ ds)) es) ⟨0, nonempty⟩)
    have length := utf8Length_append cs ds
    simp only [decide_eq_true_eq]
    omega
  have middle : (startsFrom (utf8Length cs) ds).takeWhile (· ≤ utf8Length cs + k) =
      (startsUpTo ds k).map (utf8Length cs + ·) := by
    have shifted := startsFrom_add 0 (utf8Length cs) ds
    rw [Nat.add_zero] at shifted
    rw [shifted, List.takeWhile_map, startsUpTo]
    simp [Function.comp_def]
  have starts : startsOf (cs ++ ds ++ es) = startsOf cs ++
      (startsFrom (utf8Length cs) ds ++ startsFrom (utf8Length (cs ++ ds)) es) := by
    simp only [startsOf, startsFrom_append, Nat.zero_add, List.cons_append, List.append_assoc,
      utf8Length_append]
  rw [starts, List.takeWhile_append_of_pos before, takeWhile_append_of_nil after, middle]

/-- The line of a place in the middle part of a text. -/
theorem lineAt_append (cs ds es : List Char) {k : Nat} (inside : k ≤ utf8Length ds) :
    (ofChars (cs ++ ds ++ es)).lineAt (utf8Length cs + k) =
      (startsFrom 0 cs).length + 1 + (startsUpTo ds k).length := by
  rw [lineAt_eq, takeWhile_starts cs ds es inside, List.length_append, startsOf, List.length_cons,
    List.length_map]

/-- The column of a place in the middle part of a text, if no line starts between. -/
theorem columnAt_append (cs ds es : List Char) {k : Nat} (inside : k ≤ utf8Length ds) :
    (ofChars (cs ++ ds ++ es)).columnAt (utf8Length cs + k) =
      ((startsUpTo ds k).getLast?.map (k - ·)).getD (utf8Length cs - lastStart cs + k) := by
  have le := lastStart_le cs
  rw [columnAt_eq, takeWhile_starts cs ds es inside, List.getLastD_eq_getLast?,
    List.getLast?_append, List.getLast?_map]
  cases (startsUpTo ds k).getLast? with
  | none =>
      have last : (startsOf cs).getLast?.getD 0 = lastStart cs := by
        rw [lastStart, List.getLastD_eq_getLast?]
      simp only [Option.map_none, Option.none_or, Option.getD_none, last]
      omega
  | some start =>
      simp only [Option.map_some, Option.some_or, Option.getD_some]
      omega

/-- The line of the first byte of a part. -/
theorem lineAt_start (cs ds es : List Char) :
    (ofChars (cs ++ ds ++ es)).lineAt (utf8Length cs) = (startsFrom 0 cs).length + 1 := by
  have line := lineAt_append cs ds es (Nat.zero_le (utf8Length ds))
  rwa [startsUpTo_zero, Nat.add_zero] at line

/-- The column of the first byte of a part. -/
theorem columnAt_start (cs ds es : List Char) :
    (ofChars (cs ++ ds ++ es)).columnAt (utf8Length cs) = utf8Length cs - lastStart cs := by
  have column := columnAt_append cs ds es (Nat.zero_le (utf8Length ds))
  rwa [startsUpTo_zero, Nat.add_zero] at column

end Lines

end AddonAudit.Text
