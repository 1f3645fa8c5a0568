import AddonAudit.Check.Markup
import AddonAudit.Proofs.Matching

/-!
# Scripts keep their places

The code of a script inside of a document is padded, and the marks of its sections are blanked, so
that every byte of the code has the line and the column that it has in the document. The padding
gives the code the line and the column of its first byte; the blanks are as long as the marks, and
no mark contains the end of a line, so nothing behind it moves.
-/

namespace AddonAudit

namespace Markup

/-- The marks of a section. -/
def marks : List (List Char) :=
  ["<![CDATA[".toList, "]]>".toList]

/-- The marks of sections are replaced by as many spaces as they have bytes, and nothing else is. -/
inductive Blanked : List Char → List Char → Prop where
  | nil : Blanked [] []
  | mark {mark rest out : List Char} (isMark : mark ∈ marks) (after : Blanked rest out) :
      Blanked (mark ++ rest) (List.replicate (Text.utf8Length mark) ' ' ++ out)
  | other {c : Char} {rest out : List Char} (noMark : ∀ mark ∈ marks, ¬mark <+: c :: rest)
      (after : Blanked rest out) : Blanked (c :: rest) (c :: out)

/-- The search stops behind a mark that stands at the place, and finds nothing if there is none. -/
theorem matchAt?_sectionMark (c : Pattern.Cursor) :
    (∃ mark ∈ marks, mark <+: c.rest ∧
      ∃ m, sectionMark.matchAt? c = some m ∧ m.stop.rest = c.rest.drop mark.length) ∨
    (∀ mark ∈ marks, ¬mark <+: c.rest) ∧ sectionMark.matchAt? c = none := by
  rw [Pattern.matchAt?, sectionMark, Pattern.run, Pattern.run_text, Pattern.run_text]
  by_cases opening : "<![CDATA[".toList <+: c.rest
  · refine .inl ⟨"<![CDATA[".toList, List.mem_cons_self, opening,
      ⟨c.offset, Pattern.Cursor.skip { c with groups := [] } "<![CDATA[".toList⟩, ?_,
      Pattern.Cursor.rest_skip _ _⟩
    simp only [if_pos opening]
    rfl
  · by_cases closing : "]]>".toList <+: c.rest
    · refine .inl ⟨"]]>".toList, List.mem_cons_of_mem _ List.mem_cons_self, closing,
        ⟨c.offset, Pattern.Cursor.skip { c with groups := [] } "]]>".toList⟩, ?_,
        Pattern.Cursor.rest_skip _ _⟩
      simp only [if_neg opening, if_pos closing]
      rfl
    · refine .inr ⟨?_, ?_⟩
      · simpa [marks] using ⟨opening, closing⟩
      · simp only [if_neg opening, if_neg closing]
        rfl

theorem length_mark_pos {mark : List Char} (isMark : mark ∈ marks) : 0 < mark.length := by
  revert mark
  decide

/-- Every mark of a section is blanked. -/
theorem blanked_withoutSections (code : List Char) : Blanked code (withoutSections code) := by
  refine Pattern.replaceAll_induction .nil ?_ ?_ code
  · intro before c cs out idle after
    obtain ⟨mark, isMark, stands, m, found, stop⟩ | ⟨noMark, -⟩ :=
      matchAt?_sectionMark { before, rest := c :: cs }
    · have length := congrArg List.length (stop.symm.trans (idle m found))
      have positive := length_mark_pos isMark
      rw [List.length_drop, List.length_cons] at length
      omega
    · exact .other noMark after
  · intro before m taken rest out found stop after
    obtain ⟨mark, isMark, ⟨rest', whole⟩, m', found', stop'⟩ | ⟨-, unfound⟩ :=
      matchAt?_sectionMark { before, rest := taken ++ rest }
    · cases found.symm.trans found'
      have whole : mark ++ rest' = taken ++ rest := whole
      have same : rest' = rest := by
        rw [← stop, stop', ← whole, List.drop_left]
      obtain rfl := List.append_cancel_right (same ▸ whole)
      exact .mark isMark after
    · cases found.symm.trans unfound

theorem newline_not_mem_mark {mark : List Char} (isMark : mark ∈ marks) : '\n' ∉ mark := by
  revert mark
  decide

theorem Blanked.utf8Length {cs ds : List Char} (blanked : Blanked cs ds) :
    Text.utf8Length ds = Text.utf8Length cs := by
  induction blanked with
  | nil => rfl
  | mark _ _ ih =>
      have space : ' '.utf8Size = 1 := rfl
      rw [Text.utf8Length_append, Text.utf8Length_append, Text.utf8Length_replicate, ih, space,
        Nat.mul_one]
  | other _ _ ih => rw [Text.utf8Length_cons, Text.utf8Length_cons, ih]

/-- Blanks do not move the starts of lines. -/
theorem Blanked.startsFrom {cs ds : List Char} (blanked : Blanked cs ds) (offset : Nat) :
    Text.Lines.startsFrom offset ds = Text.Lines.startsFrom offset cs := by
  induction blanked generalizing offset with
  | nil => rfl
  | @mark mark rest out isMark after ih =>
      have space : ' '.utf8Size = 1 := rfl
      have spaces : '\n' ∉ List.replicate (Text.utf8Length mark) ' ' := fun mem =>
        absurd (List.eq_of_mem_replicate mem) (by decide)
      rw [Text.Lines.startsFrom_append, Text.Lines.startsFrom_append,
        Text.Lines.startsFrom_of_not_mem spaces,
        Text.Lines.startsFrom_of_not_mem (newline_not_mem_mark isMark),
        Text.utf8Length_replicate, space, Nat.mul_one, ih]
  | other _ _ ih => simp only [Text.Lines.startsFrom_cons, ih]

/-- Code after so much blank space that it stands at an offset of a document. -/
def placed (lines : Text.Lines) (offset : Nat) (code : List Char) : List Char :=
  padded (lines.lineAt offset) (lines.columnAt offset) code

/-- The number of bytes before code that stands at an offset. -/
def padding (lines : Text.Lines) (offset : Nat) : Nat :=
  Text.utf8Length (placed lines offset [])

theorem startsFrom_padding (n column : Nat) :
    Text.Lines.startsFrom 0 (List.replicate n '\n' ++ List.replicate column ' ') =
      List.range' 1 n := by
  have spaces : '\n' ∉ List.replicate column ' ' := fun mem =>
    absurd (List.eq_of_mem_replicate mem) (by decide)
  rw [Text.Lines.startsFrom_append, Text.Lines.startsFrom_newlines,
    Text.Lines.startsFrom_of_not_mem spaces, List.append_nil]

theorem utf8Length_padding (n column : Nat) :
    Text.utf8Length (List.replicate n '\n' ++ List.replicate column ' ') = n + column := by
  have newline : '\n'.utf8Size = 1 := rfl
  have space : ' '.utf8Size = 1 := rfl
  rw [Text.utf8Length_append, Text.utf8Length_replicate, Text.utf8Length_replicate, newline, space,
    Nat.mul_one, Nat.mul_one]

theorem lastStart_padding (n column : Nat) :
    Text.Lines.lastStart (List.replicate n '\n' ++ List.replicate column ' ') = n := by
  rw [Text.Lines.lastStart, Text.Lines.startsOf, startsFrom_padding]
  cases n with
  | zero => rfl
  | succ n =>
      rw [List.range'_concat, ← List.cons_append, List.getLastD_concat]
      omega

/-- The bytes of a script in a document, whose section marks are blanked, have the lines and columns
in the padded code that they have in the document. -/
theorem placed_keeps_places {source before body after : List Char}
    (range : source = before ++ body ++ after) {k : Nat} (inside : k ≤ Text.utf8Length body) :
    Blanked body (withoutSections body) ∧
    (Text.Lines.ofChars
        (placed (.ofChars source) (Text.utf8Length before) (withoutSections body))).lineAt
      (padding (.ofChars source) (Text.utf8Length before) + k) =
        (Text.Lines.ofChars source).lineAt (Text.utf8Length before + k) ∧
    (Text.Lines.ofChars
        (placed (.ofChars source) (Text.utf8Length before) (withoutSections body))).columnAt
      (padding (.ofChars source) (Text.utf8Length before) + k) =
        (Text.Lines.ofChars source).columnAt (Text.utf8Length before + k) := by
  subst range
  have blanked := blanked_withoutSections body
  refine ⟨blanked, ?_⟩
  have starts : Text.Lines.startsUpTo (withoutSections body) k = Text.Lines.startsUpTo body k := by
    rw [Text.Lines.startsUpTo, blanked.startsFrom, Text.Lines.startsUpTo]
  have inside' : k ≤ Text.utf8Length (withoutSections body) := blanked.utf8Length ▸ inside
  -- the padding has the lines before the script, and the last of them is as long as in the document
  rw [padding, placed, placed, Text.Lines.lineAt_start, Text.Lines.columnAt_start, padded, padded,
    Nat.add_sub_cancel, List.append_nil, ← List.append_nil (_ ++ withoutSections body),
    Text.Lines.lineAt_append _ _ _ inside', Text.Lines.lineAt_append _ _ _ inside,
    Text.Lines.columnAt_append _ _ _ inside', Text.Lines.columnAt_append _ _ _ inside, starts,
    startsFrom_padding, utf8Length_padding, lastStart_padding, List.length_range',
    Nat.add_sub_cancel_left]
  exact ⟨rfl, rfl⟩

/-- A script that starts behind a wide character and a mark, whose second line is that of the
document. -/
theorem placed_keeps_places_second_line :
    "<p>\nä<![CDATA[\r\nx]]>y</p>".toList =
        "<p>\nä".toList ++ "<![CDATA[\r\nx]]>y".toList ++ "</p>".toList ∧
    (Text.Lines.ofChars (placed (.ofChars "<p>\nä<![CDATA[\r\nx]]>y</p>".toList) 6
        (withoutSections "<![CDATA[\r\nx]]>y".toList))).lineAt
      (padding (.ofChars "<p>\nä<![CDATA[\r\nx]]>y</p>".toList) 6 + 15) = 3 ∧
    (Text.Lines.ofChars (placed (.ofChars "<p>\nä<![CDATA[\r\nx]]>y</p>".toList) 6
        (withoutSections "<![CDATA[\r\nx]]>y".toList))).columnAt
      (padding (.ofChars "<p>\nä<![CDATA[\r\nx]]>y</p>".toList) 6 + 15) = 4 :=
  have range : "<p>\nä<![CDATA[\r\nx]]>y</p>".toList =
      "<p>\nä".toList ++ "<![CDATA[\r\nx]]>y".toList ++ "</p>".toList := by decide +kernel
  have kept := (placed_keeps_places range (k := 15) (by decide +kernel)).2
  ⟨range, kept.1.trans (by decide +kernel), kept.2.trans (by decide +kernel)⟩

end Markup

end AddonAudit
