import AddonAudit.Proofs.Lines
import AddonAudit.Script.Engine.Literal

/-!
# The text of literals

A literal is read by a cursor that goes from one piece with a node of its own to the next. What it
passes over is cut out of the literal's text by byte offsets. Nothing is lost or doubled by that:
the text of a literal is that of its pieces, one after the other.
-/

namespace AddonAudit.Text

theorem eq_nil_of_utf8Length {cs : List Char} (zero : utf8Length cs = 0) : cs = [] := by
  cases cs with
  | nil => rfl
  | cons c cs =>
      have size := c.utf8Size_pos
      rw [utf8Length_cons] at zero
      omega

/-- A count of bytes that starts with those of a character, as the functions on texts take it
apart. -/
theorem utf8Size_add (c : Char) (n : Nat) :
    ∃ m, c.utf8Size + n = m + 1 ∧ c.utf8Size ≤ m + 1 ∧ m + 1 - c.utf8Size = n := by
  have size := c.utf8Size_pos
  exact ⟨c.utf8Size + n - 1, by omega, by omega, by omega⟩

theorem takeBytes?_cons (c : Char) (n : Nat) (rest : List Char) :
    takeBytes? (c.utf8Size + n) (c :: rest) = (takeBytes? n rest).map (c :: ·) := by
  obtain ⟨m, bytes, fits, left⟩ := utf8Size_add c n
  rw [bytes, takeBytes?, if_pos fits, left]

theorem dropBytes?_cons (c : Char) (n : Nat) (rest : List Char) :
    dropBytes? (c.utf8Size + n) (c :: rest) = dropBytes? n rest := by
  obtain ⟨m, bytes, fits, left⟩ := utf8Size_add c n
  rw [bytes, dropBytes?, if_pos fits, left]

theorem takeBytes?_append (cs ds : List Char) :
    takeBytes? (utf8Length cs) (cs ++ ds) = some cs := by
  induction cs with
  | nil => rw [utf8Length_nil, takeBytes?]
  | cons c cs ih => rw [utf8Length_cons, List.cons_append, takeBytes?_cons, ih, Option.map_some]

theorem dropBytes?_append (cs ds : List Char) :
    dropBytes? (utf8Length cs) (cs ++ ds) = some ds := by
  induction cs with
  | nil => rw [utf8Length_nil, List.nil_append, dropBytes?]
  | cons c cs ih => rw [utf8Length_cons, List.cons_append, dropBytes?_cons, ih]

/-- The middle part of a text lies between the offsets of its ends. -/
theorem slice?_append (cs ds es : List Char) :
    slice? (utf8Length cs) (utf8Length cs + utf8Length ds) (cs ++ ds ++ es) = some ds := by
  rw [slice?, if_pos (Nat.le_add_right _ _), List.append_assoc, dropBytes?_append, Option.bind_some,
    Nat.add_sub_cancel_left, takeBytes?_append]

end AddonAudit.Text

namespace AddonAudit.Script

open Text Engine

/-- A piece of the body of a literal: plain text, or what a node stands for. -/
inductive Piece where
  | raw (cs : List Char)
  | node (n : Node)

/-- The text of a piece in the source. -/
def Piece.text : Piece → List Char
  | .raw cs => cs
  | .node n => n.text.toList

/-- The nodes of some kinds are those of the pieces that start at an offset, each where its piece
stands. Other nodes do not count. -/
inductive Laid (counts : Kind → Prop) : Nat → List Piece → List Node → Prop where
  | nil (offset : Nat) : Laid counts offset [] []
  | raw {offset : Nat} {cs : List Char} {pieces : List Piece} {nodes : List Node}
      (after : Laid counts (offset + utf8Length cs) pieces nodes) :
      Laid counts offset (.raw cs :: pieces) nodes
  | node {offset : Nat} {c : Node} {pieces : List Piece} {nodes : List Node}
      (place : c.start.offset = offset) (counted : counts c.kind)
      (after : Laid counts c.stop pieces nodes) :
      Laid counts offset (.node c :: pieces) (c :: nodes)
  | other {offset : Nat} {c : Node} {pieces : List Piece} {nodes : List Node}
      (uncounted : ¬counts c.kind) (after : Laid counts offset pieces nodes) :
      Laid counts offset pieces (c :: nodes)

/-- What stands around the body of a literal. -/
def quotes : List Char :=
  ['\'', '"', '\x60']

/-- A literal whose body is given pieces between two quotes. -/
structure Spells (counts : Kind → Prop) (quote : Char) (pieces : List Piece) (n : Node) : Prop where
  isQuote : quote ∈ quotes
  text : n.text.toList = [quote] ++ pieces.flatMap Piece.text ++ [quote]
  laid : Laid counts (n.start.offset + 1) pieces n.parts

theorem utf8Size_of_quote {quote : Char} (isQuote : quote ∈ quotes) : quote.utf8Size = 1 := by
  have all : quotes.all (·.utf8Size = 1) = true := by decide
  exact of_decide_eq_true (List.all_eq_true.1 all quote isQuote)

/-- The part of a node's text between two parts. -/
theorem Node.slice_eq {n : Node} {front middle back : List Char}
    (text : n.text.toList = front ++ middle ++ back) {start stop : Nat}
    (starts : start = n.start.offset + utf8Length front)
    (stops : stop = start + utf8Length middle) : n.slice start stop = middle := by
  have first : start - n.start.offset = utf8Length front := by omega
  have last : stop - n.start.offset = utf8Length front + utf8Length middle := by omega
  rw [Node.slice, first, last, text, slice?_append, Option.getD_some]

/-- The last byte of a literal is its closing quote. -/
theorem stop_sub_one {n : Node} {front : List Char} {quote : Char} (isQuote : quote ∈ quotes)
    (text : n.text.toList = front ++ [quote]) : n.stop - 1 = n.start.offset + utf8Length front := by
  have size := utf8Size_of_quote isQuote
  rw [Node.stop, text, utf8Length_append, utf8Length_cons, utf8Length_nil, size]
  omega

/-- Where a cursor is in a literal. Behind it is `front`; the plain text `pending` is not cut out
yet, and the pieces that follow start at an offset. -/
structure CursorAt (n : Node) (quote : Char) (front pending : List Char) (position offset : Nat)
    (pieces : List Piece) : Prop where
  text : n.text.toList = front ++ pending ++ pieces.flatMap Piece.text ++ [quote]
  starts : position = n.start.offset + utf8Length front
  reached : offset = position + utf8Length pending

namespace CursorAt

variable {n c : Node} {quote : Char} {front pending cs : List Char} {position offset : Nat}
  {pieces : List Piece}

/-- The cursor starts behind the opening quote. -/
theorem opening (isQuote : quote ∈ quotes)
    (text : n.text.toList = [quote] ++ pieces.flatMap Piece.text ++ [quote]) :
    CursorAt n quote [quote] [] (n.start.offset + 1) (n.start.offset + 1) pieces where
  text := by rw [text, List.append_nil]
  starts := by rw [utf8Length_cons, utf8Size_of_quote isQuote, utf8Length_nil]
  reached := rfl

/-- Plain text is passed over. -/
theorem raw (h : CursorAt n quote front pending position offset (.raw cs :: pieces)) :
    CursorAt n quote front (pending ++ cs) position (offset + utf8Length cs) pieces where
  text := by simpa [Piece.text] using h.text
  starts := h.starts
  reached := by rw [utf8Length_append, h.reached, Nat.add_assoc]

/-- What is cut out where the next pieces start is the pending text. -/
theorem slice_eq (h : CursorAt n quote front pending position offset pieces) :
    n.slice position offset = pending := by
  have whole : n.text.toList = front ++ pending ++ (pieces.flatMap Piece.text ++ [quote]) := by
    simpa using h.text
  exact Node.slice_eq whole h.starts h.reached

/-- The cursor goes on behind a node. -/
theorem node (h : CursorAt n quote front pending position c.start.offset (.node c :: pieces)) :
    CursorAt n quote (front ++ pending ++ c.text.toList) [] c.stop c.stop pieces where
  text := by simpa [Piece.text] using h.text
  starts := by
    rw [Node.stop, h.reached, h.starts, utf8Length_append, utf8Length_append]
    omega
  reached := rfl

/-- At the end the pending text goes up to the closing quote. -/
theorem stop_eq (isQuote : quote ∈ quotes)
    (h : CursorAt n quote front pending position offset []) : n.stop - 1 = offset := by
  have whole : n.text.toList = front ++ pending ++ [quote] := by simpa using h.text
  rw [stop_sub_one isQuote whole, utf8Length_append, h.reached, h.starts, Nat.add_assoc]

end CursorAt

section Strings

/-- What a piece of a string stands for. -/
def Piece.content : Piece → List Char
  | .raw cs => cs
  | .node n => decodeEscape n.text.toList

/-- Whether a piece of this kind stands for another text in a string. -/
def IsEscape (k : Kind) : Prop :=
  k = .escapeSequence

variable {n : Node} {pieces : List Piece} {nodes : List Node} {quote : Char}

theorem contentFrom_eq (isQuote : quote ∈ quotes) {offset : Nat}
    (laid : Laid IsEscape offset pieces nodes) {front pending : List Char} {position : Nat}
    (cursor : CursorAt n quote front pending position offset pieces) :
    contentFrom n position nodes = pending ++ pieces.flatMap Piece.content := by
  induction laid generalizing front pending position with
  | nil offset =>
      rw [contentFrom, cursor.stop_eq isQuote, cursor.slice_eq, List.flatMap_nil, List.append_nil]
  | @raw offset cs pieces nodes after ih =>
      rw [ih cursor.raw, List.flatMap_cons, Piece.content, List.append_assoc]
  | @node offset c pieces nodes place counted after ih =>
      subst place
      have isEscape : c.kind = .escapeSequence := counted
      rw [contentFrom, if_pos isEscape, cursor.slice_eq, ih cursor.node, escapedText,
        List.flatMap_cons, Piece.content, List.nil_append, List.append_assoc]
  | @other offset c pieces nodes uncounted after ih =>
      have plain : ¬c.kind = .escapeSequence := uncounted
      rw [contentFrom, if_neg plain]
      exact ih cursor

/-- A piece without text stands for nothing. -/
theorem Piece.content_of_text {p : Piece} (empty : p.text = []) : p.content = [] := by
  cases p with
  | raw cs => exact empty
  | node c =>
      have noText : c.text.toList = [] := empty
      rw [Piece.content, noText]
      rfl

/-- A string stands for what its pieces stand for. -/
theorem stringContent_eq (spells : Spells IsEscape quote pieces n) :
    stringContent n = String.ofList (pieces.flatMap Piece.content) := by
  have last := stop_sub_one spells.isQuote spells.text
  have size := utf8Size_of_quote spells.isQuote
  rw [stringContent]
  split
  next short =>
    -- the body is empty, and so is what its pieces stand for
    have empty : pieces.flatMap Piece.text = [] := by
      rw [utf8Length_append, utf8Length_cons, utf8Length_nil, size] at last
      exact eq_nil_of_utf8Length (by omega)
    have nothing : pieces.flatMap Piece.content = [] :=
      List.flatMap_eq_nil_iff.2 fun p mem =>
        Piece.content_of_text (List.flatMap_eq_nil_iff.1 empty p mem)
    rw [nothing]
  next long =>
    rw [contentFrom_eq spells.isQuote spells.laid (.opening spells.isQuote spells.text),
      List.nil_append]

end Strings

section Templates

/-- Whether a piece of this kind stands for another text in a template. -/
def IsReplaced (k : Kind) : Prop :=
  k = .escapeSequence ∨ k = .templateSubstitution

/-- What a piece of a template stands for, if it is known. -/
def Piece.evaluate (visit : Visit) : Piece → Engine (Option (List Char))
  | .raw cs => return some cs
  | .node n => do
    if n.kind = .templateSubstitution then
      let v ← visit n
      if v.isDirty then return none
      else return some ((← heap).toText v).toList
    else return some (decodeEscape n.text.toList)

/-- The value of a template whose pieces stand for texts. Where one is not known the value is
not. -/
def joined (texts : List (Option (List Char))) : Value :=
  { Value.string (String.ofList (texts.flatMap (·.getD []))) with dirty := texts.any (·.isNone) }

/-- The value that a draft of a template leads to. -/
def Draft.finish (n : Node) (d : Draft) : Value :=
  let text := d.text ++ n.slice d.position (max (n.stop - 1) (n.start.offset + 1))
  { Value.string (String.ofList text) with dirty := d.dirty }

theorem templateValue_eq_finish (visit : Visit) (n : Node) :
    templateValue visit n =
      Draft.finish n <$> templatePieces visit n { position := n.start.offset + 1 } n.parts := rfl

/-- The value of a template of which some text is known and the rest is still to come. -/
def joinedAfter (text : List Char) (dirty : Bool) (texts : List (Option (List Char))) : Value :=
  { Value.string (String.ofList (text ++ texts.flatMap (·.getD []))) with
    dirty := dirty || texts.any (·.isNone) }

theorem joinedAfter_some (text : List Char) (dirty : Bool) (cs : List Char)
    (texts : List (Option (List Char))) :
    joinedAfter text dirty (some cs :: texts) = joinedAfter (text ++ cs) dirty texts := by
  simp [joinedAfter]

theorem joinedAfter_none (text : List Char) (dirty : Bool) (texts : List (Option (List Char))) :
    joinedAfter text dirty (none :: texts) = joinedAfter text true texts := by
  simp [joinedAfter]

variable {visit : Visit} {n : Node} {pieces : List Piece} {nodes : List Node} {quote : Char}

/-- A draft whose cursor is somewhere behind the opening quote becomes the value of the whole
template. -/
theorem templatePieces_eq (isQuote : quote ∈ quotes) {offset : Nat}
    (laid : Laid IsReplaced offset pieces nodes) {front pending : List Char} {d : Draft}
    (cursor : CursorAt n quote front pending d.position offset pieces)
    (opened : 1 ≤ utf8Length front) :
    Draft.finish n <$> templatePieces visit n d nodes =
      joinedAfter (d.text ++ pending) d.dirty <$> pieces.mapM (Piece.evaluate visit) := by
  induction laid generalizing front pending d with
  | nil offset =>
      have starts := cursor.starts
      have reached := cursor.reached
      have stop : max (n.stop - 1) (n.start.offset + 1) = offset := by
        rw [cursor.stop_eq isQuote]
        omega
      rw [templatePieces, List.mapM_nil, map_pure, map_pure, Draft.finish, stop, cursor.slice_eq]
      simp [joinedAfter]
  | @raw offset cs pieces nodes after ih =>
      rw [ih cursor.raw opened, List.mapM_cons, Piece.evaluate]
      simp [joinedAfter_some]
  | @node offset c pieces nodes place counted after ih =>
      subst place
      have longer : 1 ≤ utf8Length (front ++ pending ++ c.text.toList) := by
        rw [utf8Length_append, utf8Length_append]
        omega
      have later : ∀ t dirty,
          Draft.finish n <$> templatePieces visit n { d.replace n c t with dirty } nodes =
            joinedAfter (d.text ++ pending ++ t) dirty <$> pieces.mapM (Piece.evaluate visit) := by
        intro t dirty
        rw [ih (d := { d.replace n c t with dirty }) cursor.node longer, Draft.replace,
          cursor.slice_eq, List.append_nil]
      rw [List.mapM_cons, Piece.evaluate, templatePieces]
      rcases counted with isEscape | isSubstitution
      · simp only [isEscape]
        rw [if_neg (by decide), pure_bind, bind_pure_comp, Functor.map_map]
        simp only [joinedAfter_some]
        exact later (escapedText c) d.dirty
      · simp only [isSubstitution, if_true, map_bind, bind_assoc]
        refine bind_congr fun v => ?_
        split
        · rw [pure_bind, later, List.append_nil]
          simp only [map_pure, bind_pure_comp, joinedAfter_none]
        · simp only [map_bind, bind_assoc, pure_bind]
          refine bind_congr fun h => (later _ d.dirty).trans ?_
          simp only [map_pure, bind_pure_comp, joinedAfter_some]
  | @other offset c pieces nodes uncounted after ih =>
      rw [templatePieces]
      split
      next isSubstitution => exact absurd (.inr isSubstitution) uncounted
      next isEscape => exact absurd (.inl isEscape) uncounted
      · exact ih cursor opened

/-- A template stands for what its pieces stand for, as far as that is known. -/
theorem templateValue_eq (spells : Spells IsReplaced quote pieces n) :
    templateValue visit n = joined <$> pieces.mapM (Piece.evaluate visit) := by
  have opened : 1 ≤ utf8Length [quote] := by
    rw [utf8Length_cons, utf8Size_of_quote spells.isQuote]
    exact Nat.le_add_right 1 _
  have cursor := CursorAt.opening spells.isQuote spells.text
  rw [templateValue_eq_finish, templatePieces_eq spells.isQuote spells.laid cursor opened]
  rfl

end Templates

/-- No text of a literal is lost or doubled. A string stands for its plain pieces and for what each
escape sequence stands for, in order. So does a template, with the text of each expression in its
place; an expression that is not known is left out, and then the whole is not known. -/
theorem literal_text_kept (quote : Char) (pieces : List Piece) (n : Node) :
    (Spells IsEscape quote pieces n →
      stringContent n = String.ofList (pieces.flatMap Piece.content)) ∧
    (Spells IsReplaced quote pieces n → ∀ visit : Visit,
      templateValue visit n = joined <$> pieces.mapM (Piece.evaluate visit)) :=
  ⟨stringContent_eq, fun spells _ => templateValue_eq spells⟩

/-- A string with two escape sequences side by side behind a character of two bytes, and a template
that starts with an expression and ends with an escape sequence. -/
theorem literal_text_kept_side_by_side :
    let letter : Node := { kind := .escapeSequence, start := { offset := 12 }, text := "\\x41" }
    let newline : Node := { kind := .escapeSequence, start := { offset := 16 }, text := "\\n" }
    let plain : Node := { kind := .stringFragment, start := { offset := 18 }, text := "z" }
    let s : Node := { kind := .string, start := { offset := 9 }, text := "'ä\\x41\\nz'",
                      children := [letter, newline, plain] }
    let x : Node :=
      { kind := .templateSubstitution, start := { offset := 8 }, text := "$\x7bx\x7d" }
    let t : Node :=
      { kind := .templateString, start := { offset := 7 }, text := "\x60$\x7bx\x7d\\x41\x60",
                      children := [x, letter] }
    let ofString := [.raw ['ä'], .node letter, .node newline, .raw ['z']]
    Spells IsEscape '\'' ofString s ∧ stringContent s = "äA\nz" ∧
      Spells IsReplaced '\x60' [.node x, .node letter] t ∧
      ∀ visit : Visit, templateValue visit t = do
        let v ← visit x
        if v.isDirty then return { Value.string "A" with dirty := true }
        else return .string ((← heap).toText v ++ "A") := by
  intro letter newline plain s x t ofString
  have last : Laid IsEscape newline.stop [.raw ['z']] [plain] :=
    .raw (.other (by intro h; cases h) (.nil _))
  have second : Laid IsEscape letter.stop [.node newline, .raw ['z']] [newline, plain] :=
    .node (by decide) rfl last
  have ending : Laid IsReplaced x.stop [.node letter] [letter] :=
    .node (by decide) (.inl rfl) (.nil _)
  have string : Spells IsEscape '\'' ofString s :=
    ⟨by decide, by decide, .raw (.node (by decide) rfl second)⟩
  have template : Spells IsReplaced '\x60' [.node x, .node letter] t :=
    ⟨by decide, by decide, .node rfl (.inr rfl) ending⟩
  refine ⟨string, ?_, template, fun visit => ?_⟩
  · rw [(literal_text_kept '\'' ofString s).1 string]
    decide +kernel
  · rw [(literal_text_kept '\x60' _ t).2 template visit]
    have decoded : decodeEscape letter.text.toList = ['A'] := by decide +kernel
    have isExpression : x.kind = .templateSubstitution := rfl
    have isEscape : letter.kind ≠ .templateSubstitution := by decide
    simp only [List.mapM_cons, List.mapM_nil, Piece.evaluate, isExpression, isEscape,
      decoded, if_true, if_false, bind_assoc, pure_bind, map_bind]
    refine bind_congr fun v => ?_
    split
    · simp [joined]
    · simp [joined, Value.string, Value.ofLiteral]

end AddonAudit.Script
