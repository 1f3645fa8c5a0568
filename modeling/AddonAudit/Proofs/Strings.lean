import AddonAudit.Proofs.Escape
import AddonAudit.Proofs.Literal
import AddonAudit.Script.Reader.Literal

/-!
# Reading strings

A string is read piece by piece: the longest run of plain characters, or one escape sequence.
Reading a string that is put together from plain characters and escape sequences never stops short,
and the node that it leaves has just these pieces.
-/

namespace AddonAudit.Script

open Text

theorem Laid.append {counts : Kind → Prop} {offset : Nat} {front back : List Piece}
    {nodes others : List Node} (first : Laid counts offset front nodes)
    (second : Laid counts (offset + utf8Length (front.flatMap Piece.text)) back others) :
    Laid counts offset (front ++ back) (nodes ++ others) := by
  induction first with
  | nil offset => simpa using second
  | @raw offset cs pieces nodes after ih =>
      refine .raw (ih ?_)
      rwa [List.flatMap_cons, utf8Length_append, ← Nat.add_assoc] at second
  | @node offset c pieces nodes place counted after ih =>
      subst place
      refine .node rfl counted (ih ?_)
      rwa [List.flatMap_cons, utf8Length_append, ← Nat.add_assoc] at second
  | other uncounted after ih => exact .other uncounted (ih second)

namespace Reader

section Running

variable {α β : Type} {s t : Input}

theorem bind_ok {p : Production α} {f : α → Production β} {a : α} (ran : p s = .ok (a, t)) :
    (p >>= f) s = f a t := by
  change (p s >>= fun r => f r.1 r.2) = f a t
  rw [ran]
  rfl

theorem offset_placeAfter (p : Position) (cs : List Char) :
    (placeAfter p cs).offset = p.offset + utf8Length cs := by
  induction cs generalizing p with
  | nil => rfl
  | cons c cs ih =>
      have one : (p.after c).offset = p.offset + c.utf8Size := by
        rw [Position.after]
        split <;> rfl
      rw [placeAfter, List.foldl_cons, utf8Length_cons, ← Nat.add_assoc, ← one]
      exact ih (p.after c)

/-- The state behind a token. -/
def Input.past (s : Input) (token rest : List Char) : Input :=
  { s with rest, position := placeAfter s.position token, newline := false, innerNewline := false }

theorem take_ok {token rest : List Char} (text : s.rest = token ++ rest) :
    take token.length s = .ok (token, s.past token rest) := by
  have front : s.rest.take token.length = token := by rw [text, List.take_left]
  have back : s.rest.drop token.length = rest := by rw [text, List.drop_left]
  change Except.ok (s.rest.take token.length, _) = _
  rw [front, back]
  rfl

/-- The leaf that stands for a token. -/
def Input.leaf (s : Input) (kind : Kind) (token : List Char) : Node :=
  { kind, start := s.position, text := String.ofList token }

theorem leaf_ok {token rest : List Char} (kind : Kind) (text : s.rest = token ++ rest) :
    leaf kind token.length s =
      .ok ((), { s.past token rest with stack := s.leaf kind token :: s.stack }) := by
  change (take token.length >>= fun cs =>
    push { kind, start := s.position, text := String.ofList cs }) s = _
  rw [bind_ok (take_ok text)]
  rfl

theorem look_ok (s : Input) : look s = .ok (s.rest, s) := rfl

theorem expect_ok {token : String} {rest : List Char} (text : s.rest = token.toList ++ rest) :
    expect token s = .ok ((), s.past token.toList rest) := by
  have found : token.toList.isPrefixOf s.rest = true := by
    rw [text]
    exact List.isPrefixOf_iff_prefix.2 (List.prefix_append _ _)
  have taken := take_ok text
  rw [String.length_toList] at taken
  rw [expect, bind_ok (look_ok s), found]
  exact bind_ok taken

/-- A node with the nodes that a production leaves on the stack. -/
theorem closed_ok {p : Production α} {kind : Kind} {a : α} {nodes : List Node}
    (ran : p s = .ok (a, t)) (stack : t.stack = nodes.reverse ++ s.stack) :
    closed kind p s =
      .ok (a, { t with stack := { kind, start := s.position, children := nodes } :: s.stack }) := by
  have count : t.stack.length - s.stack.length = nodes.reverse.length := by
    rw [stack, List.length_append, Nat.add_sub_cancel]
  have above : (t.stack.take (t.stack.length - s.stack.length)).reverse = nodes := by
    rw [count, stack, List.take_left, List.reverse_reverse]
  have below : t.stack.drop (t.stack.length - s.stack.length) = s.stack := by
    rw [count, stack, List.drop_left]
  change (p >>= fun a => do gatherAll kind s.stack.length s.position; return a) s = _
  rw [bind_ok ran]
  change Except.ok (a, { t with stack := _ }) = _
  rw [above, below]

/-- A node that ends with a token has the text that its production takes. -/
theorem spelled_ok {p : Production α} {kind : Kind} {a : α} {nodes : List Node}
    {token rest : List Char} (text : s.rest = token ++ rest) (ran : p s = .ok (a, t))
    (stack : t.stack = nodes.reverse ++ s.stack)
    (offset : t.position.offset = s.position.offset + utf8Length token) :
    spelled kind p s =
      .ok (a, { t with stack := { s.leaf kind token with children := nodes } :: s.stack }) := by
  have taken : takeBytes? (t.position.offset - s.position.offset) s.rest = some token := by
    rw [offset, Nat.add_sub_cancel_left, text, takeBytes?_append]
  have top : (s.stack.length + 1) - 1 - s.stack.length = 0 := by omega
  rw [spelled]
  change (closed kind p >>= fun a => here >>= fun stop => change s.stack.length (fun n =>
    { n with
      text := String.ofList ((takeBytes? (stop.offset - s.position.offset) s.rest).getD []) }) >>=
      fun _ => pure a) s = _
  rw [bind_ok (closed_ok ran stack)]
  change Except.ok
    (a, { t with stack := List.modify _ ((s.stack.length + 1) - 1 - s.stack.length) _ }) = _
  rw [taken, top]
  rfl

end Running

section Pieces

/-- A part of a string: a plain character, or an escape sequence, here without its backslash. -/
inductive Part where
  | plain (c : Char)
  | escape (body : List Char)

/-- The text of a part in the source. -/
def Part.text : Part → List Char
  | .plain c => [c]
  | .escape body => '\\' :: body

/-- What a part stands for. -/
def Part.content : Part → List Char
  | .plain c => [c]
  | .escape body => decodeEscape ('\\' :: body)

/-- Whether a character stands for itself in a string between these quotes. -/
def isPlain (quote c : Char) : Bool :=
  c ≠ quote && c ≠ '\\' && c ≠ '\n' && c ≠ '\r'

/-- Whether a part is read as such between these quotes, whatever follows it. -/
def Part.Fits (quote : Char) : Part → Prop
  | .plain c => isPlain quote c
  | .escape body => body ≠ [] ∧ ∀ rest, escapeLength (body ++ rest) = body.length

/-- The pieces of a literal are some parts: plain text is cut into its characters, and each node is
an escape sequence. -/
inductive Writes : List Piece → List Part → Prop where
  | nil : Writes [] []
  | raw {cs : List Char} {pieces : List Piece} {parts : List Part} (after : Writes pieces parts) :
      Writes (.raw cs :: pieces) (cs.map .plain ++ parts)
  | escape {c : Node} {body : List Char} {pieces : List Piece} {parts : List Part}
      (text : c.text.toList = '\\' :: body) (after : Writes pieces parts) :
      Writes (.node c :: pieces) (.escape body :: parts)

/-- A string whose body is given parts between two quotes. -/
def SpellsParts (quote : Char) (parts : List Part) (n : Node) : Prop :=
  ∃ pieces, Spells IsEscape quote pieces n ∧ Writes pieces parts

/-- Reading has gone over some parts, and has left their nodes on the stack. -/
structure Passes (s : Input) (parts : List Part) (rest : List Char) (t : Input) : Prop where
  rest : t.rest = rest
  offset : t.position.offset = s.position.offset + utf8Length (parts.flatMap Part.text)
  nodes : ∃ nodes pieces, t.stack = nodes.reverse ++ s.stack ∧ (∀ n ∈ nodes, n.kind ≠ .token) ∧
    Laid IsEscape s.position.offset pieces nodes ∧ Writes pieces parts

variable {s t u : Input} {n : Node} {quote : Char} {pieces pieces' : List Piece}
  {parts front back : List Part} {rest : List Char}

theorem flatMap_plain (cs : List Char) (f : Part → List Char) (same : ∀ c, f (.plain c) = [c]) :
    (cs.map Part.plain).flatMap f = cs := by
  rw [List.flatMap_map]
  simp [same]

theorem Writes.append (first : Writes pieces front) (second : Writes pieces' back) :
    Writes (pieces ++ pieces') (front ++ back) := by
  induction first with
  | nil => exact second
  | raw after ih =>
      rw [List.append_assoc]
      exact .raw ih
  | escape text after ih => exact .escape text ih

theorem Writes.text_eq (writes : Writes pieces parts) :
    pieces.flatMap Piece.text = parts.flatMap Part.text := by
  induction writes with
  | nil => rfl
  | raw after ih =>
      rw [List.flatMap_cons, List.flatMap_append, flatMap_plain _ _ fun _ => rfl, ih, Piece.text]
  | escape text after ih =>
      rw [List.flatMap_cons, List.flatMap_cons, ih, Piece.text, text, Part.text]

theorem Writes.content_eq (writes : Writes pieces parts) :
    pieces.flatMap Piece.content = parts.flatMap Part.content := by
  induction writes with
  | nil => rfl
  | raw after ih =>
      rw [List.flatMap_cons, List.flatMap_append, flatMap_plain _ _ fun _ => rfl, ih, Piece.content]
  | escape text after ih =>
      rw [List.flatMap_cons, List.flatMap_cons, ih, Piece.content, text, Part.content]

/-- A string stands for what its parts stand for. -/
theorem SpellsParts.content_eq (spells : SpellsParts quote parts n) :
    Engine.stringContent n = String.ofList (parts.flatMap Part.content) := by
  obtain ⟨pieces, spells, writes⟩ := spells
  rw [stringContent_eq spells, writes.content_eq]

theorem Passes.refl (s : Input) : Passes s [] s.rest s where
  rest := rfl
  offset := rfl
  nodes := ⟨[], [], rfl, by simp, .nil _, .nil⟩

theorem Passes.append {between : List Char} (first : Passes s front between t)
    (second : Passes t back rest u) : Passes s (front ++ back) rest u := by
  obtain ⟨nodes, pieces, stack, kinds, laid, writes⟩ := first.nodes
  obtain ⟨nodes', pieces', stack', kinds', laid', writes'⟩ := second.nodes
  refine ⟨second.rest, ?_, nodes ++ nodes', pieces ++ pieces', ?_, ?_, ?_, writes.append writes'⟩
  · rw [second.offset, first.offset, List.flatMap_append, utf8Length_append, Nat.add_assoc]
  · rw [stack', stack, List.reverse_append, List.append_assoc]
  · intro n mem
    exact (List.mem_append.1 mem).elim (kinds n) (kinds' n)
  · rw [first.offset, ← writes.text_eq] at laid'
    exact laid.append laid'

/-- A run of plain characters is one leaf. -/
theorem passes_fragment {cs : List Char} (s : Input) (rest : List Char) :
    Passes s (cs.map .plain) rest
      { s.past cs rest with stack := s.leaf .stringFragment cs :: s.stack } where
  rest := rfl
  offset := by
    rw [flatMap_plain cs Part.text fun _ => rfl]
    exact offset_placeAfter s.position cs
  nodes := by
    refine ⟨[s.leaf .stringFragment cs], [.raw cs], rfl, ?_, ?_, ?_⟩
    · simp [Input.leaf]
    · exact .other (by intro isEscape; cases isEscape) (.raw (.nil _))
    · have writes : Writes [.raw cs] (cs.map .plain ++ []) := .raw .nil
      rwa [List.append_nil] at writes

/-- An escape sequence is one leaf. -/
theorem passes_escape {body : List Char} (s : Input) (rest : List Char) :
    Passes s [.escape body] rest
      { s.past ('\\' :: body) rest with
        stack := s.leaf .escapeSequence ('\\' :: body) :: s.stack } where
  rest := rfl
  offset := by
    rw [List.flatMap_singleton]
    exact offset_placeAfter s.position ('\\' :: body)
  nodes := by
    have text : (s.leaf .escapeSequence ('\\' :: body)).text.toList = '\\' :: body :=
      String.toList_ofList
    refine ⟨[s.leaf .escapeSequence ('\\' :: body)],
      [.node (s.leaf .escapeSequence ('\\' :: body))], rfl, ?_, .node rfl rfl (.nil _),
      .escape text .nil⟩
    simp [Input.leaf]

end Pieces

section Steps

variable {s t : Input} {quote : Char} {parts : List Part} {rest : List Char}

/-- A quote ends the string. -/
theorem stringStep_quote (isQuote : quote ≠ '\\') (text : s.rest = quote :: rest) :
    stringStep quote s = .ok (false, s) := by
  rw [stringStep, bind_ok (look_ok s), text]
  refine congrFun (g := (pure false : Production Bool)) ?_ s
  split
  next ended => cases ended
  next same => exact absurd (List.cons.inj same).1 isQuote
  next same => rw [if_pos (List.cons.inj same).1.symm]

theorem escape_ok {body : List Char} (nonempty : body ≠ [])
    (length : escapeLength (body ++ rest) = body.length) (text : s.rest = '\\' :: body ++ rest) :
    escape s = .ok ((), { s.past ('\\' :: body) rest with
      stack := s.leaf .escapeSequence ('\\' :: body) :: s.stack }) := by
  rw [← leaf_ok .escapeSequence text, escape, bind_ok (look_ok s), text]
  refine congrFun (g := leaf .escapeSequence ('\\' :: body).length) ?_ s
  split
  next tail same =>
    have behind : body ++ rest = tail := (List.cons.inj same).2
    rw [← behind, length]
    split
    next empty => exact absurd (List.length_eq_zero_iff.1 empty) nonempty
    · rfl
  next other => exact absurd rfl (other (body ++ rest))

theorem stringStep_escape {body : List Char} (fits : Part.Fits quote (.escape body))
    (text : s.rest = '\\' :: body ++ rest) :
    ∃ t, stringStep quote s = .ok (true, t) ∧ Passes s [.escape body] rest t := by
  refine ⟨_, ?_, passes_escape s rest⟩
  rw [stringStep, bind_ok (look_ok s), text]
  exact bind_ok (escape_ok fits.1 (fits.2 rest) text)

theorem takeWhile_isPlain {cs : List Char} (plain : ∀ c ∈ cs, isPlain quote c)
    (ends : ∀ c ∈ rest.head?, isPlain quote c = false) :
    (cs ++ rest).takeWhile (isPlain quote) = cs := by
  rw [List.takeWhile_append_of_pos plain]
  cases rest with
  | nil => exact List.append_nil cs
  | cons c rest =>
      have no : ¬isPlain quote c = true := by simp [ends c rfl]
      rw [List.takeWhile_cons_of_neg no, List.append_nil]

theorem stringStep_fragment {cs : List Char} (nonempty : cs ≠ [])
    (plain : ∀ c ∈ cs, isPlain quote c) (ends : ∀ c ∈ rest.head?, isPlain quote c = false)
    (text : s.rest = cs ++ rest) :
    ∃ t, stringStep quote s = .ok (true, t) ∧ Passes s (cs.map .plain) rest t := by
  refine ⟨_, ?_, passes_fragment s rest⟩
  have run := takeWhile_isPlain plain ends
  have done : (leaf .stringFragment cs.length >>= fun _ => pure true) s = _ :=
    bind_ok (leaf_ok .stringFragment text)
  refine Eq.trans ?_ done
  rw [stringStep, bind_ok (look_ok s), text]
  refine congrFun (g := leaf .stringFragment cs.length >>= fun _ => pure true) ?_ s
  obtain ⟨c, cs, rfl⟩ := List.exists_cons_of_ne_nil nonempty
  have first := plain c List.mem_cons_self
  split
  next ended => cases ended
  next same =>
    rw [(List.cons.inj same).1] at first
    simp [isPlain] at first
  next same =>
    cases same
    have other : c ≠ quote := by
      rintro rfl
      simp [isPlain] at first
    rw [if_neg other]
    change (if ((c :: cs ++ rest).takeWhile (isPlain quote)).length = 0 then stop
      else do
        leaf .stringFragment ((c :: cs ++ rest).takeWhile (isPlain quote)).length
        return true) = _
    rw [run]
    rfl

theorem text_head {after : List Part} (next : ∀ c more, after ≠ .plain c :: more) :
    ∀ c ∈ (after.flatMap Part.text ++ quote :: rest).head?, isPlain quote c = false := by
  intro c mem
  cases after with
  | nil =>
      cases mem
      simp [isPlain]
  | cons part more =>
      cases part with
      | plain d => exact absurd rfl (next d more)
      | escape body =>
          cases mem
          simp [isPlain]

/-- Parts start with a run of plain characters, which may be empty. -/
theorem exists_plain_run (parts : List Part) :
    ∃ (cs : List Char) (after : List Part), parts = cs.map .plain ++ after ∧
      ∀ c more, after ≠ .plain c :: more := by
  induction parts with
  | nil => exact ⟨[], [], rfl, by simp⟩
  | cons part parts ih =>
      cases part with
      | plain c =>
          obtain ⟨cs, after, rfl, next⟩ := ih
          exact ⟨c :: cs, after, rfl, next⟩
      | escape body => exact ⟨[], .escape body :: parts, rfl, by simp⟩

/-- While there are parts left, a step goes over some of them. -/
theorem stringStep_passes (nonempty : parts ≠ []) (fits : ∀ part ∈ parts, part.Fits quote)
    (text : s.rest = parts.flatMap Part.text ++ quote :: rest) :
    ∃ front back t, parts = front ++ back ∧ front ≠ [] ∧ stringStep quote s = .ok (true, t) ∧
      Passes s front (back.flatMap Part.text ++ quote :: rest) t := by
  obtain ⟨cs, after, rfl, next⟩ := exists_plain_run parts
  by_cases noPlain : cs = []
  · subst noPlain
    cases after with
    | nil => exact absurd rfl nonempty
    | cons part after =>
        cases part with
        | plain c => exact absurd rfl (next c after)
        | escape body =>
            have text : s.rest = '\\' :: body ++ (after.flatMap Part.text ++ quote :: rest) := by
              rw [text, List.map_nil, List.nil_append, List.flatMap_cons, List.append_assoc]
              rfl
            obtain ⟨t, step, passes⟩ := stringStep_escape (fits _ List.mem_cons_self) text
            exact ⟨[.escape body], after, t, rfl, by simp, step, passes⟩
  · have plain : ∀ c ∈ cs, isPlain quote c := fun c mem =>
      fits (.plain c) (List.mem_append_left _ (List.mem_map_of_mem mem))
    have text : s.rest = cs ++ (after.flatMap Part.text ++ quote :: rest) := by
      rw [text, List.flatMap_append, flatMap_plain cs Part.text fun _ => rfl, List.append_assoc]
    obtain ⟨t, step, passes⟩ := stringStep_fragment noPlain plain (text_head next) text
    exact ⟨cs.map .plain, after, t, rfl, by simpa using noPlain, step, passes⟩

theorem turns_false {step : Production Bool} (fuel : Nat) (ended : step s = .ok (false, t)) :
    turns step (fuel + 1) s = .ok ((), t) := by
  rw [turns, bind_ok ended]
  rfl

theorem turns_true {step : Production Bool} (fuel : Nat) (asked : step s = .ok (true, t)) :
    turns step (fuel + 1) s = turns step fuel t := by
  rw [turns, bind_ok asked]
  rfl

theorem length_text_pos {front : List Part} (nonempty : front ≠ []) :
    0 < (front.flatMap Part.text).length := by
  cases front with
  | nil => exact absurd rfl nonempty
  | cons part front =>
      rw [List.flatMap_cons, List.length_append]
      have one : 0 < part.text.length := by cases part <;> exact Nat.succ_pos _
      omega

/-- All parts are gone over, if there is fuel for each of their characters. -/
theorem turns_passes (isQuote : quote ≠ '\\') {fuel : Nat} (fits : ∀ part ∈ parts, part.Fits quote)
    (text : s.rest = parts.flatMap Part.text ++ quote :: rest)
    (enough : (parts.flatMap Part.text).length < fuel) :
    ∃ t, turns (stringStep quote) fuel s = .ok ((), t) ∧ Passes s parts (quote :: rest) t := by
  induction fuel generalizing s parts with
  | zero => exact absurd enough (Nat.not_lt_zero _)
  | succ fuel ih =>
      by_cases done : parts = []
      · subst done
        have ended : s.rest = quote :: rest := text
        exact ⟨s, turns_false fuel (stringStep_quote isQuote ended), ended ▸ .refl s⟩
      · obtain ⟨front, back, t, rfl, nonempty, step, first⟩ := stringStep_passes done fits text
        have size := length_text_pos nonempty
        rw [List.flatMap_append, List.length_append] at enough
        obtain ⟨u, ran, second⟩ :=
          ih (fun part mem => fits part (List.mem_append_right _ mem)) first.rest
          (by omega)
        exact ⟨u, (turns_true fuel step).trans ran, first.append second⟩

end Steps

section Whole

variable {s : Input} {quote : Char} {parts : List Part} {rest : List Char}

/-- What stands around a string. -/
def stringQuotes : List Char :=
  ['\'', '"']

theorem mem_quotes (isQuote : quote ∈ stringQuotes) : quote ∈ quotes ∧ quote ≠ '\\' := by
  have all : stringQuotes.all (fun c => c ∈ quotes ∧ c ≠ '\\') = true := by decide
  exact of_decide_eq_true (List.all_eq_true.1 all quote isQuote)

theorem loop_ok {step : Production Bool} {t : Input}
    (ran : turns step (s.rest.length + 1) s = .ok ((), t)) : loop step s = .ok ((), t) := by
  rw [loop, bind_ok (look_ok s), ran]

theorem loop_passes (notEscape : quote ≠ '\\') (fits : ∀ part ∈ parts, part.Fits quote)
    (text : s.rest = parts.flatMap Part.text ++ quote :: rest) :
    ∃ t, loop (stringStep quote) s = .ok ((), t) ∧ Passes s parts (quote :: rest) t := by
  have enough : (parts.flatMap Part.text).length < s.rest.length + 1 := by
    rw [text, List.length_append]
    omega
  obtain ⟨t, ran, passes⟩ := turns_passes notEscape fits text enough
  exact ⟨t, loop_ok ran, passes⟩

/-- A string that is put together from parts is read as a whole, and its node has these parts. -/
theorem string_ok (isQuote : quote ∈ stringQuotes) (fits : ∀ part ∈ parts, part.Fits quote)
    (text : s.rest = quote :: (parts.flatMap Part.text ++ quote :: rest)) :
    ∃ n t, string quote s = .ok ((), t) ∧ t.rest = rest ∧ t.stack = n :: s.stack ∧
      SpellsParts quote parts n := by
  obtain ⟨isQuote, notEscape⟩ := mem_quotes isQuote
  have quoted : quote.toString.toList = [quote] := String.toList_singleton quote
  have width : utf8Length [quote] = 1 := utf8Size_of_quote isQuote
  have whole : s.rest = [quote] ++ parts.flatMap Part.text ++ [quote] ++ rest := by simp [text]
  -- the opening quote, the parts, and the closing quote
  have first :
      take 1 s = .ok ([quote], s.past [quote] (parts.flatMap Part.text ++ quote :: rest)) :=
    take_ok (show s.rest = [quote] ++ _ from text)
  obtain ⟨t, ran, passes⟩ :=
    loop_passes (s := s.past [quote] (parts.flatMap Part.text ++ quote :: rest))
    notEscape fits rfl
  obtain ⟨nodes, pieces, stack, kinds, laid, writes⟩ := passes.nodes
  have last : expect quote.toString t = .ok ((), t.past [quote] rest) := by
    rw [expect_ok (by rw [quoted]; exact passes.rest), quoted]
  have body : (do let _ ← take 1; loop (stringStep quote); expect quote.toString) s =
      .ok ((), t.past [quote] rest) := by
    rw [bind_ok first, bind_ok ran, last]
  have start : (s.past [quote] (parts.flatMap Part.text ++ quote :: rest)).position.offset =
      s.position.offset + 1 := by
    rw [← width]
    exact offset_placeAfter s.position [quote]
  have offset : (t.past [quote] rest).position.offset =
      s.position.offset + utf8Length ([quote] ++ parts.flatMap Part.text ++ [quote]) := by
    rw [Input.past, offset_placeAfter, passes.offset, start, utf8Length_append,
      utf8Length_append, width]
    omega
  refine ⟨_, _, spelled_ok whole body stack offset, rfl, rfl, pieces, ⟨isQuote, ?_, ?_⟩, writes⟩
  · rw [writes.text_eq]
    exact String.toList_ofList
  · rw [start] at laid
    rw [Node.parts, List.filter_eq_self.2 fun n mem => decide_eq_true (kinds n mem)]
    exact laid

end Whole

end Reader

end AddonAudit.Script
