import AddonAudit.Pattern
import AddonAudit.Proofs.Lines

/-!
# Matches are pieces of a text

Matching a pattern goes forward in a text, so the place where a match ends is behind some characters
of the text, and its offset is theirs in bytes. What a search finds and what replacing takes out are
therefore pieces of the text, and a search for all matches finds each of them at its own place.
-/

namespace AddonAudit.Pattern

/-- The place after some characters. -/
def Cursor.skip (c : Cursor) : List Char → Cursor
  | [] => c
  | x :: xs =>
    Cursor.skip { c with before := some x, rest := c.rest.tail, offset := c.offset + x.utf8Size } xs

theorem Cursor.rest_skip (c : Cursor) (xs : List Char) :
    (c.skip xs).rest = c.rest.drop xs.length := by
  induction xs generalizing c with
  | nil => rfl
  | cons x xs ih =>
      rw [skip, ih, List.length_cons]
      exact List.drop_tail

theorem run_all_cons (p : Pattern) (ps : List Pattern) (c : Cursor) (next : Continuation) :
    (all (p :: ps)).run c next = p.run c fun d => (all ps).run d next := by
  cases ps with
  | nil => rfl
  | cons q qs => rfl

theorem run_char (x : Char) (c : Cursor) (next : Continuation) :
    (char x).run c next = if c.rest.head? = some x then next (c.skip [x]) else none := by
  obtain ⟨before, rest, offset, groups⟩ := c
  cases rest with
  | nil => rfl
  | cons y rest =>
      simp only [char, run, decide_eq_true_eq, List.head?_cons, Option.some_inj]
      split
      next same => rw [same]; rfl
      · rfl

/-- A given text matches where it stands, and the match goes on behind it. -/
theorem run_all_char (xs : List Char) (c : Cursor) (next : Continuation) :
    (all (xs.map char)).run c next = if xs <+: c.rest then next (c.skip xs) else none := by
  induction xs generalizing c with
  | nil => simp [all, run, Cursor.skip]
  | cons x xs ih =>
      have later : (c.skip [x]).rest = c.rest.tail := rfl
      rw [List.map_cons, run_all_cons, run_char]
      simp only [ih, later]
      cases c.rest with
      | nil => simp
      | cons y rest =>
          simp only [List.head?_cons, Option.some_inj, List.tail_cons, List.cons_prefix_cons,
            eq_comm (a := x), ite_and]
          rfl

theorem run_text (s : String) (c : Cursor) (next : Continuation) :
    (text s).run c next = if s.toList <+: c.rest then next (c.skip s.toList) else none :=
  run_all_char s.toList c next

/-! ## Where matching leads -/

/-- A place of a text and a place behind some of its characters. -/
def Cursor.Reaches (c d : Cursor) : Prop :=
  ∃ xs, c.rest = xs ++ d.rest ∧ d.offset = c.offset + Text.utf8Length xs

theorem Cursor.Reaches.refl (c : Cursor) : c.Reaches c :=
  ⟨[], rfl, rfl⟩

theorem Cursor.Reaches.trans {c d e : Cursor} (first : c.Reaches d) (second : d.Reaches e) :
    c.Reaches e := by
  obtain ⟨xs, rest, offset⟩ := first
  obtain ⟨ys, rest', offset'⟩ := second
  refine ⟨xs ++ ys, ?_, ?_⟩
  · rw [rest, rest', List.append_assoc]
  · rw [offset', offset, Text.utf8Length_append, Nat.add_assoc]

theorem Cursor.reaches_next {c : Cursor} {x : Char} {rest : List Char} (here : c.rest = x :: rest) :
    c.Reaches { c with before := some x, rest, offset := c.offset + x.utf8Size } :=
  ⟨[x], here, rfl⟩

/-- At some place further on, what follows ends where it does. -/
def Cursor.Leads (c : Cursor) (next : Continuation) (d : Cursor) : Prop :=
  ∃ e, c.Reaches e ∧ next e = some d

theorem Cursor.leads_self {c d : Cursor} {next : Continuation} (found : next c = some d) :
    c.Leads next d :=
  ⟨c, .refl c, found⟩

theorem leads_of_guard {P : Prop} [Decidable P] {c d : Cursor} {next : Continuation}
    (found : (if P then next c else none) = some d) : c.Leads next d := by
  split at found
  · exact Cursor.leads_self found
  · cases found

/-- Of two ways the first that leads to a match wins. -/
theorem leads_of_choice {c d : Cursor} {next : Continuation} {first second : Option Cursor}
    (found : first.or second = some d) (forward : first = some d → c.Leads next d)
    (forward' : second = some d → c.Leads next d) : c.Leads next d := by
  cases isFirst : first with
  | none =>
      rw [isFirst, Option.none_or] at found
      exact forward' found
  | some d' =>
      rw [isFirst, Option.some_or] at found
      exact forward (isFirst.trans found)

theorem repeatFrom_succ (step : Cursor → Continuation → Option Cursor) (greedy : Bool) (fuel : Nat)
    (c : Cursor) (next : Continuation) :
    repeatFrom step greedy (fuel + 1) c next =
      let turn :=
        step c fun d => if d.offset = c.offset then none else repeatFrom step greedy fuel d next
      if greedy then turn.or (next c) else (next c).or turn := by
  rw [repeatFrom]
  cases greedy with
  | false => cases next c <;> rfl
  | true =>
      generalize (step c fun d => if d.offset = c.offset then none
        else repeatFrom step true fuel d next) = turn
      cases turn <;> rfl

theorem leads_of_repeatFrom {step : Cursor → Continuation → Option Cursor}
    (forward : ∀ c next d, step c next = some d → c.Leads next d) (greedy : Bool)
    (fuel : Nat) (c : Cursor) (next : Continuation) {d : Cursor}
    (found : repeatFrom step greedy fuel c next = some d) : c.Leads next d := by
  induction fuel generalizing c with
  | zero => exact Cursor.leads_self found
  | succ fuel ih =>
      have turn : (step c fun d => if d.offset = c.offset then none
          else repeatFrom step greedy fuel d next) = some d → c.Leads next d := by
        intro taken
        obtain ⟨e, first, found⟩ := forward _ _ _ taken
        dsimp only at found
        split at found
        · cases found
        · obtain ⟨e', second, found⟩ := ih _ found
          exact ⟨e', first.trans second, found⟩
      rw [repeatFrom_succ] at found
      cases greedy with
      | false => exact leads_of_choice found Cursor.leads_self turn
      | true => exact leads_of_choice found turn Cursor.leads_self

theorem run_alt (a b : Pattern) (c : Cursor) (next : Continuation) :
    (alt a b).run c next = (a.run c next).or (b.run c next) := by
  rw [run]
  cases a.run c next <;> rfl

/-- A match goes forward, and what follows goes on where it ends. -/
theorem leads_of_run (p : Pattern) (c : Cursor) (next : Continuation) {d : Cursor}
    (found : p.run c next = some d) : c.Leads next d := by
  induction p generalizing c next d with
  | empty => exact Cursor.leads_self found
  | one p =>
      rw [run] at found
      split at found
      · cases found
      next x rest here =>
        split at found
        · exact ⟨_, Cursor.reaches_next here, found⟩
        · cases found
  | seq a b iha ihb =>
      obtain ⟨e, first, found⟩ := iha _ _ found
      obtain ⟨e', second, found⟩ := ihb _ _ found
      exact ⟨e', first.trans second, found⟩
  | alt a b iha ihb =>
      rw [run_alt] at found
      exact leads_of_choice found (iha _ _) (ihb _ _)
  | many greedy p ih => exact leads_of_repeatFrom (fun c next d => ih c next) _ _ _ _ found
  | group n p ih =>
      obtain ⟨e, reached, found⟩ := ih _ _ found
      have kept : c.Reaches { e with groups := (n, ⟨c.offset, c.textTo e⟩) :: e.groups } := reached
      exact ⟨_, kept, found⟩
  | start => exact leads_of_guard found
  | stop => exact leads_of_guard found
  | boundary => exact leads_of_guard found

/-! ## Some patterns -/

/-- A text in any case stands at the place where it matches. -/
theorem exists_of_run_textAnyCase {s : String} {c d : Cursor} {next : Continuation}
    (found : (textAnyCase s).run c next = some d) :
    ∃ ys rest, c.rest = ys ++ rest ∧ ys.map fold = s.toList.map fold := by
  rw [textAnyCase] at found
  generalize s.toList = xs at found ⊢
  induction xs generalizing c with
  | nil => exact ⟨[], c.rest, rfl, rfl⟩
  | cons x xs ih =>
      rw [List.map_cons, run_all_cons, run] at found
      split at found
      · cases found
      next y rest here =>
        split at found
        next same =>
          obtain ⟨ys, rest', later, folds⟩ := ih found
          have later : rest = ys ++ rest' := later
          refine ⟨y :: ys, rest', ?_, ?_⟩
          · rw [here, later, List.cons_append]
          · rw [List.map_cons, List.map_cons, folds, of_decide_eq_true same]
        · cases found

/-- As few characters as possible are taken before what follows is found. -/
theorem repeatFrom_shortest (next : Continuation) {fuel : Nat} {c : Cursor}
    (enough : c.rest.length < fuel) :
    (∃ k d, k ≤ c.rest.length ∧ (∀ j < k, next (c.skip (c.rest.take j)) = none) ∧
      next (c.skip (c.rest.take k)) = some d ∧
      repeatFrom (one fun _ => true).run false fuel c next = some d) ∨
    (∀ k ≤ c.rest.length, next (c.skip (c.rest.take k)) = none) ∧
      repeatFrom (one fun _ => true).run false fuel c next = none := by
  induction fuel generalizing c with
  | zero => omega
  | succ fuel ih =>
      rw [repeatFrom_succ]
      simp only [Bool.false_eq_true, if_false]
      cases here : next c with
      | some d => exact .inl ⟨0, d, Nat.zero_le _, by simp, here, rfl⟩
      | none =>
          obtain ⟨before, rest, offset, groups⟩ := c
          rw [Option.none_or]
          cases rest with
          | nil =>
              refine .inr ⟨?_, rfl⟩
              intro k _
              rw [List.take_nil]
              exact here
          | cons x rest =>
              have size := x.utf8Size_pos
              have moved : offset + x.utf8Size ≠ offset := by omega
              have later :=
                @ih ⟨some x, rest, offset + x.utf8Size, groups⟩ (Nat.lt_of_succ_lt_succ enough)
              simp only [run, if_true, if_neg moved]
              rcases later with ⟨k, d, inside, early, found, result⟩ | ⟨nowhere, result⟩
              · refine .inl ⟨k + 1, d, Nat.succ_le_succ inside, ?_, found, result⟩
                intro j below
                cases j with
                | zero => exact here
                | succ j => exact early j (Nat.lt_of_succ_lt_succ below)
              · refine .inr ⟨?_, result⟩
                intro k inside
                cases k with
                | zero => exact here
                | succ k => exact nowhere k (Nat.le_of_succ_le_succ inside)

/-! ## Searching and replacing -/

section Search

variable {p : Pattern} {m : Match}

theorem reaches_of_matchAt? {c : Cursor} (found : p.matchAt? c = some m) :
    m.offset = c.offset ∧ c.Reaches m.stop := by
  obtain ⟨d, matched, rfl⟩ := Option.map_eq_some_iff.1 found
  obtain ⟨e, reached, same⟩ := leads_of_run p _ _ matched
  cases same
  exact ⟨rfl, reached⟩

/-- The match that a search finds is one at a place further on. -/
theorem exists_matchAt?_of_findFrom? {before : Option Char} {offset : Nat} {cs : List Char}
    (found : p.findFrom? before offset cs = some m) :
    ∃ d, (Cursor.mk before cs offset []).Reaches d ∧ p.matchAt? d = some m := by
  induction cs generalizing before offset with
  | nil => exact ⟨_, .refl _, found⟩
  | cons c cs ih =>
      rw [findFrom?] at found
      split at found
      next m' here =>
        cases found
        exact ⟨_, .refl _, here⟩
      · obtain ⟨d, reached, later⟩ := ih found
        exact ⟨d, (Cursor.reaches_next rfl).trans reached, later⟩

theorem exists_matchAt?_of_mem_findAllFrom {fuel : Nat} {c : Cursor}
    (mem : m ∈ p.findAllFrom fuel c) : ∃ d, c.Reaches d ∧ p.matchAt? d = some m := by
  induction fuel generalizing c with
  | zero => cases mem
  | succ fuel ih =>
      rw [findAllFrom] at mem
      split at mem
      · cases mem
      next first found =>
        obtain ⟨d, reached, here⟩ := exists_matchAt?_of_findFrom? found
        have reached : c.Reaches d := reached
        have behind := reached.trans (reaches_of_matchAt? here).2
        split at mem
        · split at mem
          next atEnd =>
            cases List.mem_singleton.1 mem
            exact ⟨d, reached, here⟩
          next x rest here' =>
            rcases List.mem_cons.1 mem with rfl | mem
            · exact ⟨d, reached, here⟩
            · obtain ⟨d, later, found⟩ := ih mem
              exact ⟨d, (behind.trans (Cursor.reaches_next here')).trans later, found⟩
        · rcases List.mem_cons.1 mem with rfl | mem
          · exact ⟨d, reached, here⟩
          · obtain ⟨d, later, found⟩ := ih mem
            exact ⟨d, behind.trans later, found⟩

/-- Every match in a text is a match at a place of the text, and its offset is that of the place. -/
theorem exists_matchAt?_of_mem_findAll {cs : List Char} (mem : m ∈ p.findAll cs) :
    ∃ xs c, cs = xs ++ c.rest ∧ m.offset = Text.utf8Length xs ∧ p.matchAt? c = some m := by
  obtain ⟨c, ⟨xs, whole, offset⟩, found⟩ := exists_matchAt?_of_mem_findAllFrom mem
  have start : (Cursor.ofChars cs).offset = 0 := rfl
  rw [start, Nat.zero_add] at offset
  exact ⟨xs, c, whole, (reaches_of_matchAt? found).1.trans offset, found⟩

end Search

section Replacing

variable {p : Pattern} {f : List Char → List Char} {R : List Char → List Char → Prop}

variable (nil : R [] [])
  (kept : ∀ before c cs out,
    (∀ m, p.matchAt? { before, rest := c :: cs } = some m → m.stop.rest = c :: cs) →
      R cs out → R (c :: cs) (c :: out))
  (replaced : ∀ before m taken rest out,
    p.matchAt? { before, rest := taken ++ rest } = some m → m.stop.rest = rest →
      R rest out → R (taken ++ rest) (f taken ++ out))

include nil kept replaced

/-- What holds of the empty text, of a character that is kept and of a match that is replaced, each
put before a text of which it holds, holds of a text and the text with its matches replaced. -/
theorem replaceFrom_induction (before : Option Char) (skip : Nat) (cs : List Char) :
    R (cs.drop skip) (p.replaceFrom f before skip cs) := by
  induction cs generalizing before skip with
  | nil =>
      rw [List.drop_nil]
      exact nil
  | cons c cs ih =>
      cases skip with
      | succ skip => exact ih (some c) skip
      | zero =>
          rw [replaceFrom, List.drop_zero]
          cases found : p.matchAt? { before, rest := c :: cs } with
          | none =>
              refine kept before c cs _ ?_ (ih (some c) 0)
              intro m match'
              rw [found] at match'
              cases match'
          | some m =>
              obtain ⟨taken, whole, -⟩ := (reaches_of_matchAt? found).2
              have whole : c :: cs = taken ++ m.stop.rest := whole
              have length := congrArg List.length whole
              rw [List.length_cons, List.length_append] at length
              have count : cs.length + 1 - m.stop.rest.length = taken.length := by omega
              simp only [count]
              cases taken with
              | nil =>
                  refine kept before c cs _ ?_ (ih (some c) 0)
                  intro m' match'
                  cases found.symm.trans match'
                  exact whole.symm
              | cons x taken =>
                  obtain ⟨rfl, tail⟩ := List.cons.inj whole
                  have tail : cs = taken ++ m.stop.rest := tail
                  have text : (c :: cs).take (taken.length + 1) = c :: taken := by
                    rw [List.take_succ_cons, tail, List.take_left]
                  have dropped : cs.drop taken.length = m.stop.rest := by
                    rw [tail, List.drop_left]
                  have behind := ih (some c) taken.length
                  rw [dropped] at behind
                  change R (c :: cs) (f ((c :: cs).take (taken.length + 1)) ++
                    p.replaceFrom f (some c) taken.length cs)
                  rw [text]
                  rw [whole] at found ⊢
                  exact replaced before m _ _ _ found rfl behind

theorem replaceAll_induction (cs : List Char) : R cs (p.replaceAll f cs) :=
  replaceFrom_induction nil kept replaced none 0 cs

end Replacing

end AddonAudit.Pattern
