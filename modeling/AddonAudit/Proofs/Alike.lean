import AddonAudit.Script.Operator
import Mathlib.Data.List.Forall2

/-!
# Values that look alike

Two values look alike if they differ at most in the record that they carry. Texts, numbers and
operators never read that record: over heaps that look alike they cannot tell such values apart.
-/

namespace AddonAudit.Script

namespace Value

/-- Two values that differ at most in the record that they carry. -/
def Alike (v w : Value) : Prop :=
  ∃ record, w = { v with provisional := record }

namespace Alike

variable {v w : Value}

theorem refl (v : Value) : v.Alike v := ⟨v.provisional, rfl⟩

/-- What does not read the carried record is the same for values that look alike. -/
theorem congr {α : Type} {f : Value → α}
    (blind : ∀ v record, f { v with provisional := record } = f v)
    (h : v.Alike w) : f v = f w := by
  obtain ⟨record, rfl⟩ := h
  exact (blind v record).symm

theorem content (h : v.Alike w) : v.content = w.content := h.congr fun _ _ => rfl

theorem isConst (h : v.Alike w) : v.isConst = w.isConst := h.congr fun _ _ => rfl

theorem callable (h : v.Alike w) : v.callable = w.callable := h.congr fun _ _ => rfl

theorem entity (h : v.Alike w) : v.entity = w.entity := h.congr fun _ _ => rfl

theorem setter (h : v.Alike w) : v.setter = w.setter := h.congr fun _ _ => rfl

theorem unwrapped (h : v.Alike w) : v.unwrapped = w.unwrapped := h.congr fun _ _ => rfl

theorem isDirty (h : v.Alike w) : v.isDirty = w.isDirty := h.congr fun _ _ => rfl

theorem string? (h : v.Alike w) : v.string? = w.string? := h.congr fun _ _ => rfl

theorem object? (h : v.Alike w) : v.object? = w.object? := h.congr fun _ _ => rfl

theorem isString (h : v.Alike w) : v.isString = w.isString := h.congr fun _ _ => rfl

theorem truthy (h : v.Alike w) : v.truthy = w.truthy := h.congr fun _ _ => rfl

theorem typeName (h : v.Alike w) : v.typeName = w.typeName := h.congr fun _ _ => rfl

end Alike

/-- A value that refers to nothing that a run makes: to no object and no record. -/
structure IsPlain (v : Value) : Prop where
  object? : v.object? = none
  provisional : v.provisional = none

namespace IsPlain

theorem ofLiteral (l : Literal) : (Value.ofLiteral l).IsPlain := ⟨rfl, rfl⟩

theorem undefined : Value.undefined.IsPlain := ofLiteral _

theorem null : Value.null.IsPlain := ofLiteral _

theorem bool (b : Bool) : (Value.bool b).IsPlain := ofLiteral _

theorem number (x : Float) : (Value.number x).IsPlain := ofLiteral _

theorem string (s : String) : (Value.string s).IsPlain := ofLiteral _

theorem unknown : Value.unknown.IsPlain := ⟨rfl, rfl⟩

theorem ofEntity (id : EntityId) : (Value.ofEntity id).IsPlain := ⟨rfl, rfl⟩

end IsPlain

/-- A plain value that came from no entity and is not unwrapped. -/
structure IsBare (v : Value) : Prop extends v.IsPlain where
  entity : v.entity = none
  setter : v.setter = none
  unwrapped : v.unwrapped = false

namespace IsBare

theorem ofLiteral (l : Literal) (dirty : Bool) :
    ({ Value.ofLiteral l with dirty } : Value).IsBare := ⟨⟨rfl, rfl⟩, rfl, rfl, rfl⟩

theorem undefined : Value.undefined.IsBare := ofLiteral _ _

theorem null : Value.null.IsBare := ofLiteral _ _

theorem bool (b : Bool) : (Value.bool b).IsBare := ofLiteral _ _

theorem number (x : Float) : (Value.number x).IsBare := ofLiteral _ _

theorem string (s : String) : (Value.string s).IsBare := ofLiteral _ _

theorem ofUnknown (dirty inferred : Bool) : IsBare { dirty, inferred } :=
  ⟨⟨rfl, rfl⟩, rfl, rfl, rfl⟩

theorem unknown : Value.unknown.IsBare := ofUnknown _ _

end IsBare

end Value

namespace Heap

/-- Two heaps that agree on which objects are arrays and whose elements look alike. -/
structure Alike (h k : Heap) : Prop where
  size : h.size = k.size
  elements : ∀ id, Option.Rel (fun a b => List.Forall₂ Value.Alike a.toList b.toList)
    (h.get id).elements (k.get id).elements

theorem Alike.refl (h : Heap) : h.Alike h where
  size := rfl
  elements id := by
    cases (h.get id).elements with
    | none => exact .none
    | some a => exact .some (List.forall₂_same.2 fun v _ => .refl v)

variable {h k : Heap}

theorem renderAll_congr {f g : Marks → Value → String × Marks}
    (step : ∀ marks v w, v.Alike w → f marks v = g marks w) {vs ws : List Value}
    (alike : List.Forall₂ Value.Alike vs ws) (marks : Marks) :
    renderAll f vs marks = renderAll g ws marks := by
  induction alike generalizing marks with
  | nil => rfl
  | cons head _ ih => simp only [renderAll, step _ _ _ head, ih]

/-- Joined texts do not depend on the records that values carry. -/
theorem Alike.joinText (alike : h.Alike k) (fuel : Nat) (marks : Marks) {v w : Value}
    (same : v.Alike w) : h.joinText fuel marks v = k.joinText fuel marks w := by
  induction fuel generalizing marks v w with
  | zero =>
      rw [Heap.joinText, Heap.joinText, same.content]
      cases w.content with
      | literal _ | unknown => rfl
      | object id =>
          have elements := alike.elements id
          simp only
          generalize (h.get id).elements = a, (k.get id).elements = b at elements
          cases elements with
          | none | some _ => rfl
  | succ fuel ih =>
      rw [Heap.joinText, Heap.joinText, same.content]
      cases w.content with
      | literal _ | unknown => rfl
      | object id =>
          have elements := alike.elements id
          simp only
          generalize (h.get id).elements = a, (k.get id).elements = b at elements
          cases elements with
          | none => rfl
          | some elements =>
              simp only [renderAll_congr (fun marks _ _ same => ih marks same) elements]

theorem Alike.toText (alike : h.Alike k) {v w : Value} (same : v.Alike w) :
    h.toText v = k.toText w := by
  simp only [Heap.toText, same.content, alike.size, alike.joinText _ _ same]

theorem Alike.toNumber (alike : h.Alike k) {v w : Value} (same : v.Alike w) :
    h.toNumber v = k.toNumber w := by
  simp only [Heap.toNumber, same.content, alike.toText same]

end Heap

namespace Operator

variable {h k : Heap} {l r l' r' : Value}

theorem summand_congr (alike : h.Alike k) (left : l.Alike l') : summand h l = summand k l' := by
  rw [summand, summand, left.content, alike.toText left]

theorem add_congr (alike : h.Alike k) (left : l.Alike l') (right : r.Alike r') :
    add h l r = add k l' r' := by
  have textual : (isTextual l || isTextual r) = (isTextual l' || isTextual r') := by
    simp only [isTextual, left.isString, right.isString, left.object?, right.object?]
  simp only [add, textual, summand_congr alike left, summand_congr alike right,
    alike.toNumber left, alike.toNumber right]

/-- An operator on known values only reads their contents. -/
theorem known_congr (alike : h.Alike k) (left : l.Alike l') (right : r.Alike r') (op : BinaryOp) :
    known h op l r = known k op l' r' := by
  cases op <;>
    simp only [known, add_congr alike left right, looselyEqual, sameValue, equalsLiteral, compare,
      toInt32, shiftCount, left.content, right.content, alike.toText left, alike.toText right,
      alike.toNumber left, alike.toNumber right]

/-- An operator on known values makes a bare value. -/
theorem known_isBare (h : Heap) (op : BinaryOp) (l r : Value) : (known h op l r).IsBare := by
  cases op with
  | and | or | coalesce | other => exact .unknown
  | equal | notEqual | same | notSame | less | greater | lessOrEqual | greaterOrEqual =>
      exact .bool _
  | add =>
      simp only [known, add]
      split
      · exact .string _
      · exact .number _
  | divide | modulo =>
      simp only [known]
      split
      · exact .number _
      · exact .number _
  | _ => exact .number _

/-- A relation that holds of the operands and of every bare value holds of the results: an operator
gives one of its operands, or a bare value. -/
theorem binary_related {R : Value → Value → Prop} (alike : h.Alike k)
    (bare : ∀ v : Value, v.IsBare → R v v) (like : ∀ {v w}, R v w → v.Alike w) (left : R l l')
    (right : R r r') (op : BinaryOp) : R (binary h op l r) (binary k op l' r') := by
  have unknown : R .unknown .unknown := bare _ .unknown
  cases op with
  | and =>
      simp only [binary, (like left).isDirty, (like left).truthy]
      split
      · exact unknown
      · split
        · exact right
        · exact left
  | or =>
      simp only [binary, (like left).isDirty, (like left).truthy]
      split
      · exact unknown
      · split
        · exact left
        · exact right
  | coalesce =>
      simp only [binary, (like left).isDirty, (like left).content]
      split
      · exact unknown
      · split
        · exact right
        · exact right
        · exact left
  | _ =>
      simp only [binary, (like left).isDirty, (like right).isDirty, (like left).isString,
        (like right).isString, known_congr alike (like left) (like right)]
      split
      · split
        · exact bare _ (.ofLiteral _ _)
        · exact unknown
      · exact bare _ (known_isBare ..)

theorem unary_congr (alike : h.Alike k) (operand : l.Alike l') (op : UnaryOp) :
    unary h op l = unary k op l' := by
  cases op <;>
    simp only [unary, operand.isDirty, operand.entity, operand.callable, operand.typeName,
      operand.truthy, toInt32, alike.toNumber operand]

theorem unary_isBare (h : Heap) (op : UnaryOp) (v : Value) : (unary h op v).IsBare := by
  cases op with
  | typeOf =>
      simp only [unary]
      split
      · exact .unknown
      · exact .string _
  | void => exact .undefined
  | delete => exact .bool _
  | not =>
      simp only [unary]
      split
      · exact .unknown
      · exact .bool _
  | other =>
      simp only [unary]
      split
      · exact .unknown
      · exact .unknown
  | _ =>
      simp only [unary]
      split
      · exact .unknown
      · exact .number _

end Operator

end AddonAudit.Script
