import AddonAudit.Script.Value
import AddonAudit.Text.Quoted

/-!
# The object heap

Objects and arrays live in a heap and are referred to by handle, so a script may build cycles.
Rendering marks the objects it is inside of: an object that is met again while it is marked is not
entered a second time, and the mark is cleared on the way out, so that an object that is merely
shared is rendered in full at each place.
-/

namespace AddonAudit.Script

/-- Named values in the order in which the names were first stored. -/
abbrev Properties := List (String × Value)

namespace Properties

def find? (name : String) : Properties → Option Value
  | [] => none
  | (k, v) :: rest => if k = name then some v else find? name rest

/-- Store a value; a name that is present keeps its place. -/
def store (name : String) (value : Value) : Properties → Properties
  | [] => [(name, value)]
  | (k, v) :: rest => if k = name then (k, value) :: rest else (k, v) :: store name value rest

end Properties

/-- An object: its properties, and its elements if it is an array. -/
structure Object where
  elements : Option (Array Value) := none
  properties : Properties := []
  deriving Inhabited

/-- The objects of a run; a handle is a position. -/
structure Heap where
  objects : Array Object := #[]
  deriving Inhabited

def maxArrayLength : Nat := 100000

def arrayIndex? (name : String) : Option Nat :=
  Number.signedNatural? 10 (Number.twoTo 64) name.toList

/-- Cut an array, or fill it up with undefined values. -/
def resize (elements : Array Value) (size : Nat) : Array Value :=
  if size ≤ elements.size then elements.take size
  else elements ++ Array.replicate (size - elements.size) Value.undefined

namespace Object

/-- The value of a property. An array has a length, and every index of it has a value. -/
def get? (o : Object) (name : String) : Option Value :=
  match o.elements with
  | none => Properties.find? name o.properties
  | some elements =>
    if name = "length" then some (.number (Float.ofNat elements.size))
    else match arrayIndex? name with
      | some index => some (elements[index]?.getD {})
      | none => Properties.find? name o.properties

/-- The elements after a value is stored as the length. -/
def setLength (elements : Array Value) (value : Value) : Array Value :=
  match value.content with
  | .literal l =>
    resize elements (min (Number.toInt64 l.toNumber).toNat maxArrayLength)
  | _ => elements

/-- The elements after a value is stored at an index; an index that is too large is ignored. -/
def setElement (elements : Array Value) (index : Nat) (value : Value) : Array Value :=
  if maxArrayLength ≤ index then elements
  else
    (if elements.size ≤ index then resize elements (index + 1) else elements).setIfInBounds index
      value

def set (o : Object) (name : String) (value : Value) : Object :=
  match o.elements with
  | none => { o with properties := Properties.store name value o.properties }
  | some elements =>
    if name = "length" then { o with elements := some (setLength elements value) }
    else match arrayIndex? name with
      | some index => { o with elements := some (setElement elements index value) }
      | none => { o with properties := Properties.store name value o.properties }

/-- The names of the properties: indices first. -/
def keys (o : Object) : List String :=
  (match o.elements with
    | some elements => (List.range elements.size).map toString
    | none => []) ++ o.properties.map Prod.fst

end Object

namespace Heap

def get (h : Heap) (id : ObjectId) : Object :=
  h.objects[id]?.getD {}

def alloc (h : Heap) (o : Object) : ObjectId × Heap :=
  (h.objects.size, ⟨h.objects.push o⟩)

def newObject (h : Heap) : ObjectId × Heap :=
  h.alloc {}

/-- Add an array; elements beyond the greatest length are dropped. -/
def newArray (h : Heap) (elements : Array Value) : ObjectId × Heap :=
  h.alloc { elements := some (elements.take maxArrayLength) }

def isArray (h : Heap) (id : ObjectId) : Bool :=
  (h.get id).elements.isSome

def get? (h : Heap) (id : ObjectId) (name : String) : Option Value :=
  (h.get id).get? name

def set (h : Heap) (id : ObjectId) (name : String) (value : Value) : Heap :=
  ⟨h.objects.modify id fun o => o.set name value⟩

def size (h : Heap) : Nat :=
  h.objects.size

end Heap

/-- The objects that a rendering is inside of. -/
abbrev Marks := List ObjectId

def Marks.clear (id : ObjectId) (marks : Marks) : Marks :=
  marks.filter (· ≠ id)

/-- Apply a rendering step to every item, from left to right. -/
def renderAll {α : Type} (step : Marks → α → String × Marks) :
    List α → Marks → List String × Marks
  | [], marks => ([], marks)
  | a :: rest, marks =>
    let (text, marks) := step marks a
    let (texts, marks) := renderAll step rest marks
    (text :: texts, marks)

namespace Heap

/-- The text of a value inside an array that is being joined, with the marks before and after. The
fuel bounds how deep the arrays are entered. -/
def joinText (h : Heap) : Nat → Marks → Value → String × Marks
  | fuel, marks, v =>
    match v.content with
    | .unknown => ("[object Object]", marks)
    | .literal l => (if l.isNullish then "" else l.toText, marks)
    | .object id =>
      match (h.get id).elements with
      | none => ("[object Object]", marks)
      | some elements =>
        if marks.contains id then ("", marks)
        else match fuel with
          | 0 => ("", marks)
          | fuel + 1 =>
            let (texts, marks) := renderAll (h.joinText fuel) elements.toList (id :: marks)
            (",".intercalate texts, marks.clear id)

/-- The text of a value: arrays join their elements, other objects all look alike. -/
def toText (h : Heap) (v : Value) : String :=
  match v.content with
  | .literal l => l.toText
  | _ => (h.joinText (h.size + 1) [] v).1

def toNumber (h : Heap) (v : Value) : Float :=
  match v.content with
  | .literal l => l.toNumber
  | .object _ => Number.ofText (h.toText v)
  | .unknown => Number.nan

/-- The integer part of the number that a value stands for, within 64 bits. -/
def toInteger (h : Heap) (v : Value) : Int :=
  Number.toInt64 (h.toNumber v)

/-- A value in full, with the marks before and after. The fuel bounds how deep objects are
entered. -/
def displayText (h : Heap) : Nat → Marks → Value → String × Marks
  | fuel, marks, v =>
    match v.content with
    | .unknown => ("<dirty>", marks)
    | .literal (.string s) => (Text.quoted s, marks)
    | .literal l => (l.toText, marks)
    | .object id =>
      if marks.contains id then ("<recursion>", marks)
      else match fuel with
        | 0 => ("<recursion>", marks)
        | fuel + 1 =>
          let o := h.get id
          let items := (o.elements.getD #[]).toList
          let (items, marks) := renderAll (h.displayText fuel) items (id :: marks)
          let (properties, marks) := renderAll (fun marks (name, v) =>
            let (text, marks) := h.displayText fuel marks v
            (name ++ ": " ++ text, marks)) o.properties marks
          let body := ", ".intercalate (items ++ properties)
          let text := if o.elements.isSome then "[" ++ body ++ "]" else "\x7b" ++ body ++ "\x7d"
          (text, marks.clear id)

def display (h : Heap) (v : Value) : String :=
  (h.displayText (h.size + 1) [] v).1

end Heap

end AddonAudit.Script
