import Telemetry.ScalarType

/-!
# Fields and their wire order

A message declares its fields in an order of its own, base fields first and extension fields behind
them. On the wire the base fields still come first, but within each part the fields may be
reordered, the widest elements first.

* `Field`: a declared field.
* `wireOrder`: the fields of a message as they follow each other on the wire.
* `WireOrder.baseLength`, `WireOrder.fullLength`: the bytes that they take.
-/

namespace Telemetry

/-- A declared field. -/
structure Field where
  name : String
  /-- The tag of the type of its values, or of its elements. -/
  tag : String
  /-- 0 for a single value, else the number of elements, or of bytes of a text. -/
  arrayLength : Nat := 0
  description : Option String := none
deriving DecidableEq, Inhabited

/-- Whether a field holds a text: an array of characters. -/
def Field.isText (f : Field) : Bool := 0 < f.arrayLength && f.tag == "char"

/-- A field in wire order. -/
structure OrderedField where
  /-- Its place in the declaration. -/
  index : Nat
  field : Field
  type : ScalarType
deriving DecidableEq

/-- The bytes of a field on the wire. -/
def OrderedField.size (o : OrderedField) : Nat := o.type.width * max o.field.arrayLength 1

/-- The fields of a message in wire order. -/
structure WireOrder where
  /-- The fields of every frame. -/
  base : List OrderedField
  /-- The fields of extended frames only. -/
  extension : List OrderedField
deriving DecidableEq

/-- All fields in wire order. -/
def WireOrder.all (w : WireOrder) : List OrderedField := w.base ++ w.extension

/-- Fields with the widest elements first; fields of one width keep their order. -/
def widestFirst (fields : List OrderedField) : List OrderedField :=
  [8, 4, 2, 1].flatMap fun width => fields.filter (·.type.width = width)

/-- Numbered fields with their types resolved, or the fault of the first that has none. -/
def resolveFields (message : String) (fields : List (Field × Nat)) :
    Except SchemaError (List OrderedField) :=
  fields.mapM fun (f, i) => do
    return { index := i, field := f, type := ← ScalarType.resolve message f.name f.tag }

/-- How many of `count` fields come before the extensions. -/
def splitIndex (extensionsStart : Option Nat) (count : Nat) : Nat :=
  min (extensionsStart.getD count) count

/-- The fields of a message in wire order. No field crosses the start of the extensions. -/
def wireOrder (message : String) (fields : List Field) (extensionsStart : Option Nat)
    (sorted : Bool) : Except SchemaError WireOrder := do
  let split := splitIndex extensionsStart fields.length
  let base ← resolveFields message (fields.zipIdx.take split)
  let extension ← resolveFields message (fields.zipIdx.drop split)
  if sorted then return ⟨widestFirst base, widestFirst extension⟩
  else return ⟨base, extension⟩

/-- The greatest length that is told apart from greater ones. -/
def maxLength : Nat := 0xFFFFFFFFFFFFFFFF

/-- The bytes of fields, up to `maxLength`. -/
def fieldsLength : List OrderedField → Nat
  | [] => 0
  | o :: rest => min (o.size + fieldsLength rest) maxLength

/-- The bytes of a legacy payload. -/
def WireOrder.baseLength (w : WireOrder) : Nat := fieldsLength w.base

/-- The bytes of an extended payload. -/
def WireOrder.fullLength (w : WireOrder) : Nat := fieldsLength w.all

end Telemetry
