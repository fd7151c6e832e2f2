import Telemetry.Schema.Message

/-!
# Payload layout

The plan of a message's payload: one step per field in wire order, each with its place among the
bytes. Encoding, decoding and generated code all follow the plan.

* `Step`: what one field takes of the payload.
* `LayoutPlan`: the steps of a message and the lengths of its payloads.
* `LayoutPlan.ofMessage`: the plan of a message, checked against the declared lengths.
-/

namespace Telemetry

/-- The form of a field on the wire. -/
inductive StepKind where
  /-- A single value. -/
  | scalar
  /-- `n` elements one after the other. -/
  | array (n : Nat)
  /-- A text in `n` bytes, filled up with zeros. -/
  | text (n : Nat)
deriving DecidableEq

/-- What one field takes of the payload. -/
structure Step where
  /-- The name of the field. -/
  field : String
  /-- Its place in the declaration. -/
  index : Nat
  type : ScalarType
  kind : StepKind
  /-- Where its bytes begin. -/
  offset : Nat
deriving DecidableEq

namespace Step

/-- The number of elements. -/
def count (s : Step) : Nat :=
  match s.kind with
  | .scalar => 1
  | .array n => n
  | .text n => n

/-- The number of bytes. -/
def width (s : Step) : Nat := s.type.width * s.count

end Step

/-- The form of a field, by its type and array length. -/
def StepKind.ofField (type : ScalarType) (arrayLength : Nat) : StepKind :=
  if arrayLength = 0 then .scalar
  else if type = .integer .char then .text arrayLength
  else .array arrayLength

/-- The step of a field that begins at `offset`. -/
def OrderedField.step (o : OrderedField) (offset : Nat) : Step where
  field := o.field.name
  index := o.index
  type := o.type
  kind := .ofField o.type o.field.arrayLength
  offset := offset

/-- The steps of fields that follow each other from `offset` on. -/
def placeSteps (offset : Nat) : List OrderedField → List Step
  | [] => []
  | o :: rest => o.step offset :: placeSteps (offset + (o.step offset).width) rest

/-- The bytes of a list of steps. -/
def stepsLength : List Step → Nat
  | [] => 0
  | s :: rest => s.width + stepsLength rest

/-- The plan of a message's payload. -/
structure LayoutPlan where
  id : Nat
  /-- The name of the message. -/
  name : String
  /-- The steps of every frame. -/
  baseSteps : List Step
  /-- The steps of extended frames only. -/
  extensionSteps : List Step
  /-- The length of a legacy payload. -/
  baseLength : Nat
  /-- The length of an extended payload. -/
  fullLength : Nat
deriving DecidableEq

namespace LayoutPlan

/-- All steps in wire order. -/
def steps (p : LayoutPlan) : List Step := p.baseSteps ++ p.extensionSteps

/-- Whether extended frames have steps of their own. -/
def hasExtensions (p : LayoutPlan) : Bool := !p.extensionSteps.isEmpty

/-- The steps that a frame of a version carries. -/
def stepsFor (p : LayoutPlan) : FrameVersion → List Step
  | .legacy => p.baseSteps
  | .extended => p.steps

/-- The payload length of a frame of a version. -/
def payloadLength (p : LayoutPlan) : FrameVersion → Nat
  | .legacy => p.baseLength
  | .extended => p.fullLength

/-- The step of a field. -/
def step? (p : LayoutPlan) (field : String) : Option Step := p.steps.find? (·.field == field)

/-- Plans a message and checks the lengths of the plan against the declared ones. -/
def ofMessage (m : Message) (sorted : Bool) : Except SchemaError LayoutPlan := do
  let order ← wireOrder m.name m.fields m.extensionsStart sorted
  let baseSteps := placeSteps 0 order.base
  let baseLength := stepsLength baseSteps
  let extensionSteps := placeSteps baseLength order.extension
  let fullLength := baseLength + stepsLength extensionSteps
  if baseLength ≠ m.baseLength then
    throw (.lengthMismatch m.name .legacy m.baseLength baseLength)
  if fullLength ≠ m.fullLength then
    throw (.lengthMismatch m.name .extended m.fullLength fullLength)
  return { id := m.id, name := m.name, baseSteps, extensionSteps, baseLength, fullLength }

end LayoutPlan

end Telemetry
