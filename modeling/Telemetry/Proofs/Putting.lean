import Telemetry.Codec
import Telemetry.Proofs.Except

/-!
# Encoding into a payload

A payload can be filled value by value, each behind what was put before it. That gives the bytes
that `Codec.encode` puts together from those of the steps, and it ends with the same faults.

* `Codec.putScalar`, `Codec.putArray`, `Codec.putStep`, `Codec.putSteps`: values that are put at the
  end of a payload, one after the other.
* `Appends`: a writer puts what a computation of bytes gives. `Appends.foldlM` is the rule for
  writers that follow each other.
* `Codec.encode_eq_put`: a payload that is filled from empty has the bytes of `Codec.encode`.
-/

namespace Telemetry

namespace Payload

variable (p : Payload) (xs ys : List UInt8)

@[simp] theorem order_putBytes : (p.putBytes xs).order = p.order := rfl

@[simp] theorem putBytes_nil : p.putBytes [] = p := by
  simp [putBytes]

theorem putBytes_putBytes : (p.putBytes xs).putBytes ys = p.putBytes (xs ++ ys) := by
  simp [putBytes]

end Payload

/-- A writer puts the bytes that a computation gives for the order of the payload, and has its
fault if there are none. -/
def Appends (write : Payload → Except CodecError Payload)
    (bytes : ByteOrder → Except CodecError (List UInt8)) : Prop :=
  ∀ p, write p = do return p.putBytes (← bytes p.order)

/-- Writers that follow each other put all their bytes, up to the first fault. -/
theorem Appends.foldlM {α : Type} {write : Payload → α → Except CodecError Payload}
    {bytes : α → ByteOrder → Except CodecError (List UInt8)} (xs : List α)
    (h : ∀ x ∈ xs, Appends (fun p => write p x) (bytes x)) :
    Appends (xs.foldlM write) fun order => do
      return (← xs.mapM fun x => bytes x order).flatten := by
  induction xs with
  | nil =>
    intro p
    simp
  | cons x xs ih =>
    intro p
    have hfirst : write p x = do return p.putBytes (← bytes x p.order) := h x List.mem_cons_self p
    have hrest := ih fun x hx => h x (List.mem_cons_of_mem _ hx)
    dsimp only
    rw [List.foldlM_cons, List.mapM_cons, hfirst]
    cases bytes x p.order with
    | error e => rfl
    | ok part =>
      refine (hrest (p.putBytes part)).trans ?_
      dsimp only
      rw [Payload.order_putBytes]
      cases xs.mapM fun x => bytes x p.order with
      | error e => rfl
      | ok parts => exact congrArg Except.ok (p.putBytes_putBytes part parts.flatten)

namespace Codec

/-! ## Writers -/

/-- Puts a single value of a type. -/
def putScalar (field : String) (type : ScalarType) (value : Value) (p : Payload) :
    Except CodecError Payload :=
  match type with
  | .float =>
    match value.toBinary32? with
    | some x => .ok (p.putBinary32 x)
    | none => .error (.typeMismatch field type value.kind)
  | .double =>
    match value.toBinary64? with
    | some x => .ok (p.putBinary64 x)
    | none => .error (.typeMismatch field type value.kind)
  | .integer kind => do return p.putInt kind (← integer field type kind value)
  | .version => do return p.putInt .u8 (← integer field type .u8 value)

/-- Puts `n` values of a type, with zeros at the places that a list does not reach. -/
def putArray (field : String) (type : ScalarType) (n : Nat) (items : List Value) (p : Payload) :
    Except CodecError Payload :=
  if n < items.length then .error (.tooManyElements field items.length n)
  else (List.range n).foldlM (fun p i => putScalar field type (items[i]?.getD Value.zero) p) p

/-- Puts what a step takes of the payload, given the value of its field. -/
def putStep (step : Step) (value? : Option Value) (p : Payload) : Except CodecError Payload :=
  match step.kind with
  | .scalar => putScalar step.field step.type (value?.getD Value.zero) p
  | .text n =>
    match value? with
    | none => .ok (p.putText "" n)
    | some (.text s) => .ok (p.putText s n)
    | some other => .error (.typeMismatch step.field step.type other.kind)
  | .array n =>
    match value? with
    | none => putArray step.field step.type n [] p
    | some (.list items) => putArray step.field step.type n items p
    | some other => .error (.typeMismatch step.field step.type other.kind)

/-- Puts the steps of a frame of a version one after the other. -/
def putSteps (plan : LayoutPlan) (values : FieldValues) (version : FrameVersion) (p : Payload) :
    Except CodecError Payload :=
  (plan.stepsFor version).foldlM (fun p step => putStep step (values.get? step.field) p) p

/-! ## What they put -/

theorem appends_putScalar (field : String) (type : ScalarType) (value : Value) :
    Appends (putScalar field type value) fun order => encodeScalar order field type value := by
  intro p
  cases type with
  | float =>
    simp only [putScalar, encodeScalar]
    cases value.toBinary32? <;> rfl
  | double =>
    simp only [putScalar, encodeScalar]
    cases value.toBinary64? <;> rfl
  | integer kind =>
    simp only [putScalar, encodeScalar, encodeInt]
    cases integer field (.integer kind) kind value <;> rfl
  | version =>
    simp only [putScalar, encodeScalar, encodeInt]
    cases integer field .version .u8 value <;> rfl

/-- Looking for an item at each of `n` places gives the items and then zeros. -/
theorem map_range_getD {n : Nat} {items : List Value} (h : items.length ≤ n) :
    (List.range n).map (fun i => items[i]?.getD Value.zero) =
      items ++ List.replicate (n - items.length) Value.zero := by
  refine List.ext_getElem? fun i => ?_
  rw [List.getElem?_map, List.getElem?_append]
  by_cases hitem : i < items.length
  · have hi : i < n := by omega
    simp [hitem, hi]
  · by_cases hi : i < n
    · have hzero : i - items.length < n - items.length := by omega
      simp [hitem, hi, hzero]
    · have hnone : ¬ i - items.length < n - items.length := by omega
      simp [hitem, hi, hnone]

theorem appends_putArray (field : String) (type : ScalarType) (n : Nat) (items : List Value) :
    Appends (putArray field type n items) fun order => encodeArray order field type n items := by
  intro p
  by_cases hn : n < items.length
  · simp only [putArray, encodeArray, if_pos hn]
    rfl
  · have hputs := Appends.foldlM (List.range n)
      (fun i _ => appends_putScalar field type (items[i]?.getD Value.zero)) p
    simp only [putArray, encodeArray, if_neg hn, ← map_range_getD (Nat.le_of_not_lt hn),
      List.mapM_map]
    exact hputs

theorem appends_putStep (step : Step) (value? : Option Value) :
    Appends (putStep step value?) fun order => encodeStep order step value? := by
  intro p
  cases hk : step.kind with
  | scalar =>
    simp only [putStep, encodeStep, hk]
    exact appends_putScalar _ _ _ p
  | text n =>
    simp only [putStep, encodeStep, hk]
    cases value? with
    | none => rfl
    | some v => cases v <;> rfl
  | array n =>
    simp only [putStep, encodeStep, hk]
    cases value? with
    | none => exact appends_putArray _ _ _ _ p
    | some v =>
      cases v with
      | list items => exact appends_putArray _ _ _ _ p
      | _ => rfl

theorem appends_putSteps (plan : LayoutPlan) (values : FieldValues) (version : FrameVersion) :
    Appends (putSteps plan values version) fun order => encode order plan values version :=
  Appends.foldlM _ fun step _ => appends_putStep step (values.get? step.field)

/-- **Encoding is putting the values on an empty payload.** -/
theorem encode_eq_put (order : ByteOrder) (plan : LayoutPlan) (values : FieldValues)
    (version : FrameVersion) :
    encode order plan values version = do
      let p ← putSteps plan values version (.empty order)
      return p.bytes := by
  have hputs : putSteps plan values version (.empty order) = do
      return (Payload.empty order).putBytes (← encode order plan values version) :=
    appends_putSteps plan values version (.empty order)
  rw [hputs]
  cases encode order plan values version with
  | error e => rfl
  | ok bytes => rfl

end Codec

end Telemetry
