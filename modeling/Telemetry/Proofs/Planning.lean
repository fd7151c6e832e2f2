import Telemetry.Proofs.Layout

/-!
# Every declared message has a plan

Planning resolves the types that declaring a message resolved and adds up the same widths, in
whatever order the fields come. So it fails for no declared message.

* `wireOrder_eq_ok_iff`: what the wire order of fields is, and when there is one.
* `fieldsLength_eq`, `fieldsLength_perm`: the declared length is that of the steps, as long as it is
  told apart from greater ones, and does not depend on the order.
* `LayoutPlan.exists_ofMessage`: a declared message can be planned, sorted or not.
-/

namespace Telemetry

/-! ## Wire order -/

theorem numbers_of_resolveFields {message : String} {fields : List (Field × Nat)}
    {os : List OrderedField} (h : resolveFields message fields = .ok os) :
    os.map (fun o => (o.field, o.index)) = fields := by
  rw [resolveFields, mapM_eq_ok_iff] at h
  induction h with
  | nil => rfl
  | cons ho _ ih =>
    obtain ⟨type, -, ho⟩ := bind_eq_ok_iff.1 ho
    cases ho
    rw [List.map_cons, ih]

theorem indices_of_resolveFields {message : String} {fields : List (Field × Nat)}
    {os : List OrderedField} (h : resolveFields message fields = .ok os) :
    os.map (·.index) = fields.map (·.2) := by
  rw [← numbers_of_resolveFields h, List.map_map]
  rfl

/-- The places of the fields before the extensions. -/
theorem indices_take_zipIdx {fields : List Field} {split : Nat} (h : split ≤ fields.length) :
    (fields.zipIdx.take split).map (·.2) = List.range split := by
  rw [List.map_take, List.zipIdx_map_snd, ← List.range_eq_range', List.take_range,
    Nat.min_eq_left h]

/-- The places of the extensions. -/
theorem indices_drop_zipIdx (fields : List Field) (split : Nat) :
    (fields.zipIdx.drop split).map (·.2) = List.range' split (fields.length - split) := by
  rw [List.map_drop, List.zipIdx_map_snd, List.drop_range', Nat.zero_add, Nat.mul_one]

/-- The fields of one part of a message as they go on the wire. -/
def arrange (sorted : Bool) (fields : List OrderedField) : List OrderedField :=
  if sorted then widestFirst fields else fields

theorem arrange_perm (sorted : Bool) (fields : List OrderedField) :
    (arrange sorted fields).Perm fields := by
  cases sorted with
  | false => exact .refl fields
  | true => exact widestFirst_perm fields

theorem arrange_nil (sorted : Bool) : arrange sorted [] = [] := by
  cases sorted <;> rfl

theorem wireOrder_eq_ok_iff {message : String} {fields : List Field} {start : Option Nat}
    {sorted : Bool} {order : WireOrder} :
    wireOrder message fields start sorted = .ok order ↔ ∃ base extension,
      resolveFields message (fields.zipIdx.take (splitIndex start fields.length)) = .ok base ∧
      resolveFields message (fields.zipIdx.drop (splitIndex start fields.length)) =
        .ok extension ∧
      order = ⟨arrange sorted base, arrange sorted extension⟩ := by
  rw [wireOrder, bind_eq_ok_iff]
  refine exists_congr fun base => ?_
  rw [bind_eq_ok_iff, ← exists_and_left]
  refine exists_congr fun extension => and_congr_right fun _ => and_congr_right fun _ => ?_
  cases sorted <;> simp [arrange, pure, Except.pure, eq_comm]

/-- Whether a message has a wire order does not depend on whether its fields are sorted, nor does
what either part holds. -/
theorem exists_wireOrder {message : String} {fields : List Field} {start : Option Nat}
    {sorted : Bool} {order : WireOrder} (h : wireOrder message fields start sorted = .ok order)
    (sorted' : Bool) : ∃ order', wireOrder message fields start sorted' = .ok order' ∧
      order'.base.Perm order.base ∧ order'.extension.Perm order.extension := by
  obtain ⟨base, extension, hbase, hext, rfl⟩ := wireOrder_eq_ok_iff.1 h
  refine ⟨_, wireOrder_eq_ok_iff.2 ⟨base, extension, hbase, hext, rfl⟩, ?_, ?_⟩
  · exact (arrange_perm sorted' base).trans (arrange_perm sorted base).symm
  · exact (arrange_perm sorted' extension).trans (arrange_perm sorted extension).symm

/-! ## Lengths -/

theorem OrderedField.width_step (o : OrderedField) (offset : Nat) :
    (o.step offset).width = o.size := by
  have hcount : (o.step offset).count = max o.field.arrayLength 1 := by
    simp only [Step.count, step, StepKind.ofField]
    by_cases hlen : o.field.arrayLength = 0
    · simp [hlen]
    · rw [if_neg hlen, Nat.max_eq_left (Nat.pos_of_ne_zero hlen)]
      by_cases htype : o.type = .integer .char <;> simp [htype]
  rw [Step.width, hcount, size, step]

theorem numbers_placeSteps (offset : Nat) (os : List OrderedField) :
    (placeSteps offset os).map (fun s => (s.field, s.index)) =
      os.map fun o => (o.field.name, o.index) := by
  induction os generalizing offset with
  | nil => rfl
  | cons o rest ih => simp [placeSteps, ih, OrderedField.step]

theorem placeSteps_append (offset : Nat) (xs ys : List OrderedField) :
    placeSteps offset (xs ++ ys) =
      placeSteps offset xs ++ placeSteps (offset + stepsLength (placeSteps offset xs)) ys := by
  induction xs generalizing offset with
  | nil => rfl
  | cons o xs ih => simp [placeSteps, stepsLength, ih, Nat.add_assoc]

theorem fieldsLength_eq (offset : Nat) (os : List OrderedField) :
    fieldsLength os = min (stepsLength (placeSteps offset os)) maxLength := by
  induction os generalizing offset with
  | nil => rfl
  | cons o os ih =>
    rw [fieldsLength, placeSteps, stepsLength, o.width_step, ih (offset + o.size)]
    omega

/-- A length that fits a frame is the exact one. -/
theorem stepsLength_placeSteps {os : List OrderedField} (offset : Nat)
    (h : fieldsLength os ≤ maxPayloadLength) :
    stepsLength (placeSteps offset os) = fieldsLength os := by
  rw [fieldsLength_eq offset] at h ⊢
  simp only [maxPayloadLength, maxLength] at h ⊢
  omega

theorem fieldsLength_append (xs ys : List OrderedField) :
    fieldsLength (xs ++ ys) = min (fieldsLength xs + fieldsLength ys) maxLength := by
  rw [fieldsLength_eq 0 (xs ++ ys), placeSteps_append, stepsLength_append, fieldsLength_eq 0 xs,
    fieldsLength_eq (0 + stepsLength (placeSteps 0 xs)) ys]
  omega

theorem fieldsLength_perm {os os' : List OrderedField} (h : os.Perm os') :
    fieldsLength os = fieldsLength os' := by
  induction h with
  | nil => rfl
  | cons o _ ih => rw [fieldsLength, fieldsLength, ih]
  | swap o o' os =>
    simp only [fieldsLength]
    omega
  | trans _ _ ih ih' => exact ih.trans ih'

theorem WireOrder.baseLength_le {order : WireOrder} (h : order.fullLength ≤ maxPayloadLength) :
    order.baseLength ≤ maxPayloadLength := by
  rw [fullLength, all, fieldsLength_append] at h
  rw [baseLength]
  simp only [maxPayloadLength, maxLength] at h ⊢
  omega

/-! ## Plans -/

namespace LayoutPlan

/-- The plan of a message whose declared lengths are those of its wire order. -/
theorem ofMessage_of_wireOrder {m : Message} {sorted : Bool} {order : WireOrder}
    (horder : wireOrder m.name m.fields m.extensionsStart sorted = .ok order)
    (hfits : order.fullLength ≤ maxPayloadLength) (hbase : order.baseLength = m.baseLength)
    (hfull : order.fullLength = m.fullLength) :
    ofMessage m sorted = .ok
      { id := m.id, name := m.name
        baseSteps := placeSteps 0 order.base
        extensionSteps := placeSteps m.baseLength order.extension
        baseLength := m.baseLength, fullLength := m.fullLength } := by
  have hb : stepsLength (placeSteps 0 order.base) = m.baseLength :=
    (stepsLength_placeSteps 0 (WireOrder.baseLength_le hfits)).trans hbase
  have hf : m.baseLength + stepsLength (placeSteps m.baseLength order.extension) =
      m.fullLength := by
    have hall := stepsLength_placeSteps 0 hfits
    rw [WireOrder.all, placeSteps_append, stepsLength_append, hb, Nat.zero_add] at hall
    exact hall.trans hfull
  simp [ofMessage, horder, hb, hf, bind, Except.bind, pure, Except.pure]

/-- **A declared message can be planned**, whether its fields are sorted or not. -/
theorem exists_ofMessage {id : Nat} {name : String} {fields : List Field} {start : Option Nat}
    {flags : DialectFlags} {m : Message} (hm : Message.declare id name fields start flags = .ok m)
    (sorted : Bool) : ∃ plan, ofMessage m sorted = .ok plan := by
  obtain ⟨-, -, -, sealing, hsealing, hfits, rfl⟩ := Message.declare_eq_ok_iff.1 hm
  obtain ⟨order, horder, hbase, hext⟩ := exists_wireOrder hsealing sorted
  have hblen : order.baseLength = sealing.baseLength := fieldsLength_perm hbase
  have hflen : order.fullLength = sealing.fullLength := fieldsLength_perm (hbase.append hext)
  exact ⟨_, ofMessage_of_wireOrder horder (hflen ▸ hfits) hblen hflen⟩

end LayoutPlan

/-- A message without extensions, whose fields change places on the wire. -/
def Message.status : Message where
  id := 7
  name := "STATUS"
  fields := [⟨"mode", "uint8_t", 0, none⟩, ⟨"uptime", "uint32_t", 0, none⟩]
  fingerprint := 99
  baseLength := 5
  fullLength := 5

end Telemetry
