import Mathlib.Data.List.Perm.Basic
import Telemetry.Layout
import Telemetry.Proofs.Except

/-!
# Declared messages and their plans

* `Message.declare_eq_ok_iff`: which definitions are declared, and as what.
* `wireOrder_perm`: the wire order holds each field of a message once.
* `LayoutPlan.ofMessage_eq_ok`: what a plan is made of.
* `LayoutPlan.Sound`: the steps of a plan have fields of their own, its lengths are theirs, and they
  fit a frame. `LayoutPlan.Sound.of_declare` gives this for every plan of a declared message.
-/

namespace Telemetry

/-! ## Declarations -/

theorem firstRepeat?_eq_none_iff {seen names : List String} :
    firstRepeat? seen names = none ↔ names.Nodup ∧ ∀ x ∈ names, x ∉ seen := by
  induction names generalizing seen with
  | nil => simp [firstRepeat?]
  | cons x rest ih =>
    by_cases hx : x ∈ seen
    · simp [firstRepeat?, hx]
    · rw [firstRepeat?, if_neg hx, ih, List.nodup_cons, List.forall_mem_cons]
      constructor
      · rintro ⟨hnodup, h⟩
        refine ⟨⟨fun hmem => h x hmem List.mem_cons_self, hnodup⟩, hx, fun y hy hs => ?_⟩
        exact h y hy (List.mem_cons_of_mem _ hs)
      · rintro ⟨⟨hmem, hnodup⟩, -, h⟩
        refine ⟨hnodup, fun y hy hs => ?_⟩
        rcases List.mem_cons.1 hs with rfl | hs
        · exact hmem hy
        · exact h y hy hs

namespace Message

/-- The message of a definition whose id, names and extensions marker were found right. -/
def sealed (id : Nat) (name : String) (fields : List Field) (extensionsStart : Option Nat)
    (flags : DialectFlags) (order : WireOrder) : Message where
  id := id
  name := name
  fields := fields
  extensionsStart := extensionsStart
  fingerprint :=
    if flags.fingerprints then Telemetry.fingerprint name (order.base.map (·.forFingerprint)) else 0
  baseLength := order.baseLength
  fullLength := order.fullLength

/-- A message is declared exactly if its id fits some frame, its fields have names of their own, its
extensions follow a base field, its types exist and its payload fits a frame. -/
theorem declare_eq_ok_iff {id : Nat} {name : String} {fields : List Field}
    {extensionsStart : Option Nat} {flags : DialectFlags} {m : Message} :
    declare id name fields extensionsStart flags = .ok m ↔
      id ≤ FrameVersion.extended.maxId ∧ (fields.map (·.name)).Nodup ∧
      (∀ start, extensionsStart = some start → 0 < start ∧ start ≤ fields.length) ∧
      ∃ order, wireOrder name fields extensionsStart flags.sortFields = .ok order ∧
        order.fullLength ≤ maxPayloadLength ∧
        m = sealed id name fields extensionsStart flags order := by
  have hnames : firstRepeat? [] (fields.map (·.name)) = none ↔ (fields.map (·.name)).Nodup := by
    simp [firstRepeat?_eq_none_iff]
  -- What follows the checks of names and marker, whichever way these went.
  have hrest : (do
      let order ← wireOrder name fields extensionsStart flags.sortFields
      if maxPayloadLength < order.fullLength then
        throw (SchemaError.payloadTooLarge name order.fullLength maxPayloadLength)
      return sealed id name fields extensionsStart flags order) = .ok m ↔
      ∃ order, wireOrder name fields extensionsStart flags.sortFields = .ok order ∧
        order.fullLength ≤ maxPayloadLength ∧
        m = sealed id name fields extensionsStart flags order := by
    rw [bind_eq_ok_iff]
    refine exists_congr fun order => and_congr_right fun _ => ?_
    by_cases hlen : maxPayloadLength < order.fullLength
    · simp [hlen, Nat.not_le.2 hlen, throw, throwThe, MonadExceptOf.throw]
    · simp [hlen, Nat.le_of_not_lt hlen, pure, Except.pure, eq_comm]
  by_cases hid : FrameVersion.extended.maxId < id
  · rw [declare, if_pos hid]
    simp [Nat.not_le.2 hid, throw, throwThe, MonadExceptOf.throw, bind, Except.bind]
  cases hrep : firstRepeat? [] (fields.map (·.name)) with
  | some field =>
    have hdup : ¬ (fields.map (·.name)).Nodup := fun h => by simp [hnames.2 h] at hrep
    rw [declare, if_neg hid, hrep]
    simp [hdup, throw, throwThe, MonadExceptOf.throw, bind, Except.bind]
  | none =>
    rw [declare, if_neg hid, hrep]
    simp only [Nat.le_of_not_lt hid, hnames.1 hrep, true_and]
    rw [← hrest]
    cases extensionsStart with
    | none => simp [sealed]
    | some start =>
      by_cases hstart : start = 0 ∨ fields.length < start
      · have hbad : ¬ (0 < start ∧ start ≤ fields.length) := by omega
        simp [hstart, hbad, throw, throwThe, MonadExceptOf.throw, bind, Except.bind]
      · have hgood : 0 < start ∧ start ≤ fields.length := by omega
        simp [hstart, hgood, sealed]

/-- Whether a message is as it was declared, its description apart. -/
def Declared (m : Message) : Prop :=
  ∃ flags, declare m.id m.name m.fields m.extensionsStart flags = .ok { m with description := none }

end Message

/-! ## Wire order -/

theorem ScalarType.width_mem (t : ScalarType) : t.width ∈ [8, 4, 2, 1] := by
  cases t with
  | integer k => cases k <;> decide
  | _ => decide

theorem ScalarType.width_pos (t : ScalarType) : 0 < t.width := by
  have hmem := t.width_mem
  simp only [List.mem_cons, List.not_mem_nil, or_false] at hmem
  omega

/-- Sorting by width neither loses a field nor doubles one. -/
theorem widestFirst_perm (fields : List OrderedField) : (widestFirst fields).Perm fields := by
  rw [List.perm_iff_count]
  intro o
  have hcount (width : Nat) : (fields.filter (·.type.width = width)).count o =
      if o.type.width = width then fields.count o else 0 := by
    split
    · rename_i h
      exact List.count_filter (by simpa using h)
    · rename_i h
      exact List.count_eq_zero.2 fun hmem => h (by simpa using (List.mem_filter.1 hmem).2)
  have hwidth := o.type.width_mem
  simp only [List.mem_cons, List.not_mem_nil, or_false] at hwidth
  rcases hwidth with h | h | h | h <;> simp [widestFirst, hcount, h]

theorem fields_of_resolveFields {message : String} {fields : List (Field × Nat)}
    {os : List OrderedField} (h : resolveFields message fields = .ok os) :
    os.map (·.field) = fields.map (·.1) := by
  rw [resolveFields, mapM_eq_ok_iff] at h
  induction h with
  | nil => rfl
  | cons ho _ ih =>
    obtain ⟨type, -, ho⟩ := bind_eq_ok_iff.1 ho
    cases ho
    simp [ih]

/-- The wire order holds the fields of a message, each once. -/
theorem wireOrder_perm {message : String} {fields : List Field} {extensionsStart : Option Nat}
    {sorted : Bool} {order : WireOrder}
    (h : wireOrder message fields extensionsStart sorted = .ok order) :
    (order.all.map (·.field)).Perm fields := by
  obtain ⟨base, hbase, h⟩ := bind_eq_ok_iff.1 h
  obtain ⟨extension, hext, h⟩ := bind_eq_ok_iff.1 h
  have hfields : (base ++ extension).map (·.field) = fields := by
    rw [List.map_append, fields_of_resolveFields hbase, fields_of_resolveFields hext,
      ← List.map_append, List.take_append_drop, List.zipIdx_map_fst]
  cases sorted with
  | false =>
    cases h
    exact .of_eq hfields
  | true =>
    cases h
    refine .trans (.map _ ?_) (.of_eq hfields)
    exact (widestFirst_perm base).append (widestFirst_perm extension)

/-! ## Plans -/

theorem Step.width_of_scalar {s : Step} (hk : s.kind = .scalar) : s.width = s.type.width := by
  simp [width, count, hk]

theorem Step.width_of_array {s : Step} {n : Nat} (hk : s.kind = .array n) :
    s.width = s.type.width * n := by
  simp [width, count, hk]

theorem Step.width_of_text {s : Step} {n : Nat} (hk : s.kind = .text n)
    (htype : s.type = .integer .char) : s.width = n := by
  simp [width, count, hk, htype, ScalarType.width, IntKind.width]

theorem fields_placeSteps (offset : Nat) (os : List OrderedField) :
    (placeSteps offset os).map (·.field) = os.map (·.field.name) := by
  induction os generalizing offset with
  | nil => rfl
  | cons o rest ih => simp [placeSteps, ih, OrderedField.step]

theorem exists_of_mem_placeSteps {s : Step} {offset : Nat} {os : List OrderedField}
    (h : s ∈ placeSteps offset os) : ∃ o ∈ os, ∃ start, s = o.step start := by
  induction os generalizing offset with
  | nil => simp [placeSteps] at h
  | cons o rest ih =>
    rcases List.mem_cons.1 h with rfl | h
    · exact ⟨o, List.mem_cons_self, offset, rfl⟩
    · obtain ⟨o', ho', hs⟩ := ih h
      exact ⟨o', List.mem_cons_of_mem _ ho', hs⟩

/-- Only characters make a text. -/
theorem OrderedField.type_of_kind_step {o : OrderedField} {offset n : Nat}
    (h : (o.step offset).kind = .text n) : (o.step offset).type = .integer .char := by
  simp only [step, StepKind.ofField] at h ⊢
  split at h
  · cases h
  · split at h
    · assumption
    · cases h

theorem stepsLength_append (xs ys : List Step) :
    stepsLength (xs ++ ys) = stepsLength xs + stepsLength ys := by
  induction xs with
  | nil => simp [stepsLength]
  | cons s rest ih => simp [stepsLength, ih, Nat.add_assoc]

namespace LayoutPlan

theorem ofMessage_eq_ok {m : Message} {sorted : Bool} {plan : LayoutPlan}
    (h : ofMessage m sorted = .ok plan) :
    ∃ order, wireOrder m.name m.fields m.extensionsStart sorted = .ok order ∧
      plan.id = m.id ∧ plan.name = m.name ∧
      plan.baseSteps = placeSteps 0 order.base ∧
      plan.extensionSteps = placeSteps plan.baseLength order.extension ∧
      plan.baseLength = stepsLength plan.baseSteps ∧
      plan.fullLength = stepsLength plan.steps ∧
      plan.baseLength = m.baseLength ∧ plan.fullLength = m.fullLength := by
  obtain ⟨order, horder, h⟩ := bind_eq_ok_iff.1 h
  dsimp only at h
  split at h
  · simp [throw, throwThe, MonadExceptOf.throw, bind, Except.bind] at h
  rename_i hbase
  split at h
  · simp [throw, throwThe, MonadExceptOf.throw, bind, Except.bind] at h
  rename_i hfull
  cases h
  refine ⟨order, horder, rfl, rfl, rfl, rfl, rfl, (stepsLength_append _ _).symm, ?_, ?_⟩
  · exact not_not.1 hbase
  · exact not_not.1 hfull

/-- What every plan of a declared message has. -/
structure Sound (plan : LayoutPlan) : Prop where
  /-- No field has two steps. -/
  nodup : (plan.steps.map (·.field)).Nodup
  /-- The payload lengths are those of the steps. -/
  length (version : FrameVersion) : plan.payloadLength version = stepsLength (plan.stepsFor version)
  /-- The payload fits a frame. -/
  fits : plan.fullLength ≤ maxPayloadLength
  /-- Texts are made of characters. -/
  type_of_text {s : Step} {n : Nat} (hs : s ∈ plan.steps) (hn : s.kind = .text n) :
    s.type = .integer .char

theorem Sound.of_declare {id : Nat} {name : String} {fields : List Field}
    {extensionsStart : Option Nat} {flags : DialectFlags} {m : Message} {sorted : Bool}
    {plan : LayoutPlan} (hm : Message.declare id name fields extensionsStart flags = .ok m)
    (hp : ofMessage m sorted = .ok plan) : plan.Sound := by
  obtain ⟨-, hnodup, -, sealing, -, hfits, rfl⟩ := Message.declare_eq_ok_iff.1 hm
  obtain ⟨order, horder, -, -, hb, he, hblen, hflen, -, hfull⟩ := ofMessage_eq_ok hp
  refine ⟨?_, fun version => ?_, hfull ▸ hfits, fun {s n} hs hn => ?_⟩
  · have hnames : plan.steps.map (·.field) = (order.all.map (·.field)).map (·.name) := by
      rw [steps, hb, he, List.map_append, fields_placeSteps, fields_placeSteps, WireOrder.all]
      simp [Function.comp_def]
    rw [hnames]
    exact ((wireOrder_perm horder).map _).nodup_iff.2 hnodup
  · cases version with
    | legacy => exact hblen
    | extended => exact hflen
  · rw [steps, hb, he] at hs
    rcases List.mem_append.1 hs with hs | hs
    all_goals
      obtain ⟨o, -, start, rfl⟩ := exists_of_mem_placeSteps hs
      exact OrderedField.type_of_kind_step hn

theorem Sound.of_declared {m : Message} {sorted : Bool} {plan : LayoutPlan} (hm : m.Declared)
    (hp : ofMessage m sorted = .ok plan) : plan.Sound := by
  obtain ⟨flags, hm⟩ := hm
  exact Sound.of_declare hm hp

theorem Sound.payloadLength_le {plan : LayoutPlan} (h : plan.Sound) (version : FrameVersion) :
    plan.payloadLength version ≤ maxPayloadLength := by
  refine Nat.le_trans ?_ h.fits
  have hfull : plan.fullLength = stepsLength plan.steps := h.length .extended
  rw [h.length version, hfull]
  cases version with
  | legacy => simp [stepsFor, steps, stepsLength_append]
  | extended => exact Nat.le_refl _

theorem stepsFor_subset (plan : LayoutPlan) (version : FrameVersion) :
    plan.stepsFor version ⊆ plan.steps := by
  cases version with
  | legacy => exact List.subset_append_left _ _
  | extended => exact List.Subset.refl _

theorem Sound.nodup_stepsFor {plan : LayoutPlan} (h : plan.Sound) (version : FrameVersion) :
    ((plan.stepsFor version).map (·.field)).Nodup := by
  cases version with
  | legacy => exact h.nodup.sublist (List.sublist_append_left _ _ |>.map _)
  | extended => exact h.nodup

end LayoutPlan

end Telemetry
