import Telemetry.Proofs.Planning
import Telemetry.Proofs.RoundTrip

/-!
# Every byte of a payload belongs to one field

A plan has a step for each declared field. The steps follow each other without a gap, those of the
base first, so that each byte of the payload is in exactly one of them.

* `Tiles`: steps that follow each other from one byte up to another.
* `Tiles.existsUnique_covers`: each byte between is in exactly one of them.
* `Step.Describes`: a step that has the name, the type and the form of a field.
* `ofMessage_tiles`: the plan of a declared message.
-/

namespace Telemetry

/-! ## Tilings -/

/-- Steps that follow each other without a gap from one byte up to another. -/
def Tiles (start stop : Nat) : List Step → Prop
  | [] => start = stop
  | s :: rest => s.offset = start ∧ Tiles (s.offset + s.width) stop rest

/-- Whether a byte of the payload is one of a step's. -/
def Step.Covers (s : Step) (byte : Nat) : Prop := s.offset ≤ byte ∧ byte < s.offset + s.width

namespace Tiles

variable {start middle stop : Nat} {xs ys steps : List Step}

theorem append (hx : Tiles start middle xs) (hy : Tiles middle stop ys) :
    Tiles start stop (xs ++ ys) := by
  induction xs generalizing start with
  | nil =>
    cases hx
    exact hy
  | cons s xs ih => exact ⟨hx.1, ih hx.2⟩

theorem start_le_stop (h : Tiles start stop steps) : start ≤ stop := by
  induction steps generalizing start with
  | nil => exact Nat.le_of_eq h
  | cons s rest ih =>
    have hrest := ih h.2
    have hs := h.1
    omega

/-- Each step lies between the two ends. -/
theorem mem_bounds (h : Tiles start stop steps) {s : Step} (hs : s ∈ steps) :
    start ≤ s.offset ∧ s.offset + s.width ≤ stop := by
  induction steps generalizing start with
  | nil => cases hs
  | cons first rest ih =>
    obtain ⟨hfirst, hrest⟩ := h
    have hle := hrest.start_le_stop
    rcases List.mem_cons.1 hs with rfl | hs
    · omega
    · have := ih hrest hs
      omega

/-- Between the two ends, each byte is in exactly one step. -/
theorem existsUnique_covers (h : Tiles start stop steps) {byte : Nat} (hstart : start ≤ byte)
    (hstop : byte < stop) : ∃! s, s ∈ steps ∧ s.Covers byte := by
  induction steps generalizing start with
  | nil =>
    have hempty : start = stop := h
    omega
  | cons first rest ih =>
    obtain ⟨hfirst, hrest⟩ := h
    by_cases hbyte : byte < first.offset + first.width
    · -- The later steps begin behind the byte.
      refine ⟨first, ⟨List.mem_cons_self, by omega, hbyte⟩, fun s ⟨hs, hcovers⟩ => ?_⟩
      rcases List.mem_cons.1 hs with rfl | hs
      · rfl
      · have hbounds := hrest.mem_bounds hs
        have hoffset := hcovers.1
        omega
    · obtain ⟨s, ⟨hs, hcovers⟩, hunique⟩ := ih hrest (by omega)
      refine ⟨s, ⟨List.mem_cons_of_mem _ hs, hcovers⟩, fun s' ⟨hs', hcovers'⟩ => ?_⟩
      rcases List.mem_cons.1 hs' with rfl | hs'
      · exact absurd hcovers'.2 hbyte
      · exact hunique s' ⟨hs', hcovers'⟩

end Tiles

theorem tiles_placeSteps (offset : Nat) (os : List OrderedField) :
    Tiles offset (offset + stepsLength (placeSteps offset os)) (placeSteps offset os) := by
  induction os generalizing offset with
  | nil => exact Nat.add_zero offset
  | cons o os ih =>
    refine ⟨rfl, ?_⟩
    have hoffset : (o.step offset).offset = offset := rfl
    rw [placeSteps, stepsLength, ← Nat.add_assoc, hoffset]
    exact ih (offset + (o.step offset).width)

/-- The steps of a plan follow each other, the extensions behind the base. -/
theorem LayoutPlan.tiles_steps {m : Message} {sorted : Bool} {plan : LayoutPlan}
    (hp : ofMessage m sorted = .ok plan) :
    Tiles 0 plan.baseLength plan.baseSteps ∧ Tiles 0 plan.fullLength plan.steps := by
  obtain ⟨order, -, -, -, hb, he, hblen, hflen, -⟩ := ofMessage_eq_ok hp
  have hbase : Tiles 0 plan.baseLength plan.baseSteps := by
    have h := tiles_placeSteps 0 order.base
    rwa [← hb, ← hblen, Nat.zero_add] at h
  have hext : Tiles plan.baseLength plan.fullLength plan.extensionSteps := by
    have h := tiles_placeSteps plan.baseLength order.extension
    have hlen : plan.baseLength + stepsLength plan.extensionSteps = plan.fullLength := by
      rw [hflen, steps, stepsLength_append, hblen]
    rwa [← he, hlen] at h
  exact ⟨hbase, hbase.append hext⟩

/-! ## Steps and fields -/

/-- What a step has of its field: the name, the type, and the form that the type and the array length
give. -/
structure Step.Describes (s : Step) (f : Field) : Prop where
  name : s.field = f.name
  type : ScalarType.ofTag? f.tag = some s.type
  scalar : f.arrayLength = 0 → s.kind = .scalar
  text : 0 < f.arrayLength → s.type = .integer .char → s.kind = .text f.arrayLength
  array : 0 < f.arrayLength → s.type ≠ .integer .char → s.kind = .array f.arrayLength

theorem OrderedField.step_describes {o : OrderedField} (offset : Nat)
    (htype : ScalarType.ofTag? o.field.tag = some o.type) : (o.step offset).Describes o.field where
  name := rfl
  type := htype
  scalar h := if_pos h
  text h hchar := by
    simp only [step] at hchar ⊢
    rw [StepKind.ofField, if_neg (by omega), if_pos hchar]
  array h hchar := by
    simp only [step] at hchar ⊢
    rw [StepKind.ofField, if_neg (by omega), if_neg hchar]

/-- Every step takes at least one byte. -/
theorem Step.Describes.width_pos {s : Step} {f : Field} (h : s.Describes f) : 0 < s.width := by
  have hcount : 0 < s.count := by
    unfold Step.count
    by_cases hlen : f.arrayLength = 0
    · rw [h.scalar hlen]
      decide
    · by_cases hchar : s.type = .integer .char
      · rw [h.text (by omega) hchar]
        exact Nat.pos_of_ne_zero hlen
      · rw [h.array (by omega) hchar]
        exact Nat.pos_of_ne_zero hlen
  exact Nat.mul_pos s.type.width_pos hcount

theorem ofTag?_of_resolveFields {message : String} {fields : List (Field × Nat)}
    {os : List OrderedField} (h : resolveFields message fields = .ok os) :
    ∀ o ∈ os, ScalarType.ofTag? o.field.tag = some o.type := by
  intro o ho
  obtain ⟨p, -, hp⟩ := exists_of_mapM_right h ho
  obtain ⟨type, htype, hp⟩ := bind_eq_ok_iff.1 hp
  cases hp
  unfold ScalarType.resolve at htype
  split at htype
  · cases htype
    assumption
  · cases htype

/-- The steps of the fields of one part, whatever their order: one for each field, and each
describes its field. -/
theorem placeSteps_describe {message : String} {part : List (Field × Nat)} {os : List OrderedField}
    (h : resolveFields message part = .ok os) (sorted : Bool) (offset : Nat) :
    ((placeSteps offset (arrange sorted os)).map (·.index)).Perm (part.map (·.2)) ∧
      ∀ s ∈ placeSteps offset (arrange sorted os), ∃ f, (f, s.index) ∈ part ∧ s.Describes f := by
  have hperm := arrange_perm sorted os
  have hnumbers := numbers_of_resolveFields h
  constructor
  · have hindex : (placeSteps offset (arrange sorted os)).map (·.index) =
        (arrange sorted os).map (·.index) := by
      have hpairs := congrArg (List.map Prod.snd) (numbers_placeSteps offset (arrange sorted os))
      simpa only [List.map_map, Function.comp_def] using hpairs
    rw [hindex, ← indices_of_resolveFields h]
    exact hperm.map _
  · intro s hs
    obtain ⟨o, ho, start, rfl⟩ := exists_of_mem_placeSteps hs
    have hmem : o ∈ os := hperm.mem_iff.1 ho
    refine ⟨o.field, ?_, OrderedField.step_describes start (ofTag?_of_resolveFields h o hmem)⟩
    rw [← hnumbers]
    exact List.mem_map.2 ⟨o, hmem, rfl⟩

/-- The steps of a plan are those of the declared fields, the base steps those of the fields before
the extensions. -/
theorem LayoutPlan.steps_describe {m : Message} {sorted : Bool} {plan : LayoutPlan}
    (hp : ofMessage m sorted = .ok plan) :
    let split := splitIndex m.extensionsStart m.fields.length
    (plan.baseSteps.map (·.index)).Perm (List.range split) ∧
      (plan.extensionSteps.map (·.index)).Perm (List.range' split (m.fields.length - split)) ∧
      ∀ s ∈ plan.steps, ∃ f, m.fields[s.index]? = some f ∧ s.Describes f := by
  intro split
  obtain ⟨order, horder, -, -, hb, he, -⟩ := ofMessage_eq_ok hp
  obtain ⟨base, extension, hbase, hext, rfl⟩ := wireOrder_eq_ok_iff.1 horder
  have hsplit : split ≤ m.fields.length := Nat.min_le_right _ _
  obtain ⟨hbasePerm, hbaseSteps⟩ := placeSteps_describe hbase sorted 0
  obtain ⟨hextPerm, hextSteps⟩ := placeSteps_describe hext sorted plan.baseLength
  refine ⟨?_, ?_, fun s hs => ?_⟩
  · rw [indices_take_zipIdx hsplit] at hbasePerm
    rw [hb]
    exact hbasePerm
  · rw [indices_drop_zipIdx] at hextPerm
    rw [he]
    exact hextPerm
  · have hmem : ∃ f, (f, s.index) ∈ m.fields.zipIdx ∧ s.Describes f := by
      rw [steps, hb, he] at hs
      rcases List.mem_append.1 hs with hs | hs
      · obtain ⟨f, hf, hdescribes⟩ := hbaseSteps s hs
        exact ⟨f, List.mem_of_mem_take hf, hdescribes⟩
      · obtain ⟨f, hf, hdescribes⟩ := hextSteps s hs
        exact ⟨f, List.mem_of_mem_drop hf, hdescribes⟩
    obtain ⟨f, hf, hdescribes⟩ := hmem
    exact ⟨f, List.mem_zipIdx_iff_getElem?.1 hf, hdescribes⟩

/-- **Every byte of a payload belongs to one field.** A declared message can be planned, with its
fields sorted or not, whichever way it was declared. The plan has the declared lengths, which fit a
frame. Each field has one step, which has its name, type and form, and the base steps are those of
the fields before the extensions. The base steps tile a legacy payload and all steps an extended
one: each byte is in exactly one step, and no step is empty. -/
theorem ofMessage_tiles {id : Nat} {name : String} {fields : List Field} {start : Option Nat}
    {flags : DialectFlags} {m : Message} (hm : Message.declare id name fields start flags = .ok m)
    (sorted : Bool) :
    let split := start.getD fields.length
    ∃ plan, LayoutPlan.ofMessage m sorted = .ok plan ∧
      plan.baseLength = m.baseLength ∧ plan.fullLength = m.fullLength ∧ m.fullLength ≤ 255 ∧
      plan.steps = plan.baseSteps ++ plan.extensionSteps ∧
      (plan.baseSteps.map (·.index)).Perm (List.range split) ∧
      (plan.extensionSteps.map (·.index)).Perm (List.range' split (fields.length - split)) ∧
      (∀ s ∈ plan.steps, 0 < s.width ∧ ∃ f, fields[s.index]? = some f ∧ s.Describes f) ∧
      Tiles 0 plan.baseLength plan.baseSteps ∧ Tiles 0 plan.fullLength plan.steps ∧
      (∀ byte < plan.baseLength, ∃! s, s ∈ plan.baseSteps ∧ s.Covers byte) ∧
      ∀ byte < plan.fullLength, ∃! s, s ∈ plan.steps ∧ s.Covers byte := by
  intro split
  obtain ⟨plan, hp⟩ := LayoutPlan.exists_ofMessage hm sorted
  obtain ⟨-, -, hstart, order, -, hfits, rfl⟩ := Message.declare_eq_ok_iff.1 hm
  obtain ⟨-, -, -, -, -, -, -, -, hbase, hfull⟩ := LayoutPlan.ofMessage_eq_ok hp
  obtain ⟨htilesBase, htiles⟩ := LayoutPlan.tiles_steps hp
  have hsplit : splitIndex start fields.length = split := by
    cases start with
    | none => exact Nat.min_self _
    | some n => exact Nat.min_eq_left (hstart n rfl).2
  have hsteps := LayoutPlan.steps_describe hp
  simp only [Message.sealed, hsplit] at hsteps
  obtain ⟨hbaseSteps, hextSteps, hfields⟩ := hsteps
  refine ⟨plan, hp, hbase, hfull, hfits, rfl, hbaseSteps, hextSteps, fun s hs => ?_, htilesBase,
    htiles, fun byte hbyte => ?_, fun byte hbyte => ?_⟩
  · obtain ⟨f, hf, hdescribes⟩ := hfields s hs
    exact ⟨hdescribes.width_pos, f, hf, hdescribes⟩
  · exact htilesBase.existsUnique_covers (Nat.zero_le _) hbyte
  · exact htiles.existsUnique_covers (Nat.zero_le _) hbyte

/-- A message that was declared with its fields sorted and is planned as declared, the text in front
of the array. -/
theorem ofMessage_tiles_reading :
    Message.declare 300 "READING" Message.reading.fields (some 3) {} = .ok Message.reading ∧
    ∃ plan, LayoutPlan.ofMessage Message.reading false = .ok plan ∧
      plan.baseSteps.map (·.index) = [0, 1, 2] ∧ plan.extensionSteps.map (·.index) = [3] ∧
      Tiles 0 13 plan.baseSteps ∧ Tiles 0 17 plan.steps ∧
      ∃! s, s ∈ plan.baseSteps ∧ s.Covers 5 := by
  have hm : Message.declare 300 "READING" Message.reading.fields (some 3) {} =
      .ok Message.reading := by decide +kernel
  obtain ⟨plan, hp, hbase, hfull, -, -, -, -, -, htilesBase, htiles, hbytes, -⟩ :=
    ofMessage_tiles hm false
  rw [hbase] at htilesBase hbytes
  rw [hfull] at htiles
  have hunique := hbytes 5 (by decide)
  cases hp
  exact ⟨hm, _, rfl, rfl, rfl, htilesBase, htiles, hunique⟩

end Telemetry
