import Telemetry.Proofs.Decoding
import Telemetry.Proofs.Planning

/-!
# Messages that gain extension fields

A message may get further extension fields behind those that it has. Receivers of the older and of
the newer version then understand each other's frames: nothing changes for legacy frames, the older
version does not see the new fields, and the newer one finds them zero or empty when they were not
sent.

* `wireOrder_append`: fields that are added behind the others go behind them on the wire.
* `LayoutPlan.ofMessage_append`: so the newer plan is the older one with steps added to it.
* `codec_extended`: what this means for payloads.
-/

namespace Telemetry

/-- The value of a step that nothing is known of: zero, a row of zeros, or the empty text. -/
def Step.blank (s : Step) : Value :=
  match s.kind with
  | .scalar => s.type.zero
  | .text _ => .text ""
  | .array n => .list (List.replicate n s.type.zero)

theorem Step.normal_none (s : Step) : s.normal none = s.blank := by
  cases hk : s.kind <;> simp [normal, blank, hk]

/-! ## Wire order and plans -/

theorem resolveFields_append {message : String} {xs ys : List (Field × Nat)}
    {os : List OrderedField} (h : resolveFields message (xs ++ ys) = .ok os) :
    ∃ os₁ os₂, resolveFields message xs = .ok os₁ ∧ resolveFields message ys = .ok os₂ ∧
      os = os₁ ++ os₂ := by
  rw [resolveFields, List.mapM_append] at h
  obtain ⟨os₁, h₁, h⟩ := bind_eq_ok_iff.1 h
  obtain ⟨os₂, h₂, h⟩ := bind_eq_ok_iff.1 h
  cases h
  exact ⟨os₁, os₂, h₁, h₂, rfl⟩

/-- Fields that are added to the extensions go behind all others on the wire, unless they are sorted
together with extensions that were there before. -/
theorem wireOrder_append {message : String} {fields added : List Field} {start start' : Option Nat}
    {sorted : Bool} {order order' : WireOrder}
    (h : wireOrder message fields start sorted = .ok order)
    (h' : wireOrder message (fields ++ added) start' sorted = .ok order')
    (hsplit : splitIndex start' (fields ++ added).length = splitIndex start fields.length)
    (hsort : fields.drop (splitIndex start fields.length) = [] ∨ sorted = false) :
    ∃ new, order' = ⟨order.base, order.extension ++ new⟩ ∧ (new.map (·.field)).Perm added := by
  obtain ⟨base, extension, hbase, hext, rfl⟩ := wireOrder_eq_ok_iff.1 h
  obtain ⟨base', extension', hbase', hext', rfl⟩ := wireOrder_eq_ok_iff.1 h'
  have hle : splitIndex start fields.length ≤ fields.zipIdx.length := by
    rw [List.length_zipIdx]
    exact Nat.min_le_right _ _
  rw [hsplit, List.zipIdx_append, List.take_append_of_le_length hle, hbase] at hbase'
  cases hbase'
  rw [hsplit, List.zipIdx_append, List.drop_append_of_le_length hle] at hext'
  obtain ⟨_, fresh, hold, hfresh, rfl⟩ := resolveFields_append hext'
  rw [hext] at hold
  cases hold
  have hadded : fresh.map (·.field) = added := by
    rw [fields_of_resolveFields hfresh, List.zipIdx_map_fst]
  refine ⟨arrange sorted fresh, ?_, ((arrange_perm sorted fresh).map _).trans (.of_eq hadded)⟩
  rcases hsort with hnone | rfl
  · have hnil : extension = [] := by
      have hfields := fields_of_resolveFields hext
      rw [List.map_drop, List.zipIdx_map_fst, hnone] at hfields
      exact List.map_eq_nil_iff.1 hfields
    rw [hnil, arrange_nil, List.nil_append, List.nil_append]
  · rfl

namespace LayoutPlan

/-- The plan of a message with further extension fields is that of the message without them, and
steps for them behind it. -/
theorem ofMessage_append {m m' : Message} {added : List Field} {sorted : Bool}
    {plan plan' : LayoutPlan} (hp : ofMessage m sorted = .ok plan)
    (hp' : ofMessage m' sorted = .ok plan') (hname : m'.name = m.name)
    (hfields : m'.fields = m.fields ++ added)
    (hsplit : splitIndex m'.extensionsStart (m.fields ++ added).length =
      splitIndex m.extensionsStart m.fields.length)
    (hsort : m.extensionFields = [] ∨ sorted = false) :
    plan'.baseSteps = plan.baseSteps ∧ ∃ new, plan'.steps = plan.steps ++ new ∧
      (new.map (·.field)).Perm (added.map (·.name)) := by
  obtain ⟨order, horder, -, -, hb, he, hblen, -⟩ := ofMessage_eq_ok hp
  obtain ⟨order', horder', -, -, hb', he', hblen', -⟩ := ofMessage_eq_ok hp'
  rw [hname, hfields] at horder'
  obtain ⟨new, rfl, hadded⟩ := wireOrder_append horder horder' hsplit hsort
  have hbase : plan'.baseSteps = plan.baseSteps := hb'.trans hb.symm
  have hlen : plan'.baseLength = plan.baseLength := by rw [hblen', hblen, hbase]
  refine ⟨hbase, placeSteps (plan.baseLength + stepsLength plan.extensionSteps) new, ?_, ?_⟩
  · rw [steps, steps, hbase, he', he, hlen, placeSteps_append, List.append_assoc]
  · rw [fields_placeSteps]
    simpa [Function.comp_def] using hadded.map (·.name)

end LayoutPlan

theorem Message.splitIndex_eq_of_baseFields {m m' : Message} {added : List Field}
    (hfields : m'.fields = m.fields ++ added) (hbase : m'.baseFields = m.baseFields) :
    splitIndex m'.extensionsStart (m.fields ++ added).length =
      splitIndex m.extensionsStart m.fields.length := by
  have hlen := congrArg List.length hbase
  rw [baseFields, baseFields, hfields, List.length_take, List.length_take] at hlen
  simp only [splitIndex] at hlen ⊢
  omega

/-! ## Payloads -/

/-- The fields of a plan are those of its message. -/
theorem LayoutPlan.mem_fields_iff {m : Message} {sorted : Bool} {plan : LayoutPlan}
    (hp : ofMessage m sorted = .ok plan) (field : String) :
    field ∈ plan.steps.map (·.field) ↔ field ∈ m.fields.map (·.name) := by
  obtain ⟨order, horder, -, -, hb, he, -⟩ := ofMessage_eq_ok hp
  have hperm := (wireOrder_perm horder).map (·.name)
  rw [← hperm.mem_iff, steps, hb, he, List.map_append, fields_placeSteps, fields_placeSteps,
    WireOrder.all]
  simp

section Payloads

variable {plan plan' : LayoutPlan} {new : List Step} {order : ByteOrder} {bytes : List UInt8}

/-- What was encoded by a plan is decoded by one with steps added to it as before, and the added
steps find nothing. -/
theorem Codec.decode_of_encode_append (hplan : plan.Sound) (hplan' : plan'.Sound)
    (hsteps : plan'.steps = plan.steps ++ new) {values : FieldValues}
    (h : encode order plan values .extended = .ok bytes) :
    ∃ decoded, decode order plan bytes .extended = .ok decoded ∧
      decode order plan' bytes .extended =
        .ok (decoded ++ new.map fun s => (s.field, s.blank)) := by
  have hold : TextsOfChars plan.steps := textsOfChars_stepsFor hplan .extended
  have hnew : TextsOfChars new := by
    have hboth : TextsOfChars (plan.steps ++ new) :=
      hsteps ▸ textsOfChars_stepsFor hplan' .extended
    exact fun s hs => hboth s (List.mem_append_right _ hs)
  -- The older steps take all of the payload, so that the added ones stand behind its end.
  have hlen : bytes.length = stepsLength plan.steps :=
    (length_of_encode hplan h).trans (hplan.length .extended)
  have hpast := decodeSteps_past hnew
    (p := (Payload.received bytes order .extended).advance (stepsLength plan.steps)) rfl
    (by simp [Payload.advance, Payload.received, hlen])
  have hdecoded := decode_of_encode h
  refine ⟨_, hdecoded, ?_⟩
  have hread : decodeSteps plan.steps (Payload.received bytes order .extended) = _ := hdecoded
  show decodeSteps plan'.steps _ = _
  rw [hsteps, decodeSteps_append hold (.inr rfl), hread, hpast]
  simp only [Step.normal_none]
  rfl

/-- What was encoded by a plan with steps added to it is decoded by the plan without them as far as
that goes. -/
theorem Codec.decode_prefix_of_encode (hsteps : plan'.steps = plan.steps ++ new)
    {values : FieldValues} (h : encode order plan' values .extended = .ok bytes) :
    decode order plan bytes .extended = .ok (plan.steps.map fun s =>
      (s.field, s.normal (values.get? s.field))) := by
  obtain ⟨parts, hparts, rfl⟩ := encode_eq_ok_iff.1 h
  have hfirst := List.forall₂_take plan.steps.length hparts
  rw [LayoutPlan.stepsFor, hsteps, List.take_left] at hfirst
  have hahead : (Payload.received parts.flatten order .extended).Ahead
      ((parts.take plan.steps.length).flatten ++ (parts.drop plan.steps.length).flatten) := by
    rw [← List.flatten_append, List.take_append_drop]
    exact Payload.ahead_received _ order .extended
  exact decodeSteps_encodeSteps hfirst rfl hahead

end Payloads

/-- **Messages can gain extension fields.** A message and the same message with fields added to its
extensions have one fingerprint and one legacy layout, so that their legacy payloads are the same.
An extended payload of the older message is decoded by the newer one to the same values and to
nothing, zero or empty, for each added field. An extended payload of the newer message is decoded by
the older one to the values of its own fields. -/
theorem codec_extended {id : Nat} {name : String} {fields added : List Field}
    {start start' : Option Nat} {flags : DialectFlags} {m m' : Message}
    (hm : Message.declare id name fields start flags = .ok m)
    (hm' : Message.declare id name (fields ++ added) start' flags = .ok m')
    (hbase : m'.baseFields = m.baseFields)
    (hsort : m.extensionFields = [] ∨ flags.sortFields = false) (order : ByteOrder) :
    m'.fingerprint = m.fingerprint ∧ m'.baseLength = m.baseLength ∧
    ∃ plan plan' new, LayoutPlan.ofMessage m flags.sortFields = .ok plan ∧
      LayoutPlan.ofMessage m' flags.sortFields = .ok plan' ∧
      plan'.baseSteps = plan.baseSteps ∧
      plan'.steps = plan.steps ++ new ∧ (new.map (·.field)).Perm (added.map (·.name)) ∧
      (∀ values, Codec.encode order plan' values .legacy =
        Codec.encode order plan values .legacy) ∧
      (∀ values bytes, Codec.encode order plan values .extended = .ok bytes →
        ∃ decoded, Codec.decode order plan bytes .extended = .ok decoded ∧
          Codec.decode order plan' bytes .extended =
            .ok (decoded ++ new.map fun s => (s.field, s.blank))) ∧
      (∀ values bytes, Codec.encode order plan' values .extended = .ok bytes →
        ∃ decoded, Codec.decode order plan' bytes .extended = .ok decoded ∧
          Codec.decode order plan bytes .extended =
            .ok (decoded.filter fun entry => entry.1 ∈ m.fields.map (·.name))) := by
  obtain ⟨plan, hp⟩ := LayoutPlan.exists_ofMessage hm flags.sortFields
  obtain ⟨plan', hp'⟩ := LayoutPlan.exists_ofMessage hm' flags.sortFields
  have hplan := LayoutPlan.Sound.of_declare hm hp
  have hplan' := LayoutPlan.Sound.of_declare hm' hp'
  have hnames := LayoutPlan.mem_fields_iff hp
  obtain ⟨-, -, -, sealing, hsealing, -, rfl⟩ := Message.declare_eq_ok_iff.1 hm
  obtain ⟨-, -, -, sealing', hsealing', -, rfl⟩ := Message.declare_eq_ok_iff.1 hm'
  have hsplit := Message.splitIndex_eq_of_baseFields rfl hbase
  obtain ⟨_, rfl, -⟩ := wireOrder_append hsealing hsealing' hsplit hsort
  obtain ⟨hbaseSteps, new, hsteps, hadded⟩ :=
    LayoutPlan.ofMessage_append hp hp' rfl rfl hsplit hsort
  refine ⟨rfl, rfl, plan, plan', new, hp, hp', hbaseSteps, hsteps, hadded, fun values => ?_,
    fun values bytes h => Codec.decode_of_encode_append hplan hplan' hsteps h,
    fun values bytes h => ⟨_, Codec.decode_of_encode h, ?_⟩⟩
  · simp only [Codec.encode, LayoutPlan.stepsFor, hbaseSteps]
  · have hnodup := hplan'.nodup
    rw [hsteps, List.map_append, List.nodup_append] at hnodup
    have hold : ∀ s ∈ plan.steps, s.field ∈ fields.map (·.name) := fun s hs =>
      (hnames _).1 (List.mem_map_of_mem hs)
    have hnew : ∀ s ∈ new, s.field ∉ fields.map (·.name) := fun s hs hmem =>
      hnodup.2.2 _ ((hnames _).2 hmem) _ (List.mem_map_of_mem hs) rfl
    rw [Codec.decode_prefix_of_encode hsteps h, LayoutPlan.stepsFor, hsteps, List.map_append,
      List.filter_append, List.filter_eq_self.2, List.filter_eq_nil_iff.2, List.append_nil]
    · simpa [Message.sealed] using hnew
    · simpa [Message.sealed] using hold

/-- The fields of a newer version of `Message.status`. -/
def Message.statusAdded : List Field := [⟨"label", "char", 4, none⟩, ⟨"peak", "uint16_t", 2, none⟩]

/-- The newer version. -/
def Message.statusExtended : Message where
  id := 7
  name := "STATUS"
  fields := Message.status.fields ++ Message.statusAdded
  extensionsStart := some 2
  fingerprint := 99
  baseLength := 5
  fullLength := 13

/-- A payload of either version, decoded by the other one. The wider of the added fields comes first
on the wire. -/
theorem codec_extended_status :
    Message.declare 7 "STATUS" Message.status.fields none {} = .ok Message.status ∧
    Message.declare 7 "STATUS" (Message.status.fields ++ Message.statusAdded) (some 2) {} =
      .ok Message.statusExtended ∧
    ∃ plan plan', LayoutPlan.ofMessage Message.status true = .ok plan ∧
      LayoutPlan.ofMessage Message.statusExtended true = .ok plan' ∧
      Codec.decode .little plan' [1, 0, 0, 0, 9] .extended = .ok
        [("uptime", .integer .u32 1 (by decide)), ("mode", .integer .u8 9 (by decide)),
          ("peak", .list [.integer .u16 0 (by decide), .integer .u16 0 (by decide)]),
          ("label", .text "")] ∧
      Codec.decode .little plan [1, 0, 0, 0, 9, 2, 0, 3, 0, 111, 107, 0, 0] .extended = .ok
        [("uptime", .integer .u32 1 (by decide)), ("mode", .integer .u8 9 (by decide))] := by
  have hm : Message.declare 7 "STATUS" Message.status.fields none {} = .ok Message.status := by
    decide +kernel
  have hm' : Message.declare 7 "STATUS" (Message.status.fields ++ Message.statusAdded) (some 2) {} =
      .ok Message.statusExtended := by decide +kernel
  obtain ⟨-, -, plan, plan', new, hp, hp', -, hsteps, -, -, hnewer, holder⟩ :=
    codec_extended hm hm' rfl (.inl rfl) .little
  cases (rfl : LayoutPlan.ofMessage Message.status true = _).symm.trans hp
  cases (rfl : LayoutPlan.ofMessage Message.statusExtended true = _).symm.trans hp'
  cases hsteps
  refine ⟨hm, hm', _, _, hp, hp', ?_, ?_⟩
  · obtain ⟨decoded, hd, hd'⟩ := hnewer [("uptime", .integer .u8 1 (by decide)),
      ("mode", .integer .u8 9 (by decide))] [1, 0, 0, 0, 9] rfl
    cases hd
    exact hd'
  · obtain ⟨decoded, hd, hd'⟩ := holder [("uptime", .integer .u8 1 (by decide)),
      ("mode", .integer .u8 9 (by decide)), ("label", .text "ok"),
      ("peak", .list [.integer .u16 2 (by decide), .integer .u16 3 (by decide)])]
      [1, 0, 0, 0, 9, 2, 0, 3, 0, 111, 107, 0, 0] rfl
    cases hd
    exact hd'

end Telemetry
