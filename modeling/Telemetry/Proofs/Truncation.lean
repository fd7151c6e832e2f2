import Telemetry.Proofs.Locality

/-!
# Payloads that are cut short or too long

Bytes behind the end of the plan are never looked at. Before that, the payload of an extended frame
may end anywhere, also inside of a number or a text, and is read on as if it were followed by zeros;
the payload of a legacy frame has to be complete.

* `Codec.decode_congr`: only the bytes of the plan matter, and those that are missing are zero.
* `Codec.decode_legacy_short`: the fault of a legacy payload that is cut short.
* `decode_fitted`: what decoding makes of any bytes.
-/

namespace Telemetry

/-! ## Bytes at their places -/

/-- Zeros behind the last byte are as good as nothing. -/
theorem getD_append_zeros (bytes : List UInt8) (zeros i : Nat) :
    (bytes ++ List.replicate zeros 0)[i]?.getD 0 = bytes[i]?.getD 0 := by
  by_cases hi : i < bytes.length
  · rw [List.getElem?_append_left hi]
  · rw [List.getElem?_append_right (Nat.le_of_not_lt hi), List.getElem?_replicate,
      List.getElem?_eq_none (Nat.le_of_not_lt hi)]
    split <;> rfl

namespace Codec

variable {plan : LayoutPlan} {order : ByteOrder} {bytes bytes' : List UInt8}
variable {version : FrameVersion}

/-! ## What decoding depends on -/

/-- Payloads that are long enough and have the same bytes, as far as the plan goes, are decoded to
the same values. -/
theorem decode_congr (hplan : plan.Sound)
    (htiles : Tiles 0 (plan.payloadLength version) (plan.stepsFor version))
    (hlong : version = .extended ∨ plan.baseLength ≤ bytes.length)
    (hlong' : version = .extended ∨ plan.baseLength ≤ bytes'.length)
    (h : ∀ i < plan.payloadLength version, bytes'[i]?.getD 0 = bytes[i]?.getD 0) :
    decode order plan bytes' version = decode order plan bytes version := by
  have hwindows : ∀ s ∈ plan.stepsFor version, s.window bytes' = s.window bytes := by
    intro s hs
    refine Step.window_congr fun i hi => h i ?_
    exact Nat.lt_of_lt_of_le hi.2 (htiles.mem_bounds hs).2
  rw [(decode_eq_ok_iff hplan htiles).2 ⟨hlong, rfl⟩,
    (decode_eq_ok_iff hplan htiles).2 ⟨hlong', rfl⟩]
  refine congrArg Except.ok (List.map_congr_left fun s hs => ?_)
  rw [hwindows s hs]

theorem decode_legacy_short (hplan : plan.Sound) (order : ByteOrder)
    (h : bytes.length < plan.baseLength) :
    ∃ needed, decode order plan bytes .legacy = .error (.truncated needed bytes.length) ∧
      bytes.length < needed ∧ needed ≤ plan.baseLength := by
  have hlen : plan.baseLength = stepsLength (plan.stepsFor .legacy) := hplan.length .legacy
  have hgives : ¬ (Payload.received bytes order .legacy).Gives
      (stepsLength (plan.stepsFor .legacy)) := by
    rw [gives_received, ← hlen]
    rintro (hle | hversion)
    · omega
    · cases hversion
  obtain ⟨needed, hfault, hlt, hle⟩ :=
    decodeSteps_lacks (textsOfChars_stepsFor hplan .legacy) (Nat.zero_le _) hgives
  rw [← hlen, Payload.received, Nat.zero_add] at hle
  exact ⟨needed, hfault, hlt, hle⟩

end Codec

/-- **Any bytes are an extended payload, and enough bytes a legacy one.** The payload of an extended
frame is always decoded, as if it were cut or filled up with zeros to the length of the plan: zeros
at its end may be left out or added, and whatever follows the plan's length may be there or not. The
payload of a legacy frame is decoded if it has the bytes of the plan, which are all that matters;
else the fault tells how many bytes there are, and a number of bytes that would have been needed. -/
theorem decode_fitted {id : Nat} {name : String} {fields : List Field} {start : Option Nat}
    {flags : DialectFlags} {m : Message} {sorted : Bool} {plan : LayoutPlan}
    (hm : Message.declare id name fields start flags = .ok m)
    (hp : LayoutPlan.ofMessage m sorted = .ok plan) (order : ByteOrder) (bytes : List UInt8) :
    (∃ decoded, Codec.decode order plan bytes .extended = .ok decoded ∧
      Codec.decode order plan (fitted plan.fullLength bytes) .extended = .ok decoded) ∧
    (∀ zeros, Codec.decode order plan (bytes ++ List.replicate zeros 0) .extended =
      Codec.decode order plan bytes .extended) ∧
    (plan.fullLength ≤ bytes.length → ∀ more,
      Codec.decode order plan (bytes ++ more) .extended =
        Codec.decode order plan bytes .extended) ∧
    ((∃ decoded, Codec.decode order plan bytes .legacy = .ok decoded) ↔
      plan.baseLength ≤ bytes.length) ∧
    (plan.baseLength ≤ bytes.length → Codec.decode order plan bytes .legacy =
      Codec.decode order plan (bytes.take plan.baseLength) .legacy) ∧
    (bytes.length < plan.baseLength → ∃ needed,
      Codec.decode order plan bytes .legacy = .error (.truncated needed bytes.length) ∧
        bytes.length < needed ∧ needed ≤ plan.baseLength) := by
  have hplan := LayoutPlan.Sound.of_declare hm hp
  have htiles := LayoutPlan.tiles_stepsFor hp
  have hextended {bytes'} (h : ∀ i < plan.fullLength, bytes'[i]?.getD 0 = bytes[i]?.getD 0) :
      Codec.decode order plan bytes' .extended = Codec.decode order plan bytes .extended :=
    Codec.decode_congr hplan (htiles .extended) (.inl rfl) (.inl rfl) h
  refine ⟨?_, fun zeros => hextended fun i _ => getD_append_zeros bytes zeros i,
    fun hlen more => hextended fun i hi => ?_, ?_, fun hlen => ?_,
    Codec.decode_legacy_short hplan order⟩
  · obtain ⟨decoded, hdecoded⟩ := (Codec.exists_decode_iff hplan order bytes .extended).2 (.inl rfl)
    exact ⟨decoded, hdecoded, (hextended fun i hi => getD_fitted bytes hi).trans hdecoded⟩
  · rw [List.getElem?_append_left (Nat.lt_of_lt_of_le hi hlen)]
  · rw [Codec.exists_decode_iff hplan]
    exact ⟨fun h => h.resolve_left (by decide), .inr⟩
  · have htake : plan.baseLength ≤ (bytes.take plan.baseLength).length := by
      rw [List.length_take]
      omega
    refine Codec.decode_congr hplan (htiles .legacy) (.inr htake) (.inr hlen) fun i hi => ?_
    have hi' : i < plan.baseLength := hi
    rw [List.getElem?_take_of_lt hi']

/-- A reading that ends in the middle of a number, and its values. -/
theorem decode_fitted_reading :
    let decoded : FieldValues := [("time", .integer .u32 7 (by decide)),
      ("axes", .list [.integer .i16 (-256) (by decide), .integer .i16 0 (by decide),
        .integer .i16 0 (by decide)]),
      ("label", .text ""), ("gain", .float ⟨0⟩)]
    Message.declare 300 "READING" Message.reading.fields (some 3) {} = .ok Message.reading ∧
    LayoutPlan.ofMessage Message.reading true = .ok LayoutPlan.reading ∧
    Codec.decode .big LayoutPlan.reading [0, 0, 0, 7, 255] .extended = .ok decoded ∧
    Codec.decode .big LayoutPlan.reading [0, 0, 0, 7, 255, 0, 0, 0, 0, 0, 0, 0, 0, 0, 0, 0, 0]
      .extended = .ok decoded ∧
    Codec.decode .big LayoutPlan.reading [0, 0, 0, 7, 255] .legacy = .error (.truncated 6 5) ∧
    ∀ zeros, Codec.decode .big LayoutPlan.reading ([0, 0, 0, 7, 255] ++ List.replicate zeros 0)
      .extended = .ok decoded := by
  intro decoded
  have hm : Message.declare 300 "READING" Message.reading.fields (some 3) {} =
      .ok Message.reading := by decide +kernel
  have hp : LayoutPlan.ofMessage Message.reading true = .ok LayoutPlan.reading := rfl
  have hfault : Codec.decode .big LayoutPlan.reading [0, 0, 0, 7, 255] .legacy =
      .error (.truncated 6 5) := rfl
  obtain ⟨hextended, hzeros, -, -, -, -⟩ := decode_fitted hm hp .big [0, 0, 0, 7, 255]
  obtain ⟨values, hvalues, hfilled⟩ := hextended
  cases decode_cut_reading.symm.trans hvalues
  exact ⟨hm, hp, hvalues, hfilled, hfault, fun zeros => (hzeros zeros).trans hvalues⟩

end Telemetry
