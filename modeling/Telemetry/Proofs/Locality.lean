import Telemetry.Proofs.Decoding
import Telemetry.Proofs.Tiling

/-!
# Fields at their offsets

Payloads are written and read from one end to the other, and nobody looks at the offsets of the
steps. Still each field stands where its step says, and no other byte has to do with it.

* `fitted`: bytes cut or filled up with zeros to a length.
* `Step.slice`, `Step.window`: the bytes at the place of a step, without and with filling up.
* `Step.read`: the value that the bytes of a step stand for, without a payload to read from.
* `Codec.decodeSteps_of_tiles`: reading on is reading each step at its place.
* `Codec.encodeStep_of_encodeSteps`: each step writes its slice.
* `codec_local`: what this means for the payloads of a declared message.
-/

namespace Telemetry

/-! ## Bytes of a given number -/

/-- Bytes cut or filled up with zeros to a length. -/
def fitted (n : Nat) (bytes : List UInt8) : List UInt8 :=
  bytes.take n ++ List.replicate (n - bytes.length) 0

@[simp] theorem length_fitted (n : Nat) (bytes : List UInt8) : (fitted n bytes).length = n := by
  simp only [fitted, List.length_append, List.length_take, List.length_replicate]
  omega

/-- The byte at each place, zero where there was none. -/
theorem getElem?_fitted (n : Nat) (bytes : List UInt8) (i : Nat) :
    (fitted n bytes)[i]? = if i < n then some (bytes[i]?.getD 0) else none := by
  by_cases hn : i < n
  · rw [if_pos hn, fitted]
    by_cases hi : i < bytes.length
    · have hlen : i < (bytes.take n).length := by
        rw [List.length_take]
        omega
      rw [List.getElem?_append_left hlen, List.getElem?_take_of_lt hn, List.getElem?_eq_getElem hi]
      rfl
    · have hlen : (bytes.take n).length ≤ i := by
        rw [List.length_take]
        omega
      rw [List.getElem?_append_right hlen, List.length_take,
        List.getElem?_replicate_of_lt (by omega), List.getElem?_eq_none (by omega)]
      rfl
  · rw [if_neg hn]
    exact List.getElem?_eq_none (by rw [length_fitted]; omega)

theorem getD_fitted {n i : Nat} (bytes : List UInt8) (h : i < n) :
    (fitted n bytes)[i]?.getD 0 = bytes[i]?.getD 0 := by
  rw [getElem?_fitted, if_pos h, Option.getD_some]

theorem fitted_of_length {n : Nat} {bytes : List UInt8} (h : bytes.length = n) :
    fitted n bytes = bytes := by
  simp [fitted, ← h]

theorem fitted_add (m n : Nat) (bytes : List UInt8) :
    fitted (m + n) bytes = fitted m bytes ++ fitted n (bytes.drop m) := by
  apply List.ext_getElem?
  intro i
  by_cases hm : i < m
  · rw [List.getElem?_append_left (by rwa [length_fitted]), getElem?_fitted, getElem?_fitted,
      if_pos hm, if_pos (by omega)]
  · rw [List.getElem?_append_right (by rw [length_fitted]; omega), length_fitted, getElem?_fitted,
      getElem?_fitted, List.getElem?_drop, Nat.add_sub_cancel' (by omega)]
    by_cases hn : i < m + n
    · rw [if_pos hn, if_pos (by omega)]
    · rw [if_neg hn, if_neg (by omega)]

namespace Payload

variable {p : Payload} {n : Nat}

theorem peek_eq_fitted (p : Payload) (n : Nat) :
    p.peek n = fitted n (p.bytes.drop p.position) := by
  simp only [peek, fitted, List.length_take]
  congr 2
  omega

theorem peek_add (p : Payload) (m n : Nat) : p.peek (m + n) = p.peek m ++ (p.advance m).peek n := by
  simp only [peek_eq_fitted, fitted_add, List.drop_drop]
  rfl

@[simp] theorem length_peek (p : Payload) (n : Nat) : (p.peek n).length = n := by
  rw [peek_eq_fitted, length_fitted]

theorem getBytes_of_gives (h : p.Gives n) : p.getBytes n = .ok (p.peek n, p.advance n) :=
  if_pos h

end Payload

/-! ## The place of a step -/

namespace Step

/-- The bytes at the place of a step, as many as there are. -/
def slice (s : Step) (bytes : List UInt8) : List UInt8 := (bytes.drop s.offset).take s.width

/-- The bytes at the place of a step, with zeros for those that are missing. -/
def window (s : Step) (bytes : List UInt8) : List UInt8 := fitted s.width (s.slice bytes)

theorem length_slice {s : Step} {bytes : List UInt8} (h : s.offset + s.width ≤ bytes.length) :
    (s.slice bytes).length = s.width := by
  rw [slice, List.length_take, List.length_drop]
  omega

theorem getElem?_slice (s : Step) (bytes : List UInt8) (i : Nat) :
    (s.slice bytes)[i]? = if i < s.width then bytes[s.offset + i]? else none := by
  rw [slice, List.getElem?_take, List.getElem?_drop]

theorem length_window (s : Step) (bytes : List UInt8) : (s.window bytes).length = s.width :=
  length_fitted _ _

theorem window_of_le {s : Step} {bytes : List UInt8} (h : s.offset + s.width ≤ bytes.length) :
    s.window bytes = s.slice bytes :=
  fitted_of_length (length_slice h)

theorem getElem?_window (s : Step) (bytes : List UInt8) (i : Nat) :
    (s.window bytes)[i]? = if i < s.width then some (bytes[s.offset + i]?.getD 0) else none := by
  rw [window, getElem?_fitted, getElem?_slice]
  by_cases hi : i < s.width
  · rw [if_pos hi, if_pos hi, if_pos hi]
  · rw [if_neg hi, if_neg hi]

/-- The window of a step shows the bytes that it covers. -/
theorem window_congr {s : Step} {bytes bytes' : List UInt8}
    (h : ∀ i, s.Covers i → bytes[i]?.getD 0 = bytes'[i]?.getD 0) :
    s.window bytes = s.window bytes' := by
  apply List.ext_getElem?
  intro i
  rw [getElem?_window, getElem?_window]
  by_cases hi : i < s.width
  · rw [if_pos hi, if_pos hi, h (s.offset + i) ⟨Nat.le_add_right _ _, by omega⟩]
  · rw [if_neg hi, if_neg hi]

theorem slice_fitted {s : Step} {n : Nat} (h : s.offset + s.width ≤ n) (bytes : List UInt8) :
    s.slice (fitted n bytes) = s.window bytes := by
  rw [← window_of_le (by rwa [length_fitted])]
  exact window_congr fun i hi => getD_fitted bytes (Nat.lt_of_lt_of_le hi.2 h)

end Step

/-- At the place of a step, a payload shows its window. -/
theorem Payload.peek_eq_window {p : Payload} {s : Step} (h : s.offset = p.position) :
    p.peek s.width = s.window p.bytes := by
  apply List.ext_getElem?
  intro i
  rw [peek_eq_fitted, getElem?_fitted, s.getElem?_window, List.getElem?_drop, h]

/-! ## Reading a step by itself -/

/-- The values of a type that bytes stand for, one after the other. -/
def ScalarType.readArray (t : ScalarType) (order : ByteOrder) : Nat → List UInt8 → List Value
  | 0, _ => []
  | n + 1, bytes =>
    t.ofWord (order.word (bytes.take t.width)) :: t.readArray order n (bytes.drop t.width)

/-- The value that the bytes of a step stand for. -/
def Step.read (s : Step) (order : ByteOrder) (bytes : List UInt8) : Value :=
  match s.kind with
  | .scalar => s.type.ofWord (order.word bytes)
  | .text _ => .text (slotText bytes)
  | .array n => .list (s.type.readArray order n bytes)

namespace Codec

open Payload

variable {p : Payload} {order : ByteOrder} {steps : List Step}

theorem decodeScalar_of_gives {type : ScalarType} (h : p.Gives type.width) :
    decodeScalar type p =
      .ok (type.ofWord (p.order.word (p.peek type.width)), p.advance type.width) := by
  rw [decodeScalar_eq, Payload.getWord, getBytes_of_gives h]
  rfl

theorem decodeArray_of_gives {type : ScalarType} {n : Nat} (h : p.Gives (type.width * n)) :
    decodeArray type n p = .ok (type.readArray p.order n (p.peek (type.width * n)),
      p.advance (type.width * n)) := by
  induction n generalizing p with
  | zero => rfl
  | succ n ih =>
    have hwidth : type.width * (n + 1) = type.width + type.width * n := by
      rw [Nat.mul_succ, Nat.add_comm]
    rw [hwidth] at h ⊢
    have hfirst := decodeScalar_of_gives h.of_add
    have hrest := ih (gives_advance.2 h)
    rw [advance_advance, order_advance] at hrest
    rw [peek_add, ScalarType.readArray, List.take_left' (length_peek _ _),
      List.drop_left' (length_peek _ _)]
    exact bind_eq_ok_iff.2 ⟨_, hfirst, bind_eq_ok_iff.2 ⟨_, hrest, rfl⟩⟩

/-- A step is read from the bytes that come next, and from no others. -/
theorem decodeStep_of_gives {s : Step} (htext : ∀ n, s.kind = .text n → s.type = .integer .char)
    (h : p.Gives s.width) :
    decodeStep s p = .ok (s.read p.order (p.peek s.width), p.advance s.width) := by
  cases hk : s.kind with
  | scalar =>
    rw [Step.width_of_scalar hk] at h ⊢
    simp only [decodeStep, Step.read, hk]
    exact decodeScalar_of_gives h
  | text n =>
    rw [Step.width_of_text hk (htext n hk)] at h ⊢
    simp only [decodeStep, Step.read, hk, Payload.getText, getBytes_of_gives h]
    rfl
  | array n =>
    rw [Step.width_of_array hk] at h ⊢
    simp only [decodeStep, Step.read, hk, decodeArray_of_gives h]
    rfl

/-- A payload of the bytes of one step. -/
theorem decodeStep_received {s : Step} {bytes : List UInt8}
    (htext : ∀ n, s.kind = .text n → s.type = .integer .char) (h : bytes.length = s.width)
    (order : ByteOrder) (version : FrameVersion) :
    decodeStep s (received bytes order version) =
      .ok (s.read order bytes, (received bytes order version).advance s.width) := by
  have hgives : (received bytes order version).Gives s.width := .inl (by simp [received, h])
  have hpeek : (received bytes order version).peek s.width = bytes := by
    rw [peek_eq_fitted]
    exact fitted_of_length h
  rw [decodeStep_of_gives htext hgives, hpeek]
  rfl

/-- **Reading on is reading each step at its place.** -/
theorem decodeSteps_of_tiles {stop : Nat} (htext : TextsOfChars steps)
    (htiles : Tiles p.position stop steps) (h : p.Gives (stepsLength steps)) :
    decodeSteps steps p =
      .ok (steps.map fun s => (s.field, s.read p.order (s.window p.bytes))) := by
  induction steps generalizing p with
  | nil => rfl
  | cons s steps ih =>
    obtain ⟨hoffset, hrest⟩ := htiles
    have hs := decodeStep_of_gives (htext s List.mem_cons_self) h.of_add
    rw [peek_eq_window hoffset] at hs
    rw [hoffset] at hrest
    have hsteps := ih htext.of_cons (p := p.advance s.width) hrest (gives_advance.2 h)
    rw [decodeSteps_cons hs, hsteps]
    rfl

/-! ## Writing each step at its place -/

/-- Each step writes its slice of the payload. -/
theorem encodeStep_of_encodeSteps {start stop : Nat} {parts : List (List UInt8)}
    {values : FieldValues} {bytes : List UInt8} (htext : TextsOfChars steps)
    (htiles : Tiles start stop steps)
    (h : List.Forall₂ (fun s part => encodeStep order s (values.get? s.field) = .ok part)
      steps parts) (hbytes : bytes.drop start = parts.flatten) {s : Step} (hs : s ∈ steps) :
    encodeStep order s (values.get? s.field) = .ok (s.slice bytes) := by
  induction h generalizing start with
  | nil => cases hs
  | @cons first part steps parts hpart _ ih =>
    obtain ⟨hoffset, hrest⟩ := htiles
    have hlen := length_of_encodeStep (htext first List.mem_cons_self) hpart
    rw [List.flatten_cons] at hbytes
    rcases List.mem_cons.1 hs with rfl | hs
    · rw [Step.slice, hoffset, hbytes, List.take_left' hlen]
      exact hpart
    · refine ih htext.of_cons hrest ?_ hs
      rw [← List.drop_drop, hoffset, hbytes, List.drop_left' hlen]

/-! ## Payloads of a plan -/

variable {plan : LayoutPlan} {values : FieldValues} {bytes : List UInt8}

theorem encode_legacy_of_extended (hplan : plan.Sound)
    (h : encode order plan values .extended = .ok bytes) :
    encode order plan values .legacy = .ok (bytes.take plan.baseLength) := by
  obtain ⟨parts, hparts, rfl⟩ := encode_eq_ok_iff.1 h
  have hbase := List.forall₂_take plan.baseSteps.length hparts
  rw [LayoutPlan.stepsFor, LayoutPlan.steps, List.take_left] at hbase
  have hlen : (parts.take plan.baseSteps.length).flatten.length = plan.baseLength :=
    (length_of_encodeSteps (textsOfChars_stepsFor hplan .legacy) hbase).trans
      (hplan.length .legacy).symm
  refine encode_eq_ok_iff.2 ⟨_, hbase, ?_⟩
  conv_lhs => rw [← List.take_append_drop plan.baseSteps.length parts]
  rw [List.flatten_append, List.take_left' hlen]

end Codec

theorem LayoutPlan.tiles_stepsFor {m : Message} {sorted : Bool} {plan : LayoutPlan}
    (hp : ofMessage m sorted = .ok plan) (version : FrameVersion) :
    Tiles 0 (plan.payloadLength version) (plan.stepsFor version) := by
  cases version with
  | legacy => exact (tiles_steps hp).1
  | extended => exact (tiles_steps hp).2

/-- A payload is decoded, if it is not too short, to what the steps read at their places. -/
theorem Codec.decode_eq_ok_iff {plan : LayoutPlan} {order : ByteOrder} {bytes : List UInt8}
    {version : FrameVersion} {decoded : FieldValues} (hplan : plan.Sound)
    (htiles : Tiles 0 (plan.payloadLength version) (plan.stepsFor version)) :
    decode order plan bytes version = .ok decoded ↔
      (version = .extended ∨ plan.baseLength ≤ bytes.length) ∧
      decoded = (plan.stepsFor version).map fun s => (s.field, s.read order (s.window bytes)) := by
  have hread (h : version = .extended ∨ plan.baseLength ≤ bytes.length) :
      decode order plan bytes version =
        .ok ((plan.stepsFor version).map fun s => (s.field, s.read order (s.window bytes))) := by
    refine decodeSteps_of_tiles (textsOfChars_stepsFor hplan version) htiles ?_
    rw [gives_received, ← hplan.length version]
    rcases h with rfl | hlen
    · exact .inr rfl
    · cases version with
      | legacy => exact .inl hlen
      | extended => exact .inr rfl
  constructor
  · intro h
    have hlong := (exists_decode_iff hplan order bytes version).1 ⟨decoded, h⟩
    rw [hread hlong] at h
    cases h
    exact ⟨hlong, rfl⟩
  · rintro ⟨hlong, rfl⟩
    exact hread hlong

/-- **A field has to do with the bytes at its offset, and with no others.** A payload of a declared
message has the length of the plan, and each of its slices was written by the step at that place, so
that equal values of a field give equal slices. A legacy payload is the first part of the extended
one. Each value that a payload is decoded to is what its step reads from the slice alone, which is
filled up with zeros if the payload of an extended frame ends before. -/
theorem codec_local {id : Nat} {name : String} {fields : List Field} {start : Option Nat}
    {flags : DialectFlags} {m : Message} {sorted : Bool} {plan : LayoutPlan}
    (hm : Message.declare id name fields start flags = .ok m)
    (hp : LayoutPlan.ofMessage m sorted = .ok plan) (order : ByteOrder) (version : FrameVersion) :
    (∀ values bytes, Codec.encode order plan values version = .ok bytes →
      bytes.length = plan.payloadLength version ∧
      (∀ s ∈ plan.stepsFor version, s.offset + s.width ≤ bytes.length ∧
        Codec.encodeStep order s (values.get? s.field) = .ok (s.slice bytes)) ∧
      ∀ values' bytes', Codec.encode order plan values' version = .ok bytes' →
        ∀ s ∈ plan.stepsFor version, values'.get? s.field = values.get? s.field →
          s.slice bytes' = s.slice bytes) ∧
    (∀ values bytes, Codec.encode order plan values .extended = .ok bytes →
      Codec.encode order plan values .legacy = .ok (bytes.take plan.baseLength)) ∧
    (∀ bytes decoded, Codec.decode order plan bytes version = .ok decoded →
      (∀ s ∈ plan.stepsFor version, ∃ v rest, decoded.get? s.field = some v ∧
        Codec.decodeStep s (Payload.received (s.window bytes) order version) = .ok (v, rest) ∧
        (version = .legacy → s.window bytes = s.slice bytes)) ∧
      ∀ bytes' decoded', Codec.decode order plan bytes' version = .ok decoded' →
        ∀ s ∈ plan.stepsFor version, (∀ i, s.Covers i → bytes'[i]?.getD 0 = bytes[i]?.getD 0) →
          decoded'.get? s.field = decoded.get? s.field) := by
  have hplan := LayoutPlan.Sound.of_declare hm hp
  have htiles := LayoutPlan.tiles_stepsFor hp version
  have htexts := Codec.textsOfChars_stepsFor hplan version
  have hwrites {values bytes} (h : Codec.encode order plan values version = .ok bytes) :
      ∀ s ∈ plan.stepsFor version,
        Codec.encodeStep order s (values.get? s.field) = .ok (s.slice bytes) := by
    obtain ⟨parts, hparts, rfl⟩ := Codec.encode_eq_ok_iff.1 h
    exact fun s hs => Codec.encodeStep_of_encodeSteps htexts htiles hparts rfl hs
  have hreads {bytes decoded} (h : Codec.decode order plan bytes version = .ok decoded) :
      ∀ s ∈ plan.stepsFor version, decoded.get? s.field = some (s.read order (s.window bytes)) := by
    obtain ⟨-, rfl⟩ := (Codec.decode_eq_ok_iff hplan htiles).1 h
    exact fun s hs => FieldValues.get?_map_steps _ (hplan.nodup_stepsFor version) hs
  refine ⟨fun values bytes h => ?_, fun values bytes h => Codec.encode_legacy_of_extended hplan h,
    fun bytes decoded h => ?_⟩
  · have hlen := Codec.length_of_encode hplan h
    refine ⟨hlen, fun s hs => ⟨hlen ▸ (htiles.mem_bounds hs).2, hwrites h s hs⟩, ?_⟩
    intro values' bytes' h' s hs hvalue
    have hslice' := hwrites h' s hs
    rw [hvalue, hwrites h s hs] at hslice'
    exact (Except.ok.inj hslice').symm
  · refine ⟨fun s hs => ?_, fun bytes' decoded' h' s hs hbytes => ?_⟩
    · refine ⟨_, _, hreads h s hs,
        Codec.decodeStep_received (htexts s hs) (s.length_window bytes) order version, ?_⟩
      rintro rfl
      have hlen := ((Codec.decode_eq_ok_iff hplan htiles).1 h).1.resolve_left (by decide)
      exact Step.window_of_le (Nat.le_trans (htiles.mem_bounds hs).2 hlen)
    · rw [hreads h s hs, hreads h' s hs, Step.window_congr hbytes]

/-- A reading that ends in the middle of the first element of its array. -/
theorem decode_cut_reading :
    Codec.decode .big LayoutPlan.reading [0, 0, 0, 7, 255] .extended =
      .ok [("time", .integer .u32 7 (by decide)),
        ("axes", .list [.integer .i16 (-256) (by decide), .integer .i16 0 (by decide),
          .integer .i16 0 (by decide)]),
        ("label", .text ""), ("gain", .float ⟨0⟩)] := by
  have hrun : Codec.decode .big LayoutPlan.reading [0, 0, 0, 7, 255] .extended =
      .ok [("time", .wrap .u32 (ByteOrder.big.word [0, 0, 0, 7])),
        ("axes", .list [.wrap .i16 (ByteOrder.big.word [255, 0]), .wrap .i16 0, .wrap .i16 0]),
        ("label", .text (slotText [0, 0, 0])), ("gain", .float ⟨0⟩)] := rfl
  have hword {k : IntKind} {word : Nat} {n : Int} (hn : k.Holds n) (h : k.wrap word = n) :
      Value.wrap k word = .integer k n hn := by
    subst h
    rfl
  have htext : slotText [0, 0, 0] = "" := by decide +kernel
  rw [hrun, hword (by decide : IntKind.u32.Holds 7) (by decide),
    hword (by decide : IntKind.i16.Holds (-256)) (by decide),
    hword (by decide : IntKind.i16.Holds 0) (by decide), htext]

/-- The array of a reading: the slice that it is written to, and a payload that ends in the middle
of its first element. -/
theorem codec_local_reading :
    let axes : Step := ⟨"axes", 2, .integer .i16, .array 3, 4⟩
    let values : FieldValues :=
      [("label", .text "north"), ("axes", .list [.integer .i32 (-2) (by decide)])]
    let read : Value := .list [.integer .i16 (-256) (by decide), .integer .i16 0 (by decide),
      .integer .i16 0 (by decide)]
    Message.declare 300 "READING" Message.reading.fields (some 3) {} = .ok Message.reading ∧
    LayoutPlan.ofMessage Message.reading true = .ok LayoutPlan.reading ∧
    Codec.encode .big LayoutPlan.reading values .extended =
      .ok [0, 0, 0, 0, 255, 254, 0, 0, 0, 0, 110, 111, 114, 0, 0, 0, 0] ∧
    Codec.encodeStep .big axes (values.get? "axes") = .ok [255, 254, 0, 0, 0, 0] ∧
    Codec.encode .big LayoutPlan.reading values .legacy =
      .ok [0, 0, 0, 0, 255, 254, 0, 0, 0, 0, 110, 111, 114] ∧
    Codec.decode .big LayoutPlan.reading [0, 0, 0, 7, 255] .extended =
      .ok [("time", .integer .u32 7 (by decide)), ("axes", read), ("label", .text ""),
        ("gain", .float ⟨0⟩)] ∧
    ∃ rest, Codec.decodeStep axes (Payload.received [255, 0, 0, 0, 0, 0] .big .extended) =
      .ok (read, rest) := by
  intro axes values read
  have hm : Message.declare 300 "READING" Message.reading.fields (some 3) {} =
      .ok Message.reading := by decide +kernel
  have hp : LayoutPlan.ofMessage Message.reading true = .ok LayoutPlan.reading := rfl
  have haxes : axes ∈ LayoutPlan.reading.stepsFor .extended := by decide
  obtain ⟨hwrites, hlegacy, hreads⟩ := codec_local hm hp .big .extended
  have hbytes : Codec.encode .big LayoutPlan.reading values .extended =
      .ok [0, 0, 0, 0, 255, 254, 0, 0, 0, 0, 110, 111, 114, 0, 0, 0, 0] := rfl
  obtain ⟨-, hslices, -⟩ := hwrites _ _ hbytes
  obtain ⟨v, rest, hv, hstep, -⟩ := (hreads _ _ decode_cut_reading).1 axes haxes
  cases hv
  exact ⟨hm, hp, hbytes, (hslices axes haxes).2, hlegacy _ _ hbytes, decode_cut_reading, rest,
    hstep⟩

end Telemetry
