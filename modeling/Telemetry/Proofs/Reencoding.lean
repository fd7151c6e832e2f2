import Telemetry.Proofs.Locality

/-!
# Encoding what was decoded

Decoding forgets nothing of a payload but what follows the first zero of a text slot, and ill-formed
text. So the values of a payload are encoded to the payload again, up to these.

* `Codec.encodeScalar_ofWord`: each word is the bytes of the value that it stands for.
* `clearTail`: a slot with zeros behind its text.
* `Step.Stale`, `LayoutPlan.cleared`: the bytes behind a text, and a payload with zeros for them.
* `Codec.encodeStep_read`: a step writes what it has read.
* `encode_decoded`: what this means for the payloads of a declared message.
-/

namespace Telemetry

/-! ## Words -/

theorem IntKind.unwrap_wrap (k : IntKind) {n : Nat} (h : n < k.modulus) :
    k.unwrap (k.wrap n) = n := by
  have hmod : k.wrap n % k.modulus = n := by
    rw [wrap, Int.emod_add_emod, Int.sub_add_cancel]
    exact Int.emod_eq_of_lt (Int.natCast_nonneg n) (Int.ofNat_lt.2 h)
  rw [unwrap, hmod, Int.toNat_natCast]

theorem ByteOrder.word_lt (order : ByteOrder) (bytes : List UInt8) :
    order.word bytes < Nat.pow 256 bytes.length := by
  cases order with
  | little => exact wordUp_lt bytes
  | big =>
    have h := wordUp_lt bytes.reverse
    rwa [List.length_reverse] at h

theorem ScalarType.length_readArray (t : ScalarType) (order : ByteOrder) (n : Nat)
    (bytes : List UInt8) : (t.readArray order n bytes).length = n := by
  induction n generalizing bytes with
  | zero => rfl
  | succ n ih => rw [readArray, List.length_cons, ih]

namespace Codec

variable {order : ByteOrder} {field : String} {type : ScalarType} {bytes : List UInt8}

theorem encodeInt_wrap {k : IntKind} (h : bytes.length = k.width) :
    encodeInt order field type k (.wrap k (order.word bytes)) = .ok bytes := by
  have hlt : order.word bytes < k.modulus := by
    have hword := order.word_lt bytes
    rwa [h] at hword
  rw [encodeInt_of_holds rfl (k.holds_wrap _), k.unwrap_wrap hlt, ← h, ByteOrder.bytes_word]

/-- Each word is the bytes of the value that it stands for. -/
theorem encodeScalar_ofWord (h : bytes.length = type.width) :
    encodeScalar order field type (type.ofWord (order.word bytes)) = .ok bytes := by
  have hlt := order.word_lt bytes
  have hbytes := order.bytes_word bytes
  rw [h] at hlt hbytes
  cases type with
  | float =>
    have hbits : (UInt32.ofNat (order.word bytes)).toNat = order.word bytes :=
      UInt32.toNat_ofNat_of_lt' hlt
    simp only [encodeScalar, ScalarType.ofWord, Value.toBinary32?, hbits]
    exact congrArg Except.ok hbytes
  | double =>
    have hbits : (UInt64.ofNat (order.word bytes)).toNat = order.word bytes :=
      UInt64.toNat_ofNat_of_lt' hlt
    simp only [encodeScalar, ScalarType.ofWord, Value.toBinary64?, hbits]
    exact congrArg Except.ok hbytes
  | integer k => exact encodeInt_wrap h
  | version => exact encodeInt_wrap (k := .u8) h

theorem encodeScalars_readArray (order : ByteOrder) (field : String) {n : Nat}
    (h : bytes.length = type.width * n) :
    ∃ parts, (type.readArray order n bytes).mapM (encodeScalar order field type) = .ok parts ∧
      parts.flatten = bytes := by
  induction n generalizing bytes with
  | zero => exact ⟨[], rfl, (List.length_eq_zero_iff.1 h).symm⟩
  | succ n ih =>
    rw [Nat.mul_succ] at h
    have hfirst : (bytes.take type.width).length = type.width := by
      rw [List.length_take]
      omega
    have hrest : (bytes.drop type.width).length = type.width * n := by
      rw [List.length_drop]
      omega
    obtain ⟨parts, hparts, hflatten⟩ := ih hrest
    refine ⟨bytes.take type.width :: parts, ?_, ?_⟩
    · rw [ScalarType.readArray, List.mapM_cons, encodeScalar_ofWord hfirst, hparts]
      rfl
    · rw [List.flatten_cons, hflatten, List.take_append_drop]

theorem encodeArray_readArray {n : Nat} (h : bytes.length = type.width * n) :
    encodeArray order field type n (type.readArray order n bytes) = .ok bytes := by
  obtain ⟨parts, hparts, rfl⟩ := encodeScalars_readArray order field h
  rw [encodeArray, ScalarType.length_readArray, if_neg (Nat.lt_irrefl n), Nat.sub_self,
    List.replicate_zero, List.append_nil, hparts]
  rfl

end Codec

/-! ## Texts -/

/-- Bytes that are those of some text. -/
def Utf8.Valid (bytes : List UInt8) : Prop := ∃ text, bytes = Utf8.encode text

/-- A slot with zeros behind its text. -/
def clearTail (slot : List UInt8) : List UInt8 :=
  slot.takeWhile (· ≠ 0) ++ List.replicate (slot.length - (slot.takeWhile (· ≠ 0)).length) 0

@[simp] theorem length_clearTail (slot : List UInt8) :
    (clearTail slot).length = slot.length := by
  have hle := (List.takeWhile_sublist (l := slot) (· ≠ 0)).length_le
  rw [clearTail, List.length_append, List.length_replicate]
  omega

/-- Behind a zero there are zeros, and all else is as it was. -/
theorem getElem?_clearTail (slot : List UInt8) (i : Nat) :
    (clearTail slot)[i]? = slot[i]?.map fun b => if 0 ∈ slot.take i then 0 else b := by
  induction slot generalizing i with
  | nil => simp [clearTail]
  | cons b slot ih =>
    by_cases hb : b = 0
    · subst hb
      have hzeros : clearTail (0 :: slot) = List.replicate (slot.length + 1) 0 := by
        simp [clearTail]
      rw [hzeros]
      cases i with
      | zero => rfl
      | succ i =>
        rw [List.getElem?_cons_succ, List.take_succ_cons]
        simp only [List.mem_cons_self, if_true]
        by_cases hi : i < slot.length
        · rw [List.getElem?_replicate_of_lt (by omega), List.getElem?_eq_getElem hi]
          rfl
        · rw [List.getElem?_eq_none (by rw [List.length_replicate]; omega),
            List.getElem?_eq_none (Nat.le_of_not_lt hi)]
          rfl
    · have hcons : clearTail (b :: slot) = b :: clearTail slot := by
        simp [clearTail, hb]
      rw [hcons]
      cases i with
      | zero => simp
      | succ i =>
        rw [List.getElem?_cons_succ, List.getElem?_cons_succ, ih]
        simp [Ne.symm hb]

theorem takeWhile_clearTail (slot : List UInt8) :
    (clearTail slot).takeWhile (· ≠ 0) = slot.takeWhile (· ≠ 0) := by
  rw [clearTail, List.takeWhile_append_of_pos, List.takeWhile_replicate]
  · simp
  · exact List.all_eq_true.1 List.all_takeWhile

/-- A well-formed text is written to its slot again, with zeros behind it. -/
theorem textSlot_slotText {slot : List UInt8} (h : Utf8.Valid (slot.takeWhile (· ≠ 0))) :
    textSlot slot.length (slotText slot) = clearTail slot := by
  obtain ⟨text, htext⟩ := h
  have hlen : (Utf8.encode text).length ≤ slot.length := by
    rw [← htext]
    exact (List.takeWhile_sublist _).length_le
  rw [slotText, clearTail, htext, Utf8.decodeLossy_encode, textSlot, List.take_of_length_le hlen]

/-! ## Steps -/

namespace Step

/-- Whether a step is that of a text. -/
def isText (s : Step) : Bool :=
  match s.kind with
  | .text _ => true
  | _ => false

/-- The bytes of a step, with zeros behind a text. -/
def clear (s : Step) (slot : List UInt8) : List UInt8 := if s.isText then clearTail slot else slot

@[simp] theorem length_clear (s : Step) (slot : List UInt8) :
    (s.clear slot).length = slot.length := by
  unfold clear
  split
  · exact length_clearTail slot
  · rfl

theorem read_clear (s : Step) (order : ByteOrder) (slot : List UInt8) :
    s.read order (s.clear slot) = s.read order slot := by
  cases hk : s.kind with
  | scalar => simp [clear, isText, hk]
  | text n => simp only [read, clear, isText, hk, if_true, slotText, takeWhile_clearTail]
  | array n => simp [clear, isText, hk]

end Step

/-- **A step writes what it has read**, but for what stands behind a text. -/
theorem Codec.encodeStep_read {s : Step} {order : ByteOrder} {slot : List UInt8}
    (htext : ∀ n, s.kind = .text n → s.type = .integer .char) (hlen : slot.length = s.width)
    (hvalid : s.isText → Utf8.Valid (slot.takeWhile (· ≠ 0))) :
    encodeStep order s (some (s.read order slot)) = .ok (s.clear slot) := by
  cases hk : s.kind with
  | scalar =>
    rw [Step.width_of_scalar hk] at hlen
    simp only [encodeStep, Step.read, Step.clear, Step.isText, hk, Option.getD_some]
    exact encodeScalar_ofWord hlen
  | text n =>
    rw [Step.width_of_text hk (htext n hk)] at hlen
    have hslot := textSlot_slotText (hvalid (by simp [Step.isText, hk]))
    simp only [encodeStep, Step.read, Step.clear, Step.isText, hk, if_true, ← hlen, hslot]
  | array n =>
    rw [Step.width_of_array hk] at hlen
    simp only [encodeStep, Step.read, Step.clear, Step.isText, hk]
    exact encodeArray_readArray hlen

/-! ## Payloads -/

/-- Whether a byte stands behind a text: in its slot, there is a zero before it. -/
def Step.Stale (s : Step) (bytes : List UInt8) (i : Nat) : Prop :=
  s.isText ∧ s.Covers i ∧ 0 ∈ (bytes.take i).drop s.offset

instance (s : Step) (bytes : List UInt8) (i : Nat) : Decidable (s.Stale bytes i) :=
  inferInstanceAs (Decidable (_ ∧ (_ ∧ _) ∧ _))

/-- A payload with zeros for all that stands behind a text. -/
def LayoutPlan.cleared (plan : LayoutPlan) (version : FrameVersion) (bytes : List UInt8) :
    List UInt8 :=
  bytes.mapIdx fun i b => if ∃ s ∈ plan.stepsFor version, s.Stale bytes i then 0 else b

theorem Step.stale_iff {s : Step} {bytes : List UInt8} {i : Nat} (hi : i < s.width) :
    s.Stale bytes (s.offset + i) ↔ s.isText ∧ 0 ∈ (s.slice bytes).take i := by
  have hcovers : s.Covers (s.offset + i) := ⟨Nat.le_add_right _ _, by omega⟩
  have hbefore : (bytes.take (s.offset + i)).drop s.offset = (s.slice bytes).take i := by
    rw [List.drop_take, Nat.add_sub_cancel_left, slice, List.take_take, Nat.min_eq_left (by omega)]
  simp only [Stale, hcovers, hbefore, true_and]

/-- A byte is cleared on behalf of the step that it belongs to, as no other step covers it. -/
theorem Tiles.exists_stale_iff {start stop : Nat} {steps : List Step} {bytes : List UInt8}
    (h : Tiles start stop steps) {s : Step} (hs : s ∈ steps) {i : Nat} (hi : i < s.width) :
    (∃ s' ∈ steps, s'.Stale bytes (s.offset + i)) ↔ s.isText ∧ 0 ∈ (s.slice bytes).take i := by
  rw [← Step.stale_iff hi]
  constructor
  · rintro ⟨s', hs', hstale⟩
    have hbounds := h.mem_bounds hs
    have hstart : start ≤ s.offset + i := by omega
    have hstop : s.offset + i < stop := by omega
    have hcovers : s.Covers (s.offset + i) := ⟨Nat.le_add_right _ _, by omega⟩
    have hsame : s' = s :=
      (h.existsUnique_covers hstart hstop).unique ⟨hs', hstale.2.1⟩ ⟨hs, hcovers⟩
    rwa [hsame] at hstale
  · exact fun hstale => ⟨s, hs, hstale⟩

theorem LayoutPlan.slice_cleared {plan : LayoutPlan} {version : FrameVersion} {stop : Nat}
    (htiles : Tiles 0 stop (plan.stepsFor version)) {s : Step} (hs : s ∈ plan.stepsFor version)
    (bytes : List UInt8) : s.slice (plan.cleared version bytes) = s.clear (s.slice bytes) := by
  apply List.ext_getElem?
  intro i
  rw [Step.getElem?_slice, cleared, List.getElem?_mapIdx]
  by_cases hi : i < s.width
  · have hbyte : (s.slice bytes)[i]? = bytes[s.offset + i]? := by
      rw [Step.getElem?_slice, if_pos hi]
    simp only [if_pos hi, htiles.exists_stale_iff hs hi, ← hbyte]
    by_cases htext : s.isText
    · simp only [Step.clear, htext, true_and, if_true, getElem?_clearTail]
    · simp [Step.clear, htext]
  · have hlen : (s.clear (s.slice bytes)).length ≤ i := by
      rw [Step.length_clear, Step.slice, List.length_take]
      omega
    rw [if_neg hi, List.getElem?_eq_none hlen]

/-- Slices of steps that follow each other are together what they cover. -/
theorem Tiles.flatten_slices {start : Nat} {steps : List Step} {bytes : List UInt8}
    (h : Tiles start bytes.length steps) :
    (steps.map (·.slice bytes)).flatten = bytes.drop start := by
  induction steps generalizing start with
  | nil =>
    have hend : start = bytes.length := h
    rw [hend, List.drop_length]
    rfl
  | cons s steps ih =>
    obtain ⟨hoffset, hrest⟩ := h
    rw [List.map_cons, List.flatten_cons, ih hrest, Step.slice, ← List.drop_drop,
      List.take_append_drop, hoffset]

/-- **What was decoded is encoded to the same payload**, cut or filled up with zeros to the length
of the plan and with zeros behind each text, provided that the texts are well-formed; and that
payload is decoded to the same values. -/
theorem encode_decoded {id : Nat} {name : String} {fields : List Field} {start : Option Nat}
    {flags : DialectFlags} {m : Message} {sorted : Bool} {plan : LayoutPlan}
    (hm : Message.declare id name fields start flags = .ok m)
    (hp : LayoutPlan.ofMessage m sorted = .ok plan) {order : ByteOrder} {version : FrameVersion}
    {bytes : List UInt8} {decoded : FieldValues}
    (hdecoded : Codec.decode order plan bytes version = .ok decoded)
    (hvalid : ∀ s ∈ plan.stepsFor version, s.isText →
      Utf8.Valid ((s.slice (fitted (plan.payloadLength version) bytes)).takeWhile (· ≠ 0))) :
    let payload := plan.cleared version (fitted (plan.payloadLength version) bytes)
    Codec.encode order plan decoded version = .ok payload ∧
      Codec.decode order plan payload version = .ok decoded := by
  intro payload
  have hplan := LayoutPlan.Sound.of_declare hm hp
  have htiles := LayoutPlan.tiles_stepsFor hp version
  have htexts := Codec.textsOfChars_stepsFor hplan version
  have hbounds {s} (hs : s ∈ plan.stepsFor version) := (htiles.mem_bounds hs).2
  obtain ⟨-, rfl⟩ := (Codec.decode_eq_ok_iff hplan htiles).1 hdecoded
  have hlen : payload.length = plan.payloadLength version := by
    simp [payload, LayoutPlan.cleared]
  have hslice {s} (hs : s ∈ plan.stepsFor version) :
      s.slice payload = s.clear (s.window bytes) := by
    rw [LayoutPlan.slice_cleared htiles hs, Step.slice_fitted (hbounds hs)]
  constructor
  · refine Codec.encode_eq_ok_iff.2 ⟨(plan.stepsFor version).map (·.slice payload), ?_, ?_⟩
    · rw [List.forall₂_map_right_iff, List.forall₂_same]
      intro s hs
      rw [FieldValues.get?_map_steps _ (hplan.nodup_stepsFor version) hs, hslice hs]
      refine Codec.encodeStep_read (htexts s hs) (s.length_window bytes) fun htext => ?_
      rw [← Step.slice_fitted (hbounds hs)]
      exact hvalid s hs htext
    · rw [← hlen] at htiles
      exact htiles.flatten_slices.symm
  · refine (Codec.decode_eq_ok_iff hplan htiles).2 ⟨?_, List.map_congr_left fun s hs => ?_⟩
    · rw [hlen]
      cases version with
      | legacy => exact .inr (Nat.le_refl _)
      | extended => exact .inl rfl
    · have hwindow : s.window payload = s.slice payload :=
        Step.window_of_le (by rw [hlen]; exact hbounds hs)
      rw [hwindow, hslice hs, Step.read_clear]

/-- A reading that is cut short behind its text, with something left in the slot from an earlier and
longer text. -/
theorem encode_decoded_reading :
    Message.declare 300 "READING" Message.reading.fields (some 3) {} = .ok Message.reading ∧
    LayoutPlan.ofMessage Message.reading true = .ok LayoutPlan.reading ∧
    ∃ decoded,
      Codec.decode .big LayoutPlan.reading [0, 0, 0, 7, 255, 254, 128, 0, 0, 1, 110, 0, 114]
        .extended = .ok decoded ∧
      Codec.encode .big LayoutPlan.reading decoded .extended =
        .ok [0, 0, 0, 7, 255, 254, 128, 0, 0, 1, 110, 0, 0, 0, 0, 0, 0] ∧
      Codec.decode .big LayoutPlan.reading
        [0, 0, 0, 7, 255, 254, 128, 0, 0, 1, 110, 0, 0, 0, 0, 0, 0] .extended = .ok decoded := by
  have hm : Message.declare 300 "READING" Message.reading.fields (some 3) {} =
      .ok Message.reading := by decide +kernel
  have hp : LayoutPlan.ofMessage Message.reading true = .ok LayoutPlan.reading := rfl
  obtain ⟨decoded, hdecoded⟩ : ∃ decoded, Codec.decode .big LayoutPlan.reading
      [0, 0, 0, 7, 255, 254, 128, 0, 0, 1, 110, 0, 114] .extended = .ok decoded := ⟨_, rfl⟩
  refine ⟨hm, hp, decoded, hdecoded, encode_decoded hm hp hdecoded fun s hs htext => ?_⟩
  have hlabel : s = ⟨"label", 1, .integer .char, .text 3, 10⟩ := by
    revert s
    decide
  rw [hlabel]
  exact ⟨"n", by decide⟩

end Telemetry
