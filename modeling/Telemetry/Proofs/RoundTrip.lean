import Telemetry.Codec
import Telemetry.Proofs.Layout
import Telemetry.Proofs.Utf8

/-!
# The round trip of payloads

What a payload says of the values that it was encoded from.

* `Payload.Ahead`: the bytes that a payload has still to give, and what reading some of them does.
* `Codec.integer_eq_judge`: integers that are read as words of 64 bits and then converted are judged
  by their own value.
* `ScalarType.normal`, `Step.normal`: what a value comes back as, once it was encoded.
* `Step.Canonical`: the values that come back as they are.
* `decodeStep_encodeStep`: one step reads back what it wrote, and nothing else.
* `decode_encode`: decoding a payload gives the normal form of each value that it was encoded from.
-/

namespace Telemetry

/-! ## Reading what lies ahead -/

namespace Payload

/-- The bytes that are still to be read. -/
structure Ahead (p : Payload) (bytes : List UInt8) : Prop where
  position_le : p.position ≤ p.bytes.length
  drop_position : p.bytes.drop p.position = bytes

/-- The payload with `n` bytes more read. -/
def advance (p : Payload) (n : Nat) : Payload := { p with position := p.position + n }

@[simp] theorem order_advance (p : Payload) (n : Nat) : (p.advance n).order = p.order := rfl

theorem advance_advance (p : Payload) (m n : Nat) :
    (p.advance m).advance n = p.advance (m + n) := by
  simp [advance, Nat.add_assoc]

theorem ahead_received (bytes : List UInt8) (order : ByteOrder) (version : FrameVersion) :
    (received bytes order version).Ahead bytes :=
  ⟨Nat.zero_le _, rfl⟩

variable {p : Payload} {xs ys : List UInt8}

theorem Ahead.advance (h : p.Ahead (xs ++ ys)) : (p.advance xs.length).Ahead ys := by
  obtain ⟨hpos, hdrop⟩ := h
  have hlen := congrArg List.length hdrop
  rw [List.length_drop, List.length_append] at hlen
  refine ⟨?_, ?_⟩
  · change p.position + xs.length ≤ p.bytes.length
    omega
  · change p.bytes.drop (p.position + xs.length) = ys
    rw [← List.drop_drop, hdrop, List.drop_left]

theorem Ahead.getBytes (h : p.Ahead (xs ++ ys)) :
    p.getBytes xs.length = .ok (xs, p.advance xs.length) := by
  have hle : p.position + xs.length ≤ p.bytes.length := h.advance.position_le
  have hpeek : p.peek xs.length = xs := by simp [peek, h.drop_position]
  rw [Payload.getBytes, if_pos (.inl hle), hpeek]
  rfl

theorem Ahead.getWord {width n : Nat} (h : p.Ahead (p.order.bytes width n ++ ys)) :
    p.getWord width = .ok (n % Nat.pow 256 width, p.advance width) := by
  have hbytes := h.getBytes
  rw [ByteOrder.length_bytes] at hbytes
  simp [Payload.getWord, hbytes, ByteOrder.word_bytes, bind, Except.bind, pure, Except.pure]

end Payload

/-! ## Single values -/

theorem IntKind.holds_zero (k : IntKind) : k.Holds 0 := by
  cases k <;> decide

theorem IntKind.unwrap_lt (k : IntKind) (n : Int) : k.unwrap n < k.modulus := by
  have hpos : (0 : Int) < k.modulus := Int.ofNat_lt.2 k.modulus_pos
  have h0 := Int.emod_nonneg n (Int.ne_of_gt hpos)
  have h1 := Int.emod_lt_of_pos n hpos
  unfold unwrap
  omega

/-- The same integer in another kind, if that has it. -/
def Value.inKind (k : IntKind) : Value → Value
  | .integer k' n holds => if h : k.Holds n then .integer k n h else .integer k' n holds
  | v => v

namespace ScalarType

/-- The sort of the values of a type. -/
def valueKind : ScalarType → ValueKind
  | float => .float
  | double => .double
  | integer k => .integer k
  | version => .integer .u8

/-- The zero of a type. -/
def zero : ScalarType → Value
  | float => .float ⟨0⟩
  | double => .double ⟨0⟩
  | integer k => .integer k 0 k.holds_zero
  | version => .integer .u8 0 (IntKind.holds_zero .u8)

/-- What a value comes back as. An integer stays the same and gets the kind of the type, a number of
the type's own format stays as it is, and other numbers are converted. -/
def normal (t : ScalarType) (v : Value) : Value :=
  match t with
  | float => (v.toBinary32?.map .float).getD v
  | double => (v.toBinary64?.map .double).getD v
  | integer k => v.inKind k
  | version => v.inKind .u8

theorem normal_of_kind {t : ScalarType} {v : Value} (h : v.kind = t.valueKind) :
    t.normal v = v := by
  cases t <;> cases v <;> cases h
  case float => rfl
  case double => rfl
  case integer n holds => exact dif_pos holds
  case version n holds => exact dif_pos holds

theorem normal_zero (t : ScalarType) : t.normal Value.zero = t.zero := by
  cases t with
  | float => rfl
  | double => rfl
  | integer k => exact dif_pos k.holds_zero
  | version => rfl

/-- The value of a type that a word of its width stands for. -/
def ofWord (t : ScalarType) (n : Nat) : Value :=
  match t with
  | float => .float ⟨UInt32.ofNat n⟩
  | double => .double ⟨UInt64.ofNat n⟩
  | integer k => .wrap k n
  | version => .wrap .u8 n

end ScalarType

/-! ## Integers -/

theorem IntKind.Holds.mono {k k' : IntKind} {n : Int} (h : k.Holds n) (hlow : k'.low ≤ k.low)
    (hhigh : k.high ≤ k'.high) : k'.Holds n :=
  ⟨Int.le_trans hlow h.1, Int.le_trans h.2 hhigh⟩

theorem IntKind.Holds.u64 {k : IntKind} {n : Int} (h : k.Holds n) (hk : k.isSigned = false) :
    IntKind.u64.Holds n := by
  refine h.mono ?_ ?_ <;> revert hk <;> cases k <;> decide

theorem IntKind.Holds.i64 {k : IntKind} {n : Int} (h : k.Holds n) (hk : k ≠ .u64) :
    IntKind.i64.Holds n := by
  refine h.mono ?_ ?_ <;> revert hk <;> cases k <;> decide

namespace Value

/-- Unsigned integers are all words of 64 bits, so the check is needed for the others only. -/
theorem toUInt64?_eq (v : Value) : v.toUInt64? = v.toInt?.bind IntKind.u64.fit? := by
  cases v with
  | integer k n holds =>
    simp only [toUInt64?, toInt?, Option.bind_some]
    cases hk : k.isSigned with
    | true => rfl
    | false => exact (if_pos (holds.u64 hk)).symm
  | _ => rfl

theorem toInt64?_eq (v : Value) : v.toInt64? = v.toInt?.bind IntKind.i64.fit? := by
  cases v with
  | integer k n holds =>
    simp only [toInt64?, toInt?, Option.bind_some]
    split
    · rfl
    · exact (if_pos (holds.i64 ‹_›)).symm
  | _ => rfl

/-- Every integer is a word of 64 bits, of one sort or the other. -/
theorem holds_word {v : Value} {n : Int} (h : v.toInt? = some n) :
    IntKind.u64.Holds n ∨ IntKind.i64.Holds n := by
  cases v with
  | integer k m holds =>
    cases h
    cases hk : k.isSigned with
    | true => exact .inr (holds.i64 (by rintro rfl; cases hk))
    | false => exact .inl (holds.u64 hk)
  | _ => cases h

end Value

namespace Codec

variable {order : ByteOrder} {field : String} {type : ScalarType} {v : Value} {bytes : List UInt8}

/-- What is said of a value as an integer of a kind: it has to be an integer, and in the range of
the kind. -/
def judge (field : String) (type : ScalarType) (kind : IntKind) (value : Value) :
    Except CodecError Int :=
  match value.toInt? with
  | none => .error (.typeMismatch field type value.kind)
  | some n => if kind.Holds n then .ok n else .error (.outOfRange field type)

theorem judge_eq_ok_iff {k : IntKind} {n : Int} :
    judge field type k v = .ok n ↔ v.toInt? = some n ∧ k.Holds n := by
  unfold judge
  cases v.toInt? with
  | none => simp
  | some m =>
    by_cases hm : k.Holds m
    · simp only [if_pos hm, Except.ok.injEq, Option.some.injEq]
      exact ⟨fun h => ⟨h, h ▸ hm⟩, And.left⟩
    · simp only [if_neg hm, reduceCtorEq, Option.some.injEq, false_iff, not_and]
      exact fun h => h ▸ hm

/-- The way through words of 64 bits tells what is to be told, if the words hold all integers of the
kind, and any integer is a word of one sort or the other. -/
theorem convert_eq_judge {read? other? : Value → Option Int} {word other k : IntKind}
    (hread : ∀ v, read? v = v.toInt?.bind word.fit?)
    (hother : ∀ v, other? v = v.toInt?.bind other.fit?)
    (hwords : ∀ n, v.toInt? = some n → word.Holds n ∨ other.Holds n)
    (hkind : ∀ n, k.Holds n → word.Holds n) :
    convert read? other? field type k v = judge field type k v := by
  unfold convert judge
  rw [hread, hother]
  cases hv : v.toInt? with
  | none => rfl
  | some n =>
    simp only [Option.bind_some, IntKind.fit?]
    by_cases hword : word.Holds n
    · by_cases hn : k.Holds n <;> simp [hword, hn]
    · have hn : ¬ k.Holds n := fun hn => hword (hkind n hn)
      have hrest : other.Holds n := (hwords n hv).resolve_left hword
      simp [hword, hn, hrest]

theorem unsigned_eq_judge {k : IntKind} (hk : k.isSigned = false) :
    unsigned field type k v = judge field type k v :=
  convert_eq_judge Value.toUInt64?_eq Value.toInt64?_eq (fun _ => Value.holds_word)
    fun _ hn => hn.u64 hk

theorem signed_eq_judge {k : IntKind} (hk : k.isSigned = true) :
    signed field type k v = judge field type k v :=
  convert_eq_judge Value.toInt64?_eq Value.toUInt64?_eq (fun _ hv => (Value.holds_word hv).symm)
    fun _ hn => hn.i64 (by rintro rfl; cases hk)

theorem integer_eq_judge (field : String) (type : ScalarType) (k : IntKind) (v : Value) :
    integer field type k v = judge field type k v := by
  unfold integer
  cases hk : k.isSigned with
  | true => rw [if_pos rfl, signed_eq_judge hk]
  | false => rw [if_neg Bool.false_ne_true, unsigned_eq_judge hk]

theorem encodeInt_of_holds {k : IntKind} {n : Int} (hv : v.toInt? = some n) (hn : k.Holds n) :
    encodeInt order field type k v = .ok (order.bytes k.width (k.unwrap n)) := by
  rw [encodeInt, integer_eq_judge, judge_eq_ok_iff.2 ⟨hv, hn⟩]
  rfl

theorem encodeInt_eq_ok {k : IntKind} (h : encodeInt order field type k v = .ok bytes) :
    ∃ n, n < Nat.pow 256 k.width ∧ bytes = order.bytes k.width n ∧ Value.wrap k n = v.inKind k := by
  rw [encodeInt, integer_eq_judge] at h
  obtain ⟨n, hjudge, h⟩ := bind_eq_ok_iff.1 h
  cases h
  obtain ⟨hv, hn⟩ := judge_eq_ok_iff.1 hjudge
  refine ⟨k.unwrap n, k.unwrap_lt n, rfl, ?_⟩
  cases v with
  | integer k' n' holds =>
    cases hv
    simp [Value.wrap, Value.inKind, hn, k.wrap_unwrap hn]
  | _ => cases hv

/-- The bytes of a single value are those of a word, and the word stands for its normal form. -/
theorem encodeScalar_eq_ok (h : encodeScalar order field type v = .ok bytes) :
    ∃ n, n < Nat.pow 256 type.width ∧ bytes = order.bytes type.width n ∧
      type.ofWord n = type.normal v := by
  cases type with
  | float =>
    simp only [encodeScalar] at h
    split at h
    · rename_i x hx
      cases h
      refine ⟨x.bits.toNat, x.bits.toNat_lt, rfl, ?_⟩
      simp [ScalarType.ofWord, ScalarType.normal, hx]
    · cases h
  | double =>
    simp only [encodeScalar] at h
    split at h
    · rename_i x hx
      cases h
      refine ⟨x.bits.toNat, x.bits.toNat_lt, rfl, ?_⟩
      simp [ScalarType.ofWord, ScalarType.normal, hx]
    · cases h
  | integer k => exact encodeInt_eq_ok h
  | version => exact encodeInt_eq_ok (k := .u8) h

theorem length_of_encodeScalar (h : encodeScalar order field type v = .ok bytes) :
    bytes.length = type.width := by
  obtain ⟨n, -, rfl, -⟩ := encodeScalar_eq_ok h
  exact ByteOrder.length_bytes _ _ _

/-- A value of the sort of a type can be encoded. -/
theorem exists_encodeScalar (order : ByteOrder) (field : String) (h : v.kind = type.valueKind) :
    ∃ bytes, encodeScalar order field type v = .ok bytes := by
  cases type <;> cases v <;> cases h
  case float x => exact ⟨_, rfl⟩
  case double x => exact ⟨_, rfl⟩
  case integer k n holds => exact ⟨_, encodeInt_of_holds rfl holds⟩
  case version n holds => exact ⟨_, encodeInt_of_holds rfl holds⟩

theorem decodeScalar_eq (type : ScalarType) (p : Payload) :
    decodeScalar type p = do
      let (n, p) ← p.getWord type.width
      return (type.ofWord n, p) := by
  cases type with
  | float =>
    cases h : p.getWord 4 <;> simp [decodeScalar, Payload.getBinary32, ScalarType.width, h,
      ScalarType.ofWord, bind, Except.bind, pure, Except.pure]
  | double =>
    cases h : p.getWord 8 <;> simp [decodeScalar, Payload.getBinary64, ScalarType.width, h,
      ScalarType.ofWord, bind, Except.bind, pure, Except.pure]
  | integer k => rfl
  | version => rfl

/-- A single value is read back in its normal form. -/
theorem decodeScalar_encodeScalar {p : Payload} {rest : List UInt8}
    (h : encodeScalar p.order field type v = .ok bytes) (hp : p.Ahead (bytes ++ rest)) :
    decodeScalar type p = .ok (type.normal v, p.advance bytes.length) := by
  obtain ⟨n, hn, rfl, hword⟩ := encodeScalar_eq_ok h
  rw [decodeScalar_eq, hp.getWord, Nat.mod_eq_of_lt hn, ByteOrder.length_bytes]
  simp [bind, Except.bind, pure, Except.pure, hword]

end Codec

/-! ## Steps -/

namespace Step

/-- What the value of a field comes back as, `none` being a field that no value is given for. -/
def normal (s : Step) (value? : Option Value) : Value :=
  match s.kind, value? with
  | .scalar, none => s.type.zero
  | .scalar, some v => s.type.normal v
  | .text _, none => .text ""
  | .text n, some (.text t) => .text (slotText (textSlot n t))
  | .array n, none => .list (List.replicate n s.type.zero)
  | .array n, some (.list items) =>
    .list (items.map s.type.normal ++ List.replicate (n - items.length) s.type.zero)
  | _, some v => v

/-- The values that a step decodes to. They have the sort and the number of elements of the step; a
text has no zero, which would end it, and fits its slot. -/
def Canonical (s : Step) (v : Value) : Prop :=
  match s.kind, v with
  | .scalar, v => v.kind = s.type.valueKind
  | .text n, .text t => Char.ofNat 0 ∉ t.toList ∧ (Utf8.encode t).length ≤ n
  | .array n, .list items => items.length = n ∧ ∀ v ∈ items, v.kind = s.type.valueKind
  | _, _ => False

theorem normal_of_canonical {s : Step} {v : Value} (h : s.Canonical v) : s.normal (some v) = v := by
  unfold Canonical at h
  split at h
  · rename_i hk
    simp only [normal, hk]
    exact ScalarType.normal_of_kind h
  · rename_i hk
    simp only [normal, hk]
    rw [slotText_textSlot h.1 h.2]
  · rename_i n items hk
    obtain ⟨rfl, hitems⟩ := h
    simp only [normal, hk, Nat.sub_self, List.replicate_zero, List.append_nil]
    rw [List.map_congr_left fun v hv => ScalarType.normal_of_kind (hitems v hv), List.map_id']
  · exact h.elim

end Step

namespace Codec

variable {order : ByteOrder} {field : String} {type : ScalarType} {bytes rest : List UInt8}
variable {p : Payload}

theorem encodeArray_eq_ok {n : Nat} {items : List Value}
    (h : encodeArray order field type n items = .ok bytes) :
    items.length ≤ n ∧ ∃ parts,
      List.Forall₂ (fun v part => encodeScalar order field type v = .ok part)
        (items ++ List.replicate (n - items.length) Value.zero) parts ∧
      bytes = parts.flatten := by
  unfold encodeArray at h
  split at h
  · cases h
  · rename_i hn
    obtain ⟨parts, hparts, h⟩ := bind_eq_ok_iff.1 h
    cases h
    exact ⟨Nat.le_of_not_lt hn, parts, mapM_eq_ok_iff.1 hparts, rfl⟩

theorem length_of_encodeScalars {items : List Value} {parts : List (List UInt8)}
    (h : List.Forall₂ (fun v part => encodeScalar order field type v = .ok part) items parts) :
    parts.flatten.length = type.width * items.length := by
  induction h with
  | nil => rfl
  | cons hpart _ ih =>
    rw [List.flatten_cons, List.length_append, ih, length_of_encodeScalar hpart, List.length_cons,
      Nat.mul_succ, Nat.add_comm]

theorem decodeArray_encodeScalars {items : List Value} {parts : List (List UInt8)}
    (h : List.Forall₂ (fun v part => encodeScalar order field type v = .ok part) items parts)
    (ho : p.order = order) (hp : p.Ahead (parts.flatten ++ rest)) :
    decodeArray type items.length p =
      .ok (items.map type.normal, p.advance parts.flatten.length) := by
  induction h generalizing p with
  | nil => rfl
  | @cons v part items parts hpart _ ih =>
    subst ho
    rw [List.flatten_cons, List.append_assoc] at hp
    have hv := decodeScalar_encodeScalar hpart hp
    have hitems := ih (p := p.advance part.length) rfl hp.advance
    rw [Payload.advance_advance, ← List.length_append, ← List.flatten_cons] at hitems
    exact bind_eq_ok_iff.2 ⟨_, hv, bind_eq_ok_iff.2 ⟨_, hitems, rfl⟩⟩

/-- An array is read back in its normal form. -/
theorem decodeArray_encodeArray {n : Nat} {items : List Value}
    (h : encodeArray order field type n items = .ok bytes) (ho : p.order = order)
    (hp : p.Ahead (bytes ++ rest)) :
    decodeArray type n p = .ok (items.map type.normal
      ++ List.replicate (n - items.length) type.zero, p.advance bytes.length) := by
  obtain ⟨hn, parts, hparts, rfl⟩ := encodeArray_eq_ok h
  have hread := decodeArray_encodeScalars hparts ho hp
  rw [List.length_append, List.length_replicate, Nat.add_sub_cancel' hn, List.map_append,
    List.map_replicate, ScalarType.normal_zero] at hread
  exact hread

/-- **A step reads back what it wrote**, in its normal form, and nothing of what follows. -/
theorem decodeStep_encodeStep {s : Step} {value? : Option Value}
    (h : encodeStep order s value? = .ok bytes) (ho : p.order = order)
    (hp : p.Ahead (bytes ++ rest)) :
    decodeStep s p = .ok (s.normal value?, p.advance bytes.length) := by
  have htext {n : Nat} {t : String} (hp : p.Ahead (textSlot n t ++ rest)) :
      p.getText n = .ok (slotText (textSlot n t), p.advance (textSlot n t).length) := by
    have hslot := hp.getBytes
    rw [length_textSlot] at hslot ⊢
    exact bind_eq_ok_iff.2 ⟨_, hslot, rfl⟩
  cases hk : s.kind with
  | scalar =>
    simp only [encodeStep, decodeStep, hk] at h ⊢
    rw [decodeScalar_encodeScalar (ho ▸ h) hp]
    cases value? with
    | none => simp [Step.normal, hk, ScalarType.normal_zero]
    | some v => simp [Step.normal, hk]
  | text n =>
    simp only [encodeStep, hk] at h
    split at h
    · cases h
      have hempty : slotText (textSlot n "") = "" :=
        slotText_textSlot (by simp) (by simp [Utf8.encode])
      simp only [decodeStep, Step.normal, hk]
      exact bind_eq_ok_iff.2 ⟨_, htext hp, by rw [hempty]; rfl⟩
    · cases h
      simp only [decodeStep, Step.normal, hk]
      exact bind_eq_ok_iff.2 ⟨_, htext hp, rfl⟩
    · cases h
  | array n =>
    simp only [encodeStep, hk] at h
    split at h
    · simp only [decodeStep, Step.normal, hk]
      exact bind_eq_ok_iff.2 ⟨_, decodeArray_encodeArray h ho hp, by simp [pure, Except.pure]⟩
    · simp only [decodeStep, Step.normal, hk]
      exact bind_eq_ok_iff.2 ⟨_, decodeArray_encodeArray h ho hp, rfl⟩
    · cases h

theorem length_of_encodeStep {s : Step} {value? : Option Value}
    (htext : ∀ n, s.kind = .text n → s.type = .integer .char)
    (h : encodeStep order s value? = .ok bytes) : bytes.length = s.width := by
  have harray {n : Nat} {items : List Value} (hk : s.kind = .array n)
      (h : encodeArray order s.field s.type n items = .ok bytes) : bytes.length = s.width := by
    obtain ⟨hn, parts, hparts, rfl⟩ := encodeArray_eq_ok h
    rw [length_of_encodeScalars hparts, List.length_append, List.length_replicate,
      Nat.add_sub_cancel' hn, Step.width_of_array hk]
  cases hk : s.kind with
  | scalar =>
    simp only [encodeStep, hk] at h
    rw [length_of_encodeScalar h, Step.width_of_scalar hk]
  | text n =>
    have hwidth : s.width = n := Step.width_of_text hk (htext n hk)
    simp only [encodeStep, hk] at h
    split at h
    · cases h
      simp [hwidth]
    · cases h
      simp [hwidth]
    · cases h
  | array n =>
    simp only [encodeStep, hk] at h
    split at h
    · exact harray hk h
    · exact harray hk h
    · cases h

theorem exists_encodeStep (order : ByteOrder) {s : Step} {v : Value} (h : s.Canonical v) :
    ∃ bytes, encodeStep order s (some v) = .ok bytes := by
  unfold Step.Canonical at h
  split at h
  · rename_i hk
    simp only [encodeStep, hk]
    exact exists_encodeScalar order s.field h
  · rename_i hk
    simp only [encodeStep, hk]
    exact ⟨_, rfl⟩
  · rename_i n items hk
    obtain ⟨rfl, hitems⟩ := h
    obtain ⟨parts, hparts⟩ :=
      exists_mapM_eq_ok fun v hv => exists_encodeScalar order s.field (hitems v hv)
    refine ⟨parts.flatten, ?_⟩
    simp only [encodeStep, hk, encodeArray, Nat.lt_irrefl, if_false, Nat.sub_self,
      List.replicate_zero, List.append_nil]
    exact bind_eq_ok_iff.2 ⟨parts, hparts, rfl⟩
  · exact h.elim

/-! ## Payloads -/

theorem encode_eq_ok_iff {plan : LayoutPlan} {values : FieldValues} {version : FrameVersion} :
    encode order plan values version = .ok bytes ↔ ∃ parts,
      List.Forall₂ (fun s part => encodeStep order s (values.get? s.field) = .ok part)
        (plan.stepsFor version) parts ∧ bytes = parts.flatten := by
  rw [encode, bind_eq_ok_iff]
  refine exists_congr fun parts => and_congr mapM_eq_ok_iff ?_
  simp [pure, Except.pure, eq_comm]

/-- Steps read back what they wrote, and nothing of what follows. -/
theorem decodeSteps_encodeSteps {steps : List Step} {parts : List (List UInt8)}
    {values : FieldValues}
    (h : List.Forall₂ (fun s part => encodeStep order s (values.get? s.field) = .ok part)
      steps parts)
    (ho : p.order = order) (hp : p.Ahead (parts.flatten ++ rest)) :
    decodeSteps steps p = .ok (steps.map fun s => (s.field, s.normal (values.get? s.field))) := by
  induction h generalizing p with
  | nil => rfl
  | @cons s part steps parts hpart _ ih =>
    rw [List.flatten_cons, List.append_assoc] at hp
    have hs := decodeStep_encodeStep hpart ho hp
    have hsteps := ih (p := p.advance part.length) ho hp.advance
    exact bind_eq_ok_iff.2 ⟨_, hs, bind_eq_ok_iff.2 ⟨_, hsteps, rfl⟩⟩

theorem length_of_encodeSteps {steps : List Step} {parts : List (List UInt8)}
    {values : FieldValues}
    (htext : ∀ s ∈ steps, ∀ n, s.kind = .text n → s.type = .integer .char)
    (h : List.Forall₂ (fun s part => encodeStep order s (values.get? s.field) = .ok part)
      steps parts) : parts.flatten.length = stepsLength steps := by
  induction h with
  | nil => rfl
  | cons hpart _ ih =>
    rw [List.flatten_cons, List.length_append, stepsLength,
      length_of_encodeStep (htext _ List.mem_cons_self) hpart,
      ih fun s hs => htext s (List.mem_cons_of_mem _ hs)]

theorem length_of_encode {plan : LayoutPlan} {values : FieldValues} {version : FrameVersion}
    (hplan : plan.Sound) (h : encode order plan values version = .ok bytes) :
    bytes.length = plan.payloadLength version := by
  obtain ⟨parts, hparts, rfl⟩ := encode_eq_ok_iff.1 h
  rw [hplan.length version]
  refine length_of_encodeSteps (fun s hs n hn => ?_) hparts
  exact hplan.type_of_text (plan.stepsFor_subset version hs) hn

/-- Decoding undoes encoding up to normal forms. -/
theorem decode_of_encode {plan : LayoutPlan} {values : FieldValues} {version : FrameVersion}
    (h : encode order plan values version = .ok bytes) :
    decode order plan bytes version = .ok ((plan.stepsFor version).map fun s =>
      (s.field, s.normal (values.get? s.field))) := by
  obtain ⟨parts, hparts, rfl⟩ := encode_eq_ok_iff.1 h
  have hahead : (Payload.received parts.flatten order version).Ahead (parts.flatten ++ []) := by
    rw [List.append_nil]
    exact Payload.ahead_received _ order version
  exact decodeSteps_encodeSteps hparts rfl hahead

theorem fields_of_decodeSteps {steps : List Step} {decoded : FieldValues}
    (h : decodeSteps steps p = .ok decoded) : decoded.map (·.1) = steps.map (·.field) := by
  induction steps generalizing p decoded with
  | nil =>
    cases h
    rfl
  | cons s steps ih =>
    obtain ⟨⟨v, p'⟩, -, h⟩ := bind_eq_ok_iff.1 h
    obtain ⟨values, hvalues, h⟩ := bind_eq_ok_iff.1 h
    cases h
    rw [List.map_cons, List.map_cons, ih hvalues]

end Codec

theorem FieldValues.get?_eq_none {values : FieldValues} {field : String}
    (h : field ∉ values.map (·.1)) : values.get? field = none := by
  rw [FieldValues.get?, List.lookup_eq_none_iff]
  intro e he
  simp only [bne_iff_ne, ne_eq]
  rintro rfl
  exact h (List.mem_map_of_mem he)

theorem FieldValues.get?_map_steps {steps : List Step} (f : Step → Value)
    (hnodup : (steps.map (·.field)).Nodup) {s : Step} (hs : s ∈ steps) :
    FieldValues.get? (steps.map fun s => (s.field, f s)) s.field = some (f s) := by
  induction steps with
  | nil => cases hs
  | cons s' steps ih =>
    rw [List.map_cons, List.nodup_cons] at hnodup
    rcases List.mem_cons.1 hs with rfl | hs
    · simp [FieldValues.get?]
    · have hne : s.field ≠ s'.field := fun h => hnodup.1 (h ▸ List.mem_map_of_mem hs)
      have hbeq : (s.field == s'.field) = false := by simpa using hne
      rw [List.map_cons, FieldValues.get?, List.lookup_cons, hbeq]
      exact ih hnodup.2 hs

/-- The values of the fields that steps are for. -/
def FieldValues.restrict (values : FieldValues) (steps : List Step) : FieldValues :=
  values.filter fun entry => entry.1 ∈ steps.map (·.field)

theorem FieldValues.get?_restrict (values : FieldValues) (steps : List Step) (field : String) :
    (values.restrict steps).get? field =
      if field ∈ steps.map (·.field) then values.get? field else none := by
  induction values with
  | nil => simp [restrict, FieldValues.get?]
  | cons entry values ih =>
    obtain ⟨name, v⟩ := entry
    by_cases hname : name ∈ steps.map (·.field)
    · have hcons : restrict ((name, v) :: values) steps = (name, v) :: restrict values steps :=
        List.filter_cons_of_pos (by simpa using hname)
      rw [hcons, FieldValues.get?, FieldValues.get?, List.lookup_cons, List.lookup_cons]
      split
      · rename_i heq
        rw [beq_iff_eq.1 heq, if_pos hname]
      · exact ih
    · have hcons : restrict ((name, v) :: values) steps = restrict values steps :=
        List.filter_cons_of_neg (by simpa using hname)
      rw [hcons, ih]
      split
      · rename_i hfield
        have hne : (field == name) = false := by
          simpa using fun h : field = name => hname (h ▸ hfield)
        rw [FieldValues.get?, FieldValues.get?, List.lookup_cons, hne]
      · rfl

/-- Every step has a value of those that it decodes to. -/
def FieldValues.Canonical (values : FieldValues) (steps : List Step) : Prop :=
  ∀ s ∈ steps, ∃ v, values.get? s.field = some v ∧ s.Canonical v

/-- Canonical values can be encoded, and come back as they are. -/
theorem Codec.exists_encode {plan : LayoutPlan} {values : FieldValues} {version : FrameVersion}
    (hplan : plan.Sound) (order : ByteOrder) (h : values.Canonical (plan.stepsFor version)) :
    ∃ bytes decoded, encode order plan values version = .ok bytes ∧
      decode order plan bytes version = .ok decoded ∧
      ∀ field, decoded.get? field = (values.restrict (plan.stepsFor version)).get? field := by
  have hsteps : ∀ s ∈ plan.stepsFor version,
      ∃ part, encodeStep order s (values.get? s.field) = .ok part := by
    intro s hs
    obtain ⟨v, hv, hcanon⟩ := h s hs
    rw [hv]
    exact exists_encodeStep order hcanon
  obtain ⟨parts, hparts⟩ := exists_mapM_eq_ok hsteps
  have hbytes : encode order plan values version = .ok parts.flatten :=
    encode_eq_ok_iff.2 ⟨parts, mapM_eq_ok_iff.1 hparts, rfl⟩
  refine ⟨_, _, hbytes, decode_of_encode hbytes, fun field => ?_⟩
  rw [FieldValues.get?_restrict]
  split
  · rename_i hfield
    obtain ⟨s, hs, rfl⟩ := List.mem_map.1 hfield
    obtain ⟨v, hv, hcanon⟩ := h s hs
    rw [FieldValues.get?_map_steps _ (hplan.nodup_stepsFor version) hs, hv,
      Step.normal_of_canonical hcanon]
  · rename_i hfield
    exact FieldValues.get?_eq_none (by simpa using hfield)

/-- **Payloads come back.** Whatever values a payload was encoded from, it decodes to one value for
each field of the frame version, the normal form of the value given. Canonical values are encoded
without fault and come back as they are, so far as the version has their fields, and legacy payloads
never give an extension field. -/
theorem decode_encode {id : Nat} {name : String} {fields : List Field}
    {extensionsStart : Option Nat} {flags : DialectFlags} {m : Message} {sorted : Bool}
    {plan : LayoutPlan} (hm : Message.declare id name fields extensionsStart flags = .ok m)
    (hp : LayoutPlan.ofMessage m sorted = .ok plan) (order : ByteOrder) (version : FrameVersion) :
    (∀ values bytes, Codec.encode order plan values version = .ok bytes →
      ∃ decoded, Codec.decode order plan bytes version = .ok decoded ∧
        decoded.map (·.1) = (plan.stepsFor version).map (·.field) ∧
        ∀ s ∈ plan.stepsFor version,
          decoded.get? s.field = some (s.normal (values.get? s.field))) ∧
    (∀ values : FieldValues, values.Canonical (plan.stepsFor version) →
      ∃ bytes decoded, Codec.encode order plan values version = .ok bytes ∧
        Codec.decode order plan bytes version = .ok decoded ∧
        ∀ field, decoded.get? field = (values.restrict (plan.stepsFor version)).get? field) ∧
    (∀ payload decoded, Codec.decode order plan payload .legacy = .ok decoded →
      ∀ s ∈ plan.extensionSteps, decoded.get? s.field = none) := by
  have hplan := LayoutPlan.Sound.of_declare hm hp
  refine ⟨fun values bytes h => ?_, fun values h => Codec.exists_encode hplan order h, ?_⟩
  · have hdecode := Codec.decode_of_encode h
    refine ⟨_, hdecode, Codec.fields_of_decodeSteps hdecode, fun s hs => ?_⟩
    exact FieldValues.get?_map_steps _ (hplan.nodup_stepsFor version) hs
  · intro payload decoded h s hs
    have hfields : decoded.map (·.1) = plan.baseSteps.map (·.field) :=
      Codec.fields_of_decodeSteps h
    refine FieldValues.get?_eq_none fun hmem => ?_
    have hnodup := hplan.nodup
    rw [LayoutPlan.steps, List.map_append, List.nodup_append] at hnodup
    exact hnodup.2.2 _ (hfields ▸ hmem) _ (List.mem_map_of_mem hs) rfl

/-- A message with a number, a text, an array and an extension. -/
def Message.reading : Message where
  id := 300
  name := "READING"
  fields := [⟨"time", "uint32_t", 0, none⟩, ⟨"label", "char", 3, none⟩,
    ⟨"axes", "int16_t", 3, none⟩, ⟨"gain", "float", 0, none⟩]
  extensionsStart := some 3
  fingerprint := 177
  baseLength := 13
  fullLength := 17

/-- The plan of `Message.reading`, the array before the text. -/
def LayoutPlan.reading : LayoutPlan where
  id := 300
  name := "READING"
  baseSteps := [⟨"time", 0, .integer .u32, .scalar, 0⟩, ⟨"axes", 2, .integer .i16, .array 3, 4⟩,
    ⟨"label", 1, .integer .char, .text 3, 10⟩]
  extensionSteps := [⟨"gain", 3, .float, .scalar, 13⟩]
  baseLength := 13
  fullLength := 17

/-- A reading with an integer of another kind, a text too long for its slot, a short list and no
value for the extension. -/
theorem decode_encode_reading :
    Message.declare 300 "READING" Message.reading.fields (some 3) {} = .ok Message.reading ∧
    LayoutPlan.ofMessage Message.reading true = .ok LayoutPlan.reading ∧
    ∃ bytes decoded,
      Codec.encode .big LayoutPlan.reading [("time", .integer .i8 7 (by decide)),
        ("label", .text "north"), ("axes", .list [.integer .i32 (-2) (by decide)])] .extended =
        .ok bytes ∧
      Codec.decode .big LayoutPlan.reading bytes .extended = .ok decoded ∧
      decoded.get? "time" = some (.integer .u32 7 (by decide)) ∧
      decoded.get? "label" = some (.text "nor") ∧
      decoded.get? "axes" = some (.list [.integer .i16 (-2) (by decide),
        .integer .i16 0 (by decide), .integer .i16 0 (by decide)]) ∧
      decoded.get? "gain" = some (.float ⟨0⟩) := by
  have hm : Message.declare 300 "READING" Message.reading.fields (some 3) {} =
      .ok Message.reading := by decide +kernel
  have hp : LayoutPlan.ofMessage Message.reading true = .ok LayoutPlan.reading := rfl
  have hbytes : Codec.encode .big LayoutPlan.reading [("time", .integer .i8 7 (by decide)),
      ("label", .text "north"), ("axes", .list [.integer .i32 (-2) (by decide)])] .extended =
      .ok [0, 0, 0, 7, 255, 254, 0, 0, 0, 0, 110, 111, 114, 0, 0, 0, 0] := rfl
  obtain ⟨decoded, hd, -, hget⟩ := (decode_encode hm hp .big .extended).1 _ _ hbytes
  refine ⟨hm, hp, _, decoded, hbytes, hd, ?_, ?_, ?_, ?_⟩
  · exact hget ⟨"time", 0, .integer .u32, .scalar, 0⟩ (by decide)
  · have hslot : slotText (textSlot 3 "north") = "nor" := by decide +kernel
    rw [← hslot]
    exact hget ⟨"label", 1, .integer .char, .text 3, 10⟩ (by decide)
  · exact hget ⟨"axes", 2, .integer .i16, .array 3, 4⟩ (by decide)
  · exact hget ⟨"gain", 3, .float, .scalar, 13⟩ (by decide)

end Telemetry
