import Telemetry.Proofs.RoundTrip

/-!
# The values that can be encoded

Which values a step takes for its field, and what is said of those that it does not take.

* `ScalarType.Accepts`, `Step.Accepts`: the values that a type, and a step, can be given.
* `ScalarType.fault`, `Step.Rejects`: the fault of any other value.
* `Codec.exists_encodeStep_iff`, `Codec.encodeStep_eq_error_iff`: encoding a step follows these.
* `encode_decides`: so does encoding a payload, where the first fault in wire order counts.
-/

namespace Telemetry

/-! ## Numbers -/

/-- No integer of any kind is below the signed words of 64 bits. -/
theorem IntKind.holds_i64_iff (k : IntKind) {n : Int} (h : k.Holds n) :
    IntKind.i64.Holds n ↔ n ≤ IntKind.i64.high := by
  have hlow : IntKind.i64.low ≤ k.low := by cases k <;> decide
  exact ⟨And.right, fun hhigh => ⟨Int.le_trans hlow h.1, hhigh⟩⟩

/-- Whether a value is a number that a type of binary numbers can be given: a binary number, or an
integer up to the greatest signed word of 64 bits. -/
def Value.IsNumber (v : Value) : Prop :=
  v.kind = .float ∨ v.kind = .double ∨ ∃ n, v.toInt? = some n ∧ n ≤ IntKind.i64.high

theorem Value.isNumber_iff {v : Value} : v.IsNumber ↔ v.toBinary64?.isSome := by
  cases v with
  | integer k n holds =>
    have hword : (integer k n holds).toBinary64? = (IntKind.i64.fit? n).map .ofInt := by
      simp only [toBinary64?, toInt64?_eq, toInt?, Option.bind_some]
    simp [hword, IsNumber, kind, toInt?, IntKind.fit?, k.holds_i64_iff holds]
  | _ => simp [IsNumber, kind, toInt?, toBinary64?, toInt64?]

theorem Value.isSome_toBinary32? (v : Value) : v.toBinary32?.isSome = v.toBinary64?.isSome := by
  cases v <;> simp [toBinary32?, toBinary64?]

/-! ## Single values -/

namespace ScalarType

/-- Whether a type can be given a value: an integer in its range, of whatever kind, or a number if
the type is one of binary numbers. -/
def Accepts (t : ScalarType) (v : Value) : Prop :=
  match t.intKind? with
  | some k => ∃ n, v.toInt? = some n ∧ k.Holds n
  | none => v.IsNumber

/-- The fault of a value that a type is not to be given: an integer is out of the range of a type of
integers, and all else is of the wrong sort. -/
def fault (t : ScalarType) (field : String) (v : Value) : CodecError :=
  if t.intKind?.isSome ∧ v.toInt?.isSome then .outOfRange field t
  else .typeMismatch field t v.kind

theorem accepts_iff {t : ScalarType} {v : Value} :
    t.Accepts v ↔
      t.intKind?.elim v.toBinary64?.isSome fun k => v.toInt?.any fun n => k.Holds n := by
  unfold Accepts
  cases t.intKind? with
  | none => exact v.isNumber_iff
  | some k => simp [Option.any_eq_true]

instance (t : ScalarType) (v : Value) : Decidable (t.Accepts v) :=
  decidable_of_iff _ accepts_iff.symm

theorem accepts_zero (t : ScalarType) : t.Accepts Value.zero := by
  cases t with
  | float => exact .inr (.inr ⟨0, rfl, by decide⟩)
  | double => exact .inr (.inr ⟨0, rfl, by decide⟩)
  | integer k => exact ⟨0, rfl, k.holds_zero⟩
  | version => exact ⟨0, rfl, IntKind.holds_zero .u8⟩

end ScalarType

namespace Codec

variable {order : ByteOrder} {field : String} {t : ScalarType} {v : Value} {e : CodecError}

/-- A computation that ends without fault if `P`, and with the fault `e` if not. -/
def Settles {α : Type} (P : Prop) (e : CodecError) (x : Except CodecError α) : Prop :=
  (P ∧ ∃ a, x = .ok a) ∨ (¬ P ∧ x = .error e)

theorem settles_encodeInt {k : IntKind} (hk : t.intKind? = some k) :
    Settles (t.Accepts v) (t.fault field v) (encodeInt order field t k v) := by
  simp only [ScalarType.Accepts, ScalarType.fault, encodeInt, integer_eq_judge, judge, hk]
  cases hv : v.toInt? with
  | none => exact .inr (by simp)
  | some n =>
    by_cases hn : k.Holds n
    · exact .inl (by simp [hn])
    · exact .inr (by simp [hn])

theorem settles_encodeScalar (order : ByteOrder) (field : String) (t : ScalarType) (v : Value) :
    Settles (t.Accepts v) (t.fault field v) (encodeScalar order field t v) := by
  cases t with
  | float =>
    simp only [ScalarType.Accepts, ScalarType.fault, ScalarType.intKind?, encodeScalar,
      Value.isNumber_iff, ← v.isSome_toBinary32?]
    cases v.toBinary32? with
    | none => exact .inr (by simp)
    | some x => exact .inl (by simp)
  | double =>
    simp only [ScalarType.Accepts, ScalarType.fault, ScalarType.intKind?, encodeScalar,
      Value.isNumber_iff]
    cases v.toBinary64? with
    | none => exact .inr (by simp)
    | some x => exact .inl (by simp)
  | integer k => exact settles_encodeInt rfl
  | version => exact settles_encodeInt (t := .version) rfl

theorem exists_encodeScalar_iff :
    (∃ bytes, encodeScalar order field t v = .ok bytes) ↔ t.Accepts v := by
  rcases settles_encodeScalar order field t v with h | h
  · exact ⟨fun _ => h.1, fun _ => h.2⟩
  · simp [h]

theorem encodeScalar_eq_error_iff :
    encodeScalar order field t v = .error e ↔ ¬ t.Accepts v ∧ e = t.fault field v := by
  rcases settles_encodeScalar order field t v with h | h
  · obtain ⟨haccepts, bytes, hbytes⟩ := h
    simp [haccepts, hbytes]
  · simp [h, eq_comm]

/-! ## Arrays -/

/-- An array that is not too long is as good as its items, for zeros can always be encoded. -/
theorem encodeArray_of_le (order : ByteOrder) (field : String) (t : ScalarType) {n : Nat}
    {items : List Value} (h : items.length ≤ n) :
    ∃ zeros, encodeArray order field t n items = do
      let parts ← items.mapM (encodeScalar order field t)
      return (parts ++ zeros).flatten := by
  have hzero : ∀ v ∈ List.replicate (n - items.length) Value.zero,
      ∃ bytes, encodeScalar order field t v = .ok bytes := by
    intro v hv
    rw [List.eq_of_mem_replicate hv]
    exact exists_encodeScalar_iff.2 t.accepts_zero
  obtain ⟨zeros, hzeros⟩ := exists_mapM_eq_ok hzero
  refine ⟨zeros, ?_⟩
  rw [encodeArray, if_neg (Nat.not_lt.2 h), List.mapM_append, hzeros, bind_assoc]
  rfl

theorem exists_encodeArray_iff {n : Nat} {items : List Value} :
    (∃ bytes, encodeArray order field t n items = .ok bytes) ↔
      items.length ≤ n ∧ ∀ item ∈ items, t.Accepts item := by
  by_cases hn : items.length ≤ n
  · obtain ⟨zeros, hzeros⟩ := encodeArray_of_le order field t hn
    simp only [hn, true_and, hzeros, exists_bind_pure_iff, exists_mapM_iff,
      exists_encodeScalar_iff]
  · simp [encodeArray, hn, Nat.lt_of_not_le hn]

/-- The fault of an array that is too long, or of its first item that has one. -/
theorem encodeArray_eq_error_iff {n : Nat} {items : List Value} :
    encodeArray order field t n items = .error e ↔
      (n < items.length ∧ e = .tooManyElements field items.length n) ∨
      (items.length ≤ n ∧ ∃ before item after, items = before ++ item :: after ∧
        (∀ x ∈ before, t.Accepts x) ∧ ¬ t.Accepts item ∧ e = t.fault field item) := by
  by_cases hn : items.length ≤ n
  · obtain ⟨zeros, hzeros⟩ := encodeArray_of_le order field t hn
    simp only [hzeros, bind_pure_eq_error_iff, mapM_eq_error_iff, exists_encodeScalar_iff,
      encodeScalar_eq_error_iff, hn, Nat.not_lt.2 hn, true_and, false_and, false_or]
  · simp [encodeArray, hn, Nat.lt_of_not_le hn, eq_comm]

end Codec

/-! ## Steps -/

namespace Step

/-- Whether a step can be given a value: one that its type accepts, any text, or a list that is not
too long, of items that its type accepts. -/
def Accepts (s : Step) (v : Value) : Prop :=
  match s.kind with
  | .scalar => s.type.Accepts v
  | .text _ => ∃ text, v = .text text
  | .array n => ∃ items, v = .list items ∧ items.length ≤ n ∧ ∀ item ∈ items, s.type.Accepts item

/-- The fault of a value that a step is not to be given. The length of a list comes first, and then
its items one after the other. -/
inductive Rejects (s : Step) : Value → CodecError → Prop where
  | single {v : Value} (hk : s.kind = .scalar) (hv : ¬ s.type.Accepts v) :
    s.Rejects v (s.type.fault s.field v)
  | notText {n : Nat} {v : Value} (hk : s.kind = .text n) (hv : ∀ text, v ≠ .text text) :
    s.Rejects v (.typeMismatch s.field s.type v.kind)
  | notList {n : Nat} {v : Value} (hk : s.kind = .array n) (hv : ∀ items, v ≠ .list items) :
    s.Rejects v (.typeMismatch s.field s.type v.kind)
  | tooMany {n : Nat} {items : List Value} (hk : s.kind = .array n) (hlen : n < items.length) :
    s.Rejects (.list items) (.tooManyElements s.field items.length n)
  | item {n : Nat} {before after : List Value} {v : Value} (hk : s.kind = .array n)
    (hlen : (before ++ v :: after).length ≤ n) (hbefore : ∀ x ∈ before, s.type.Accepts x)
    (hv : ¬ s.type.Accepts v) :
    s.Rejects (.list (before ++ v :: after)) (s.type.fault s.field v)

end Step

namespace Codec

variable {order : ByteOrder} {s : Step} {value? : Option Value} {e : CodecError}

/-- A step can be encoded if it is given no value, or one that it accepts. -/
theorem exists_encodeStep_iff :
    (∃ bytes, encodeStep order s value? = .ok bytes) ↔ ∀ v ∈ value?, s.Accepts v := by
  cases hk : s.kind with
  | scalar =>
    simp only [encodeStep, Step.Accepts, hk, exists_encodeScalar_iff]
    cases value? with
    | none => simp [s.type.accepts_zero]
    | some v => simp
  | text n =>
    simp only [encodeStep, Step.Accepts, hk]
    cases value? with
    | none => simp
    | some v => cases v <;> simp
  | array n =>
    simp only [encodeStep, Step.Accepts, hk]
    cases value? with
    | none => simp [exists_encodeArray_iff]
    | some v => cases v <;> simp [exists_encodeArray_iff]

theorem encodeStep_notText {n : Nat} {v : Value} (hk : s.kind = .text n)
    (hv : ∀ text, v ≠ .text text) :
    encodeStep order s (some v) = .error (.typeMismatch s.field s.type v.kind) := by
  cases v with
  | text text => exact absurd rfl (hv text)
  | _ => simp only [encodeStep, hk]

theorem encodeStep_notList {n : Nat} {v : Value} (hk : s.kind = .array n)
    (hv : ∀ items, v ≠ .list items) :
    encodeStep order s (some v) = .error (.typeMismatch s.field s.type v.kind) := by
  cases v with
  | list items => exact absurd rfl (hv items)
  | _ => simp only [encodeStep, hk]

theorem encodeStep_list {n : Nat} {items : List Value} (hk : s.kind = .array n) :
    encodeStep order s (some (.list items)) = encodeArray order s.field s.type n items := by
  simp only [encodeStep, hk]

/-- A fault of a step is said of its value, as there is none if no value is given. -/
theorem rejects_of_encodeStep (h : encodeStep order s value? = .error e) :
    ∃ v ∈ value?, s.Rejects v e := by
  have hfails : ¬ ∀ v ∈ value?, s.Accepts v := by
    intro haccepts
    obtain ⟨bytes, hbytes⟩ : ∃ bytes, encodeStep order s value? = .ok bytes :=
      exists_encodeStep_iff.2 haccepts
    rw [hbytes] at h
    cases h
  cases value? with
  | none => exact absurd (fun v hv => by cases hv) hfails
  | some v =>
    refine ⟨v, rfl, ?_⟩
    cases hk : s.kind with
    | scalar =>
      simp only [encodeStep, hk, Option.getD_some] at h
      obtain ⟨hv, rfl⟩ := encodeScalar_eq_error_iff.1 h
      exact .single hk hv
    | text n =>
      have hv : ∀ text, v ≠ .text text := by
        rintro text rfl
        exact hfails (by simp [Step.Accepts, hk])
      rw [encodeStep_notText hk hv] at h
      cases h
      exact .notText hk hv
    | array n =>
      by_cases hv : ∃ items, v = .list items
      · obtain ⟨items, rfl⟩ := hv
        rw [encodeStep_list hk] at h
        rcases encodeArray_eq_error_iff.1 h with
          ⟨hlen, rfl⟩ | ⟨hlen, _, _, _, rfl, hbefore, hv, rfl⟩
        · exact .tooMany hk hlen
        · exact .item hk hlen hbefore hv
      · rw [encodeStep_notList hk (not_exists.1 hv)] at h
        cases h
        exact .notList hk (not_exists.1 hv)

/-- A step fails if it is given a value that it rejects, and with that fault. -/
theorem encodeStep_eq_error_iff :
    encodeStep order s value? = .error e ↔ ∃ v ∈ value?, s.Rejects v e := by
  refine ⟨rejects_of_encodeStep, ?_⟩
  rintro ⟨v, hv, hrejects⟩
  cases hv
  cases hrejects with
  | single hk hv =>
    simp only [encodeStep, hk, Option.getD_some]
    exact encodeScalar_eq_error_iff.2 ⟨hv, rfl⟩
  | notText hk hv => exact encodeStep_notText hk hv
  | notList hk hv => exact encodeStep_notList hk hv
  | tooMany hk hlen =>
    rw [encodeStep_list hk]
    exact encodeArray_eq_error_iff.2 (.inl ⟨hlen, rfl⟩)
  | item hk hlen hbefore hv =>
    rw [encodeStep_list hk]
    exact encodeArray_eq_error_iff.2 (.inr ⟨hlen, _, _, _, rfl, hbefore, hv, rfl⟩)

end Codec

/-- **Encoding takes the values of its domain, and tells the first fault of any others.** A payload
is encoded exactly if each step of the frame version is given no value or one that it accepts. The
fault is that of the first step in wire order whose value is not accepted. Values for other fields
than those of the frame version do not matter. -/
theorem encode_decides (order : ByteOrder) (plan : LayoutPlan) (values : FieldValues)
    (version : FrameVersion) :
    ((∃ bytes, Codec.encode order plan values version = .ok bytes) ↔
      ∀ s ∈ plan.stepsFor version, ∀ v ∈ values.get? s.field, s.Accepts v) ∧
    (∀ e, Codec.encode order plan values version = .error e ↔
      ∃ before s after, plan.stepsFor version = before ++ s :: after ∧
        (∀ s' ∈ before, ∀ v ∈ values.get? s'.field, s'.Accepts v) ∧
        ∃ v ∈ values.get? s.field, s.Rejects v e) ∧
    (∀ values' : FieldValues,
      (∀ s ∈ plan.stepsFor version, values'.get? s.field = values.get? s.field) →
        Codec.encode order plan values' version = Codec.encode order plan values version) := by
  refine ⟨?_, fun e => ?_, fun values' h => ?_⟩
  · simp only [Codec.encode, exists_bind_pure_iff, exists_mapM_iff, Codec.exists_encodeStep_iff]
  · simp only [Codec.encode, bind_pure_eq_error_iff, mapM_eq_error_iff,
      Codec.exists_encodeStep_iff, Codec.encodeStep_eq_error_iff]
  · rw [Codec.encode, Codec.encode, mapM_congr fun s hs => by rw [h s hs]]

/-- A plan of single values, at the ends of whose ranges integers of other kinds lie. -/
def LayoutPlan.limits : LayoutPlan where
  id := 301
  name := "LIMITS"
  baseSteps := [⟨"count", 0, .integer .u64, .scalar, 0⟩, ⟨"offset", 1, .integer .i64, .scalar, 8⟩,
    ⟨"ratio", 2, .double, .scalar, 16⟩, ⟨"level", 3, .integer .u8, .scalar, 24⟩]
  extensionSteps := []
  baseLength := 25
  fullLength := 25

/-- Integers at either end of a range are taken in whatever kind they come, and those behind it are
not: words of 64 bits that are too great for a signed field or for a number, negative integers for
an unsigned field, and those that are too great for a byte. -/
theorem encode_decides_limits :
    let extremes : FieldValues := [("count", .integer .u64 18446744073709551615 (by decide)),
      ("offset", .integer .i64 (-9223372036854775808) (by decide)),
      ("ratio", .integer .u64 9223372036854775807 (by decide)),
      ("level", .integer .i64 255 (by decide))]
    Codec.encode .little .limits extremes .extended = .ok
      [255, 255, 255, 255, 255, 255, 255, 255, 0, 0, 0, 0, 0, 0, 0, 128, 0, 0, 0, 0, 0, 0, 224, 67,
        255] ∧
    (∀ s ∈ LayoutPlan.limits.stepsFor .extended, ∀ v ∈ extremes.get? s.field, s.Accepts v) ∧
    Codec.encode .little .limits [("offset", .integer .u64 9223372036854775808 (by decide))]
      .extended = .error (.outOfRange "offset" (.integer .i64)) ∧
    Codec.encode .little .limits [("count", .integer .i8 (-1) (by decide))] .extended =
      .error (.outOfRange "count" (.integer .u64)) ∧
    Codec.encode .little .limits [("ratio", .integer .u64 9223372036854775808 (by decide))]
      .extended = .error (.typeMismatch "ratio" .double (.integer .u64)) ∧
    Codec.encode .little .limits [("level", .integer .u16 256 (by decide))] .extended =
      .error (.outOfRange "level" (.integer .u8)) := by
  intro extremes
  have hfault (before : List Step) (s : Step) (after : List Step) (v : Value)
      (hsteps : LayoutPlan.limits.stepsFor .extended = before ++ s :: after)
      (hbefore : ∀ s' ∈ before, s'.field ≠ s.field) (hkind : s.kind = .scalar)
      (hv : ¬ s.type.Accepts v) :
      Codec.encode .little .limits [(s.field, v)] .extended =
        .error (s.type.fault s.field v) := by
    obtain ⟨-, hfaults, -⟩ := encode_decides .little .limits [(s.field, v)] .extended
    refine (hfaults _).2 ⟨before, s, after, hsteps, ?_, v, ?_, .single hkind hv⟩
    · intro s' hs' v' hv'
      simp [FieldValues.get?, List.lookup_cons, beq_false_of_ne (hbefore s' hs')] at hv'
    · simp [FieldValues.get?]
  have hbytes : Codec.encode .little .limits extremes .extended = .ok
      [255, 255, 255, 255, 255, 255, 255, 255, 0, 0, 0, 0, 0, 0, 0, 128, 0, 0, 0, 0, 0, 0, 224, 67,
        255] := rfl
  let count : Step := ⟨"count", 0, .integer .u64, .scalar, 0⟩
  let offset : Step := ⟨"offset", 1, .integer .i64, .scalar, 8⟩
  let ratio : Step := ⟨"ratio", 2, .double, .scalar, 16⟩
  let level : Step := ⟨"level", 3, .integer .u8, .scalar, 24⟩
  refine ⟨hbytes, (encode_decides _ _ _ _).1.1 ⟨_, hbytes⟩, ?_, ?_, ?_, ?_⟩
  · exact hfault [count] offset [ratio, level] _ rfl (by decide) rfl (by decide)
  · exact hfault [] count [offset, ratio, level] _ rfl (by decide) rfl (by decide)
  · exact hfault [count, offset] ratio [level] _ rfl (by decide) rfl (by decide)
  · exact hfault [count, offset, ratio] level [] _ rfl (by decide) rfl (by decide)

/-- Three faults at once: the list is first in wire order, and its length comes before its items. -/
example : Codec.encode .big LayoutPlan.reading
    [("label", .float ⟨0⟩), ("gain", .text "high"),
      ("axes", .list [.text "x", .text "y", .text "z", .text "w"])] .extended =
    .error (.tooManyElements "axes" 4 3) := rfl

end Telemetry
