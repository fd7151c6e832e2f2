import Telemetry.Proofs.StableOrder

/-!
# Which messages can be declared

Declaring a message makes five checks, and the first that fails is the fault. The last is that of
the payload length. It is made on a sum that does not go beyond `maxLength`, which no sum that fits
a frame reaches, so that it decides as the exact sum does.

* `Field.size`, `payloadSize`: the exact number of bytes of fields.
* `WireOrder.fullLength_eq`, `WireOrder.baseLength_eq`: the sums that are checked and declared.
* `Message.Accepts`, `Message.Rejects`: the definitions that can be declared, and the faults of the
  others.
* `Message.Seals`: what a declared message has of its definition.
* `declare_decides`: the outcome of every declaration.
-/

namespace Telemetry

/-! ## Lengths -/

/-- The bytes of a field on the wire, however many these are. -/
def Field.size (f : Field) : Nat := f.width?.getD 0 * max 1 f.arrayLength

/-- The bytes of fields on the wire, however many these are. -/
def payloadSize : List Field → Nat
  | [] => 0
  | f :: rest => f.size + payloadSize rest

theorem payloadSize_perm {xs ys : List Field} (h : xs.Perm ys) : payloadSize xs = payloadSize ys := by
  induction h with
  | nil => rfl
  | cons f _ ih => rw [payloadSize, payloadSize, ih]
  | swap f g rest =>
    simp only [payloadSize]
    omega
  | trans _ _ ih ih' => exact ih.trans ih'

theorem Field.size_le_payloadSize {f : Field} {fields : List Field} (hf : f ∈ fields) :
    f.size ≤ payloadSize fields := by
  induction fields with
  | nil => cases hf
  | cons g rest ih =>
    rw [payloadSize]
    rcases List.mem_cons.1 hf with rfl | hf
    · exact Nat.le_add_right _ _
    · exact Nat.le_trans (ih hf) (Nat.le_add_left _ _)

theorem payloadSize_append (xs ys : List Field) :
    payloadSize (xs ++ ys) = payloadSize xs + payloadSize ys := by
  induction xs with
  | nil => simp [payloadSize]
  | cons f xs ih => simp [payloadSize, ih, Nat.add_assoc]

theorem Field.arrayLength_le_size {f : Field} (hf : ∃ t, ScalarType.ofTag? f.tag = some t) :
    f.arrayLength ≤ f.size := by
  obtain ⟨t, ht⟩ := hf
  simp only [size, width?, ht, Option.map_some, Option.getD_some]
  exact Nat.le_trans (Nat.le_max_right _ _) (Nat.le_mul_of_pos_left _ t.width_pos)

/-- The length that is added up is the exact one, up to `maxLength`. -/
theorem fieldsLength_eq_payloadSize {os : List OrderedField}
    (h : ∀ o ∈ os, ScalarType.ofTag? o.field.tag = some o.type) :
    fieldsLength os = min (payloadSize (os.map (·.field))) maxLength := by
  induction os with
  | nil => rfl
  | cons o os ih =>
    have hsize : o.field.size = o.size := by
      simp [Field.size, Field.width?, h o List.mem_cons_self, OrderedField.size, Nat.max_comm]
    rw [fieldsLength, ih fun o ho => h o (List.mem_cons_of_mem _ ho), List.map_cons, payloadSize,
      hsize]
    omega

namespace WireOrder

variable {message : String} {fields : List Field} {start : Option Nat} {sorted : Bool}
  {order : WireOrder}

theorem fullLength_eq (h : wireOrder message fields start sorted = .ok order) :
    order.fullLength = min (payloadSize fields) maxLength := by
  have htypes : ∀ o ∈ order.all, ScalarType.ofTag? o.field.tag = some o.type :=
    fun o ho => ((stable_of_wireOrder h).stands o ho).2
  rw [fullLength, fieldsLength_eq_payloadSize htypes, payloadSize_perm (wireOrder_perm h)]

theorem base_perm (h : wireOrder message fields start sorted = .ok order) :
    (order.base.map (·.field)).Perm (fields.take (splitIndex start fields.length)) := by
  obtain ⟨base, extension, hbase, -, rfl⟩ := wireOrder_eq_ok_iff.1 h
  have hfields := fields_of_resolveFields hbase
  rw [List.map_take, List.zipIdx_map_fst] at hfields
  rw [← hfields]
  exact (arrange_perm sorted base).map _

theorem baseLength_eq (h : wireOrder message fields start sorted = .ok order) :
    order.baseLength =
      min (payloadSize (fields.take (splitIndex start fields.length))) maxLength := by
  have htypes : ∀ o ∈ order.base, ScalarType.ofTag? o.field.tag = some o.type :=
    fun o ho => ((stable_of_wireOrder h).stands o (List.mem_append_left _ ho)).2
  rw [baseLength, fieldsLength_eq_payloadSize htypes, payloadSize_perm (base_perm h)]

end WireOrder

/-! ## Names -/

/-- The first name that was seen before, elsewhere or among the names before it. -/
theorem firstRepeat?_eq_some_iff {seen names : List String} {x : String} :
    firstRepeat? seen names = some x ↔ ∃ before after, names = before ++ x :: after ∧
      before.Nodup ∧ (∀ y ∈ before, y ∉ seen) ∧ (x ∈ seen ∨ x ∈ before) := by
  constructor
  · intro h
    induction names generalizing seen with
    | nil => cases h
    | cons y rest ih =>
      rw [firstRepeat?] at h
      by_cases hy : y ∈ seen
      · rw [if_pos hy] at h
        cases h
        exact ⟨[], rest, rfl, List.nodup_nil, by simp, .inl hy⟩
      · rw [if_neg hy] at h
        obtain ⟨before, after, rfl, hnodup, hnew, hx⟩ := ih h
        have hfresh : y ∉ before := fun hmem => hnew y hmem List.mem_cons_self
        refine ⟨y :: before, after, rfl, List.nodup_cons.2 ⟨hfresh, hnodup⟩, ?_, ?_⟩
        · rintro z hz hseen
          rcases List.mem_cons.1 hz with rfl | hz
          · exact hy hseen
          · exact hnew z hz (List.mem_cons_of_mem _ hseen)
        · simp only [List.mem_cons] at hx ⊢
          tauto
  · rintro ⟨before, after, rfl, hnodup, hnew, hx⟩
    induction before generalizing seen with
    | nil =>
      have hseen : x ∈ seen := by simpa using hx
      rw [List.nil_append, firstRepeat?, if_pos hseen]
    | cons y before ih =>
      obtain ⟨hfresh, hnodup⟩ := List.nodup_cons.1 hnodup
      rw [List.cons_append, firstRepeat?, if_neg (hnew y List.mem_cons_self)]
      refine ih hnodup (fun z hz hseen => ?_) ?_
      · rcases List.mem_cons.1 hseen with rfl | hseen
        · exact hfresh hz
        · exact hnew z (List.mem_cons_of_mem _ hz) hseen
      · simp only [List.mem_cons] at hx ⊢
        tauto

/-- The name of the first field that has the name of an earlier one. -/
theorem firstRepeat?_fields_eq_some_iff {fields : List Field} {x : String} :
    firstRepeat? [] (fields.map (·.name)) = some x ↔ ∃ before f after,
      fields = before ++ f :: after ∧ (before.map (·.name)).Nodup ∧
      f.name ∈ before.map (·.name) ∧ f.name = x := by
  rw [firstRepeat?_eq_some_iff]
  constructor
  · rintro ⟨names, names', hnames, hnodup, -, hx⟩
    obtain ⟨before, rest, rfl, rfl, hrest⟩ := List.map_eq_append_iff.1 hnames
    obtain ⟨f, after, rfl, rfl, -⟩ := List.map_eq_cons_iff.1 hrest
    exact ⟨before, f, after, rfl, hnodup, by simpa using hx, rfl⟩
  · rintro ⟨before, f, after, rfl, hnodup, hmem, rfl⟩
    exact ⟨before.map (·.name), after.map (·.name), by simp, hnodup, by simp, .inr hmem⟩

/-! ## Verdicts -/

namespace Message

/-- A definition that can be declared. -/
structure Accepts (id : Nat) (fields : List Field) (start : Option Nat) : Prop where
  id : id ≤ 0xFFFFFF
  names : (fields.map (·.name)).Nodup
  marker : ∀ k, start = some k → 0 < k ∧ k ≤ fields.length
  types : ∀ f ∈ fields, ∃ t, ScalarType.ofTag? f.tag = some t
  length : payloadSize fields ≤ 255

/-- The fault of a definition that cannot be declared: of the first check that it does not pass. -/
inductive Rejects (id : Nat) (name : String) (fields : List Field) (start : Option Nat) :
    SchemaError → Prop where
  | id (hid : 0xFFFFFF < id) : Rejects id name fields start (.idOutOfRange name id 0xFFFFFF)
  | names {before after : List Field} {f : Field} (hid : id ≤ 0xFFFFFF)
    (hfields : fields = before ++ f :: after) (hbefore : (before.map (·.name)).Nodup)
    (hf : f.name ∈ before.map (·.name)) : Rejects id name fields start (.duplicateField name f.name)
  | marker {k : Nat} (hid : id ≤ 0xFFFFFF) (hnames : (fields.map (·.name)).Nodup)
    (hstart : start = some k) (hk : k = 0 ∨ fields.length < k) :
    Rejects id name fields start (.badExtensions name (.misplaced k))
  | types {before after : List Field} {f : Field} (hid : id ≤ 0xFFFFFF)
    (hnames : (fields.map (·.name)).Nodup)
    (hmarker : ∀ k, start = some k → 0 < k ∧ k ≤ fields.length)
    (hfields : fields = before ++ f :: after)
    (hbefore : ∀ g ∈ before, ∃ t, ScalarType.ofTag? g.tag = some t)
    (hf : ScalarType.ofTag? f.tag = none) :
    Rejects id name fields start (.unknownType name f.name f.tag)
  | length (hid : id ≤ 0xFFFFFF) (hnames : (fields.map (·.name)).Nodup)
    (hmarker : ∀ k, start = some k → 0 < k ∧ k ≤ fields.length)
    (htypes : ∀ f ∈ fields, ∃ t, ScalarType.ofTag? f.tag = some t)
    (hlength : 255 < payloadSize fields) :
    Rejects id name fields start
      (.payloadTooLarge name (min (payloadSize fields) 0xFFFFFFFFFFFFFFFF) 255)

section Verdict

variable {id : Nat} {name : String} {fields : List Field} {start : Option Nat}
  {flags : DialectFlags}

/-- What is left of a declaration when id, names and marker were found right. -/
theorem declare_of_checked (hid : id ≤ 0xFFFFFF) (hnames : (fields.map (·.name)).Nodup)
    (hmarker : ∀ k, start = some k → 0 < k ∧ k ≤ fields.length) :
    declare id name fields start flags = (do
      let order ← wireOrder name fields start flags.sortFields
      if maxPayloadLength < order.fullLength then
        throw (.payloadTooLarge name order.fullLength maxPayloadLength)
      return sealed id name fields start flags order) := by
  have hrepeat : firstRepeat? [] (fields.map (·.name)) = none :=
    firstRepeat?_eq_none_iff.2 ⟨hnames, by simp⟩
  have hle : ¬ FrameVersion.extended.maxId < id := Nat.not_lt.2 hid
  unfold declare
  rw [if_neg hle, hrepeat]
  cases start with
  | none => simp [sealed]
  | some k =>
    have hk := hmarker k rfl
    have hgood : ¬ (k = 0 ∨ fields.length < k) := by omega
    simp [sealed, hgood]

theorem declare_of_rejects {e : SchemaError} (h : Rejects id name fields start e) :
    declare id name fields start flags = .error e := by
  cases h with
  | id hid =>
    have hlt : FrameVersion.extended.maxId < id := hid
    unfold declare
    rw [if_pos hlt]
    rfl
  | names hid hfields hbefore hf =>
    have hle : ¬ FrameVersion.extended.maxId < id := Nat.not_lt.2 hid
    have hrepeat := firstRepeat?_fields_eq_some_iff.2 ⟨_, _, _, hfields, hbefore, hf, rfl⟩
    unfold declare
    rw [if_neg hle, hrepeat]
    rfl
  | marker hid hnames hstart hk =>
    have hle : ¬ FrameVersion.extended.maxId < id := Nat.not_lt.2 hid
    have hrepeat : firstRepeat? [] (fields.map (·.name)) = none :=
      firstRepeat?_eq_none_iff.2 ⟨hnames, by simp⟩
    unfold declare
    rw [if_neg hle, hrepeat, hstart]
    simp [hk, throw, throwThe, MonadExceptOf.throw, bind, Except.bind]
  | types hid hnames hmarker hfields hbefore hf =>
    have horder : wireOrder name fields start flags.sortFields = .error _ :=
      wireOrder_eq_error_iff.2 ⟨_, _, _, hfields, hbefore, hf, rfl⟩
    rw [declare_of_checked hid hnames hmarker, horder]
    rfl
  | length hid hnames hmarker htypes hlength =>
    obtain ⟨order, horder⟩ : ∃ order, wireOrder name fields start flags.sortFields = .ok order :=
      exists_wireOrder_iff.2 htypes
    have hfull := WireOrder.fullLength_eq horder
    have hlong : maxPayloadLength < order.fullLength := by
      rw [hfull]
      simp only [maxPayloadLength, maxLength]
      omega
    rw [declare_of_checked hid hnames hmarker, horder]
    change (if maxPayloadLength < order.fullLength then _ else _ : Except SchemaError Message) = _
    rw [if_pos hlong, hfull]
    rfl

/-- No definition is left undecided. -/
theorem accepts_or_rejects (id : Nat) (name : String) (fields : List Field) (start : Option Nat) :
    Accepts id fields start ∨ ∃ e, Rejects id name fields start e := by
  by_cases hid : id ≤ 0xFFFFFF
  case neg => exact .inr ⟨_, .id (Nat.lt_of_not_le hid)⟩
  cases hrepeat : firstRepeat? [] (fields.map (·.name)) with
  | some x =>
    obtain ⟨before, f, after, hfields, hbefore, hf, -⟩ :=
      firstRepeat?_fields_eq_some_iff.1 hrepeat
    exact .inr ⟨_, .names hid hfields hbefore hf⟩
  | none =>
    have hnames := (firstRepeat?_eq_none_iff.1 hrepeat).1
    by_cases hmarker : ∀ k, start = some k → 0 < k ∧ k ≤ fields.length
    case neg =>
      obtain ⟨k, hk⟩ := not_forall.1 hmarker
      obtain ⟨hstart, hk⟩ := Classical.not_imp.1 hk
      exact .inr ⟨_, .marker hid hnames hstart (by omega)⟩
    cases horder : wireOrder name fields start true with
    | error e =>
      obtain ⟨before, f, after, hfields, hbefore, hf, -⟩ := wireOrder_eq_error_iff.1 horder
      exact .inr ⟨_, .types hid hnames hmarker hfields hbefore hf⟩
    | ok order =>
      have htypes := exists_wireOrder_iff.1 ⟨order, horder⟩
      by_cases hlength : payloadSize fields ≤ 255
      · exact .inl ⟨hid, hnames, hmarker, htypes, hlength⟩
      · exact .inr ⟨_, .length hid hnames hmarker htypes (Nat.lt_of_not_le hlength)⟩

/-- What is declared has the exact length, as no sum that is accepted reaches `maxLength`. -/
theorem declare_of_accepts (h : Accepts id fields start) :
    ∃ order, wireOrder name fields start flags.sortFields = .ok order ∧
      declare id name fields start flags = .ok (sealed id name fields start flags order) := by
  obtain ⟨order, horder⟩ : ∃ order, wireOrder name fields start flags.sortFields = .ok order :=
    exists_wireOrder_iff.2 h.types
  refine ⟨order, horder, declare_eq_ok_iff.2 ⟨h.id, h.names, h.marker, order, horder, ?_, rfl⟩⟩
  rw [WireOrder.fullLength_eq horder]
  exact Nat.le_trans (Nat.min_le_left _ _) h.length

theorem declare_eq_error_iff {e : SchemaError} :
    declare id name fields start flags = .error e ↔ Rejects id name fields start e := by
  refine ⟨fun herror => ?_, declare_of_rejects⟩
  rcases accepts_or_rejects id name fields start with h | ⟨e', h⟩
  · obtain ⟨order, -, hok⟩ := declare_of_accepts h
    rw [hok] at herror
    cases herror
  · rw [declare_of_rejects h] at herror
    cases herror
    exact h

theorem exists_declare_iff :
    (∃ m, declare id name fields start flags = .ok m) ↔ Accepts id fields start := by
  refine ⟨fun ⟨m, hok⟩ => ?_, fun h => ?_⟩
  · rcases accepts_or_rejects id name fields start with h | ⟨e, h⟩
    · exact h
    · rw [declare_of_rejects h] at hok
      cases hok
  · obtain ⟨order, -, hok⟩ := declare_of_accepts h
    exact ⟨_, hok⟩

end Verdict

/-! ## Seals -/

/-- What a declared message has of its definition. -/
structure Seals (id : Nat) (name : String) (fields : List Field) (start : Option Nat)
    (flags : DialectFlags) (m : Message) : Prop where
  given : m.id = id ∧ m.name = name ∧ m.description = none ∧ m.fields = fields ∧
    m.extensionsStart = start
  fullLength : m.fullLength = payloadSize fields
  baseLength : m.baseLength = payloadSize (fields.take (start.getD fields.length))
  /-- The byte that stands for an array length in the fingerprint is that length. -/
  arrayLength : ∀ f ∈ fields, f.arrayLength ≤ 255 ∧
    (UInt8.ofNat f.arrayLength).toNat = f.arrayLength
  without : flags.fingerprints = false → m.fingerprint = 0
  /-- The fingerprint is that of the name and the base fields in wire order. -/
  fingerprint : flags.fingerprints = true → ∃ order : WireOrder,
    order.Stable fields (start.getD fields.length) flags.sortFields ∧
    let sum := Checksum.ofBytes (Utf8.encode name ++ [0x20] ++ order.base.flatMap fun o =>
      Utf8.encode o.type.fingerprintName ++ [0x20] ++ Utf8.encode o.field.name ++ [0x20] ++
        if o.field.arrayLength = 0 then [] else [UInt8.ofNat o.field.arrayLength])
    m.fingerprint = Checksum.low sum ^^^ Checksum.high sum

theorem seals_of_declare {id : Nat} {name : String} {fields : List Field} {start : Option Nat}
    {flags : DialectFlags} {m : Message} (hm : declare id name fields start flags = .ok m) :
    Seals id name fields start flags m := by
  have haccepts := exists_declare_iff.1 ⟨m, hm⟩
  obtain ⟨-, -, -, order, horder, -, rfl⟩ := declare_eq_ok_iff.1 hm
  have hsplit : splitIndex start fields.length = start.getD fields.length := by
    cases start with
    | none => exact Nat.min_self _
    | some k => exact Nat.min_eq_left (haccepts.marker k rfl).2
  have hlong : payloadSize fields ≤ maxLength := Nat.le_trans haccepts.length (by decide)
  constructor
  case given => exact ⟨rfl, rfl, rfl, rfl, rfl⟩
  case fullLength =>
    change order.fullLength = _
    rw [WireOrder.fullLength_eq horder, Nat.min_eq_left hlong]
  case baseLength =>
    change order.baseLength = _
    have hpart : payloadSize (fields.take (start.getD fields.length)) ≤ payloadSize fields := by
      have hparts := payloadSize_append (fields.take (start.getD fields.length))
        (fields.drop (start.getD fields.length))
      rw [List.take_append_drop] at hparts
      omega
    rw [WireOrder.baseLength_eq horder, hsplit, Nat.min_eq_left (Nat.le_trans hpart hlong)]
  case arrayLength =>
    intro f hf
    have hle : f.arrayLength ≤ 255 :=
      Nat.le_trans (Field.arrayLength_le_size (haccepts.types f hf))
        (Nat.le_trans (Field.size_le_payloadSize hf) haccepts.length)
    exact ⟨hle, Utf8.toNat_ofNat_of_lt (Nat.lt_succ_of_le hle)⟩
  case without =>
    intro hoff
    simp [sealed, hoff]
  case fingerprint =>
    intro hon
    refine ⟨order, hsplit ▸ stable_of_wireOrder horder, ?_⟩
    simp only [sealed, hon, if_true, Telemetry.fingerprint, List.flatMap_map]
    rfl

end Message

/-- **Declaring a message decides its domain.** The fault of a definition is that of the first of
five checks that it does not pass: its id, the names of its fields, the place of its extensions,
the types of its fields, and the exact number of its bytes, however great this is. A definition that
passes them all is declared. The declared lengths are then the exact ones, each array length fits
the byte that stands for it in the fingerprint, and the fingerprint is that of the name and the base
fields in wire order, or 0 if there are to be none. -/
theorem declare_decides (id : Nat) (name : String) (fields : List Field) (start : Option Nat)
    (flags : DialectFlags) :
    (∀ e, Message.declare id name fields start flags = .error e ↔
      Message.Rejects id name fields start e) ∧
    ((∃ m, Message.declare id name fields start flags = .ok m) ↔
      Message.Accepts id fields start) ∧
    ∀ m, Message.declare id name fields start flags = .ok m →
      Message.Seals id name fields start flags m :=
  ⟨fun _ => Message.declare_eq_error_iff, Message.exists_declare_iff,
    fun _ => Message.seals_of_declare⟩

/-- Fields whose bytes are more than `maxLength`. -/
def Field.vast : List Field :=
  [⟨"a", "double", 0x8000000000000000, none⟩, ⟨"b", "char", 0, none⟩]

/-- A message that is declared, and two definitions that are not: a repeated name is found before a
misplaced marker and an unknown type, and a length is given as far as it is told apart. -/
theorem declare_decides_reading :
    Message.declare 300 "READING" Message.reading.fields (some 3) {} = .ok Message.reading ∧
    payloadSize Message.reading.fields = 17 ∧
    Message.Seals 300 "READING" Message.reading.fields (some 3) {} Message.reading ∧
    Message.declare 1 "TWICE" [⟨"a", "int9_t", 0, none⟩, ⟨"a", "int8_t", 0, none⟩] (some 9) {} =
      .error (.duplicateField "TWICE" "a") ∧
    payloadSize Field.vast = 0x40000000000000001 ∧
    Message.declare 1 "VAST" Field.vast none {} =
      .error (.payloadTooLarge "VAST" 0xFFFFFFFFFFFFFFFF 255) := by
  have hm : Message.declare 300 "READING" Message.reading.fields (some 3) {} =
      .ok Message.reading := by decide +kernel
  have hsize : payloadSize Field.vast = 0x40000000000000001 := by decide +kernel
  refine ⟨hm, by decide +kernel, (declare_decides _ _ _ _ _).2.2 _ hm, ?_, hsize, ?_⟩
  · refine ((declare_decides _ _ _ _ _).1 _).2 ?_
    have hfields : [⟨"a", "int9_t", 0, none⟩, ⟨"a", "int8_t", 0, none⟩] =
        ([⟨"a", "int9_t", 0, none⟩] : List Field) ++ ⟨"a", "int8_t", 0, none⟩ :: [] := rfl
    exact .names (by decide) hfields (by decide) (by decide)
  · refine ((declare_decides _ _ _ _ _).1 _).2 ?_
    have htypes : ∀ f ∈ Field.vast, (ScalarType.ofTag? f.tag).isSome = true := by decide +kernel
    have hrejects : Message.Rejects 1 "VAST" Field.vast none _ :=
      .length (by decide) (by decide) (fun _ hk => by cases hk)
        (fun f hf => Option.isSome_iff_exists.1 (htypes f hf)) (by rw [hsize]; decide)
    rw [hsize] at hrejects
    exact hrejects

end Telemetry
