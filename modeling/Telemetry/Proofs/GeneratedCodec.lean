import Mathlib.Data.List.Nodup
import Telemetry.Proofs.Planning
import Telemetry.Proofs.Putting
import Telemetry.Proofs.RoundTrip
import Telemetry.Proofs.Statements

/-!
# Generated codecs and the codec of plans

The encoder and decoder of a generated module and the codec that follows a plan step by step are two
ways to the same payloads.

* `SameNumber`, `Agrees`, `Corresponds`: what a struct holds for the values of fields.
* `put_stepStatement`, `get_stepStatement`: the statement of a step does what the codec does.
* `Code.Declares`: a module that has the fields of a plan, as that of its message does.
* `generated_codec_agrees`: the whole encoder and the whole decoder.
-/

namespace Telemetry.Generate

/-! ## Structs and field values -/

/-- Values that are the same number. The kinds of integers may differ. -/
inductive SameNumber : Value → Value → Prop where
  | integer {kind kind' : IntKind} {n : Int} (h : kind.Holds n) (h' : kind'.Holds n) :
    SameNumber (.integer kind n h) (.integer kind' n h')
  | float (x : Binary32) : SameNumber (.float x) (.float x)
  | double (x : Binary64) : SameNumber (.double x) (.double x)

theorem sameNumber_self {t : Storage} {x : Value} (h : x.kind = t.valueKind) : SameNumber x x := by
  cases t <;> cases x <;> cases h
  case integer => exact .integer _ _
  case float => exact .float _
  case double => exact .double _

/-- A slot that a text was stored in. -/
def Filled (slot : List UInt8) (text : String) : Prop := slot = textSlot slot.length text

/-- A slot that is shown as a text. -/
def Shown (slot : List UInt8) (text : String) : Prop := text = slotText slot

/-- What the field of a step holds for a value, given what a slot holds for a text. -/
def Agrees (text : List UInt8 → String → Prop) (s : Step) (c : Content) (v : Value) : Prop :=
  match s.kind, c, v with
  | .scalar, .one x, v => SameNumber x v
  | .array _, .many xs, .list vs => List.Forall₂ SameNumber xs vs
  | .text _, .many xs, .text t => ∃ slot, xs = slot.map byteValue ∧ text slot t
  | _, _, _ => False

/-- What a struct holds for the values of the fields of some steps. -/
def Corresponds (text : List UInt8 → String → Prop) (steps : List Step) (r : Record)
    (values : FieldValues) : Prop :=
  ∀ s ∈ steps, ∃ c v, r.get? (identifier s.field) = some c ∧ values.get? s.field = some v ∧
    Agrees text s c v

/-- Whether a text was stored in every slot of a struct. -/
def TextsFilled (steps : List Step) (r : Record) : Prop :=
  ∀ s ∈ steps, ∀ n, s.kind = .text n →
    ∃ text, r.get? (identifier s.field) = some (.many ((textSlot n text).map byteValue))

theorem wrap_u8 (n : Nat) : IntKind.u8.wrap n = (n : Int) % 256 := by
  change ((n : Int) - 0) % 256 + 0 = _
  simp

theorem byte?_byteValue (b : UInt8) : byte? (byteValue b) = some b := by
  have hlt := b.toNat_lt
  have hwrap : (IntKind.u8.wrap b.toNat).toNat = b.toNat := by
    rw [wrap_u8]
    omega
  simp [byte?, byteValue, Value.wrap, hwrap]

theorem mapM_byte?_byteValue (bytes : List UInt8) :
    (bytes.map byteValue).mapM byte? = some bytes := by
  induction bytes with
  | nil => rfl
  | cons b bytes ih => simp [byte?_byteValue, ih]

/-- Values of the sort of a byte are bytes. -/
theorem exists_bytes {vs : List Value} (h : ∀ v ∈ vs, v.kind = .integer .u8) :
    ∃ bytes : List UInt8, vs = bytes.map byteValue := by
  induction vs with
  | nil => exact ⟨[], rfl⟩
  | cons v vs ih =>
    obtain ⟨bytes, rfl⟩ := ih fun v hv => h v (List.mem_cons_of_mem _ hv)
    have hv := h v List.mem_cons_self
    cases v <;> cases hv
    rename_i n hn
    refine ⟨UInt8.ofNat (IntKind.u8.unwrap n) :: bytes, ?_⟩
    have hlt : IntKind.u8.unwrap n < 256 := IntKind.u8.unwrap_lt n
    simp [byteValue, Value.wrap, Nat.mod_eq_of_lt hlt, IntKind.wrap_unwrap _ hn]

/-! ## Putting -/

/-- Generated code puts the bytes that a value of its field is encoded as. -/
theorem put_storageOf {t : ScalarType} {x v : Value} (hx : x.kind = (storageOf t).valueKind)
    (h : SameNumber x v) (p : Payload) (field : String) :
    ∃ bytes, (storageOf t).put p x = .ok (p.putBytes bytes) ∧
      Codec.encodeScalar p.order field t v = .ok bytes := by
  cases t with
  | float => cases h <;> cases hx; exact ⟨_, rfl, rfl⟩
  | double => cases h <;> cases hx; exact ⟨_, rfl, rfl⟩
  | version => cases h <;> cases hx; exact ⟨_, rfl, Codec.encodeInt_of_holds (k := .u8) rfl ‹_›⟩
  | integer kind =>
    have hencode {n : Int} {w : Value} (hw : w.toInt? = some n) (hn : kind.Holds n) :
        Codec.encodeScalar p.order field (.integer kind) w =
          .ok (p.order.bytes kind.width (kind.unwrap n)) :=
      Codec.encodeInt_of_holds hw hn
    cases kind <;> cases h <;> cases hx <;> exact ⟨_, rfl, hencode rfl ‹_›⟩

theorem foldlM_put_storageOf {t : ScalarType} {xs vs : List Value}
    (hxs : ∀ x ∈ xs, x.kind = (storageOf t).valueKind) (h : List.Forall₂ SameNumber xs vs)
    (p : Payload) (field : String) :
    ∃ parts, xs.foldlM (storageOf t).put p = .ok (p.putBytes parts.flatten) ∧
      vs.mapM (Codec.encodeScalar p.order field t) = .ok parts := by
  induction h generalizing p with
  | nil => exact ⟨[], by simp [pure, Except.pure], rfl⟩
  | @cons x v xs vs hxv _ ih =>
    obtain ⟨part, hput, hencode⟩ := put_storageOf (hxs x List.mem_cons_self) hxv p field
    obtain ⟨parts, hputs, hencodes⟩ :=
      ih (fun x hx => hxs x (List.mem_cons_of_mem _ hx)) (p.putBytes part)
    refine ⟨part :: parts, ?_, ?_⟩
    · rw [List.foldlM_cons]
      refine bind_eq_ok_iff.2 ⟨_, hput, hputs.trans ?_⟩
      rw [Payload.putBytes_putBytes, List.flatten_cons]
    · rw [List.mapM_cons]
      exact bind_eq_ok_iff.2 ⟨part, hencode, bind_eq_ok_iff.2 ⟨parts, hencodes, rfl⟩⟩

/-- **The statement of a step puts what the codec encodes.** -/
theorem put_stepStatement {s : Step} {r : Record} {c : Content} {v : Value}
    (hc : r.get? (identifier s.field) = some c) (htype : (stepType s).Holds c)
    (hagrees : Agrees Filled s c v) (p : Payload) :
    ∃ bytes, (stepStatement s).put r p = .ok (p.putBytes bytes) ∧
      Codec.encodeStep p.order s (some v) = .ok bytes := by
  unfold Agrees at hagrees
  split at hagrees
  · rename_i x v hk
    simp only [stepType, hk, FieldType.Holds] at htype
    obtain ⟨bytes, hput, hencode⟩ := put_storageOf htype hagrees p s.field
    refine ⟨bytes, ?_, ?_⟩
    · simpa [stepStatement, hk, Statement.put, hc] using hput
    · simpa [Codec.encodeStep, hk] using hencode
  · rename_i n xs vs hk
    simp only [stepType, hk, FieldType.Holds] at htype
    obtain ⟨parts, hput, hencode⟩ := foldlM_put_storageOf htype.2 hagrees p s.field
    refine ⟨parts.flatten, ?_, ?_⟩
    · simpa [stepStatement, hk, Statement.put, hc] using hput
    · have hlen : vs.length = n := hagrees.length_eq.symm.trans htype.1
      simp [Codec.encodeStep, hk, Codec.encodeArray, hlen, hencode, bind, Except.bind, pure,
        Except.pure]
  · rename_i n xs t hk
    simp only [stepType, hk, FieldType.Holds] at htype
    obtain ⟨slot, rfl, hslot⟩ := hagrees
    have hlen : slot.length = n := by simpa using htype.1
    refine ⟨slot, ?_, ?_⟩
    · simp only [stepStatement, hk, Statement.put, hc, mapM_byte?_byteValue]
      rfl
    · rw [Filled, hlen] at hslot
      simp [Codec.encodeStep, hk, ← hslot]
  · exact hagrees.elim

/-- The statements of some steps put what the codec encodes. -/
theorem runPut_putLines {steps : List Step} {r : Record} {values : FieldValues}
    (htypes : ∀ s ∈ steps, ∀ c, r.get? (identifier s.field) = some c → (stepType s).Holds c)
    (h : Corresponds Filled steps r values) (p : Payload) :
    ∃ parts, Code.runPut r (steps.map fun s => (Access.ofStep s).putLine) p =
        .ok (p.putBytes parts.flatten) ∧
      List.Forall₂ (fun s part => Codec.encodeStep p.order s (values.get? s.field) = .ok part)
        steps parts := by
  induction steps generalizing p with
  | nil => exact ⟨[], by simp [Code.runPut, pure, Except.pure], .nil⟩
  | cons s steps ih =>
    obtain ⟨c, v, hc, hv, hagrees⟩ := h s List.mem_cons_self
    obtain ⟨part, hput, hencode⟩ :=
      put_stepStatement hc (htypes s List.mem_cons_self c hc) hagrees p
    obtain ⟨parts, hputs, hencodes⟩ :=
      ih (fun s hs => htypes s (List.mem_cons_of_mem _ hs))
        (fun s hs => h s (List.mem_cons_of_mem _ hs)) (p.putBytes part)
    refine ⟨part :: parts, ?_, .cons (by rw [hv]; exact hencode) hencodes⟩
    rw [List.map_cons, Code.runPut, List.foldlM_cons, read?_putLine]
    refine bind_eq_ok_iff.2 ⟨_, hput, hputs.trans ?_⟩
    rw [Payload.putBytes_putBytes, List.flatten_cons]

/-! ## Getting -/

/-- What ends as the codec does: with its fault, or with a result that is related to its own. -/
abbrev Mirrors {α β : Type} (R : α → β → Prop) (x : Except Fault α) (y : Except CodecError β) :
    Prop :=
  Alike (fun fault e => fault = .payload e) R x y

theorem mirrors_getInt (kind : IntKind) (p : Payload) :
    Mirrors (fun a b => a = (kind.wrap b.1, b.2)) ((p.getInt kind).mapError .payload)
      (p.getWord kind.width) := by
  unfold Payload.getInt
  cases p.getWord kind.width <;> rfl

/-- Integers are stored in a kind with the same range. -/
theorem mirrors_get_integer (stored kind : IntKind) (hwidth : stored.width = kind.width)
    (hwrap : stored.wrap = kind.wrap) (p : Payload) :
    Mirrors (fun a b => SameNumber a.1 b.1 ∧ a.1.kind = .integer stored ∧ a.2 = b.2)
      ((Storage.integer stored).get p) (Codec.decodeScalar (.integer kind) p) := by
  have hget := mirrors_getInt stored p
  rw [hwidth, hwrap] at hget
  refine .bind hget ?_
  rintro _ b rfl
  have hholds : stored.Holds (kind.wrap b.1) := hwrap ▸ stored.holds_wrap b.1
  simp only [dif_pos hholds]
  exact ⟨.integer _ _, rfl, rfl⟩

/-- Generated code gets the value that the codec decodes. -/
theorem mirrors_get_storageOf (t : ScalarType) (p : Payload) :
    Mirrors (fun a b => SameNumber a.1 b.1 ∧ a.1.kind = (storageOf t).valueKind ∧ a.2 = b.2)
      ((storageOf t).get p) (Codec.decodeScalar t p) := by
  cases t with
  | float =>
    refine .bind (alike_mapError _ _) ?_
    rintro a _ rfl
    exact ⟨.float _, rfl, rfl⟩
  | double =>
    refine .bind (alike_mapError _ _) ?_
    rintro a _ rfl
    exact ⟨.double _, rfl, rfl⟩
  | version => exact mirrors_get_integer .u8 .u8 rfl rfl p
  | integer kind =>
    cases kind with
    | char => exact mirrors_get_integer .u8 .char rfl rfl p
    | _ => exact mirrors_get_integer _ _ rfl rfl p

theorem mirrors_replaceEach {t : ScalarType} {olds : List Value}
    (h : ∀ v ∈ olds, v.kind = (storageOf t).valueKind) (p : Payload) :
    Mirrors (fun a b => List.Forall₂ SameNumber a.1 b.1 ∧
        (FieldType.array (storageOf t) olds.length).Holds (.many a.1) ∧ a.2 = b.2)
      ((storageOf t).replaceEach olds p) (Codec.decodeArray t olds.length p) := by
  induction olds generalizing p with
  | nil => exact ⟨.nil, ⟨rfl, by simp⟩, rfl⟩
  | cons old olds ih =>
    unfold Storage.replaceEach Codec.decodeArray
    rw [Storage.replace, if_pos (h old List.mem_cons_self)]
    refine .bind (mirrors_get_storageOf t p) ?_
    rintro ⟨x, p⟩ ⟨v, _⟩ ⟨hxv, hx, rfl⟩
    refine .bind (ih (fun v hv => h v (List.mem_cons_of_mem _ hv)) p) ?_
    rintro ⟨xs, p⟩ ⟨vs, _⟩ ⟨hxs, ⟨hlen, hkinds⟩, rfl⟩
    refine ⟨.cons hxv hxs, ⟨congrArg (· + 1) hlen, ?_⟩, rfl⟩
    exact List.forall_mem_cons.2 ⟨hx, hkinds⟩

theorem mirrors_getBytes (n : Nat) (p : Payload) :
    Mirrors (fun a b => a = b ∧ a.1.length = n) ((p.getBytes n).mapError .payload)
      (p.getBytes n) := by
  unfold Payload.getBytes
  split
  · refine ⟨rfl, ?_⟩
    simp only [Payload.peek, List.length_append, List.length_take, List.length_replicate]
    omega
  · rfl

/-- **The statement of a step gets what the codec decodes**, in the field of the step. -/
theorem mirrors_get_stepStatement {s : Step} {r : Record} {old : Content}
    (htext : ∀ n, s.kind = .text n → s.type = .integer .char)
    (hold : r.get? (identifier s.field) = some old) (htype : (stepType s).Holds old)
    (p : Payload) :
    Mirrors (fun a b => ∃ c, a = (r.set (identifier s.field) c, b.2) ∧ (stepType s).Holds c ∧
      Agrees Shown s c b.1) ((stepStatement s).get r p) (Codec.decodeStep s p) := by
  cases hk : s.kind with
  | scalar =>
    simp only [stepType, stepStatement, Codec.decodeStep, Agrees, hk] at htype ⊢
    obtain ⟨old, rfl, hkind⟩ := FieldType.holds_one_iff.1 htype
    simp only [Statement.get, hold, Storage.replace, if_pos hkind]
    rw [← bind_pure (Codec.decodeScalar s.type p)]
    refine .bind (mirrors_get_storageOf s.type p) ?_
    rintro ⟨x, p⟩ ⟨v, _⟩ ⟨hxv, hx, rfl⟩
    exact ⟨.one x, rfl, hx, hxv⟩
  | array n =>
    simp only [stepType, stepStatement, Codec.decodeStep, Agrees, hk] at htype ⊢
    obtain ⟨olds, rfl, rfl, hkinds⟩ := FieldType.holds_array_iff.1 htype
    simp only [Statement.get, hold]
    refine .bind (mirrors_replaceEach hkinds p) ?_
    rintro ⟨xs, p⟩ ⟨vs, _⟩ ⟨hxs, hholds, rfl⟩
    exact ⟨.many xs, rfl, hholds, hxs⟩
  | text n =>
    simp only [stepType, stepStatement, Codec.decodeStep, Agrees, hk, htext n hk] at htype ⊢
    obtain ⟨olds, rfl, rfl, hkinds⟩ := FieldType.holds_array_iff.1 htype
    obtain ⟨bytes, rfl⟩ := exists_bytes hkinds
    simp only [Statement.get, hold, mapM_byte?_byteValue, List.length_map, Payload.getText,
      bind_assoc, need_some_bind]
    refine .bind (mirrors_getBytes bytes.length p) ?_
    rintro ⟨slot, p⟩ _ ⟨rfl, hlen⟩
    refine ⟨.many (slot.map byteValue), rfl, ⟨?_, ?_⟩, slot, rfl, rfl⟩
    · rw [List.length_map, hlen]
    · simp [byteValue, Value.wrap, Value.kind, storageOf, Storage.valueKind]

/-! ## Fields of structs -/

namespace Record

variable {r : Record} {ident : String} {c : Content}

theorem get?_set_of_ne {ident' : String} (h : ident' ≠ ident) :
    (r.set ident c).get? ident' = r.get? ident' := by
  induction r with
  | nil => rfl
  | cons entry r ih =>
    obtain ⟨name, old⟩ := entry
    unfold set get? at ih ⊢
    rw [List.map_cons]
    by_cases hname : name = ident
    · have hne : (ident' == name) = false := by simpa [hname] using h
      rw [if_pos hname, List.lookup_cons, List.lookup_cons, hne]
      exact ih
    · rw [if_neg hname, List.lookup_cons, List.lookup_cons, ih]

theorem get?_set_self {old : Content} (h : r.get? ident = some old) :
    (r.set ident c).get? ident = some c := by
  induction r with
  | nil => cases h
  | cons entry r ih =>
    obtain ⟨name, old'⟩ := entry
    unfold set get? at ih ⊢
    rw [get?, List.lookup_cons] at h
    rw [List.map_cons]
    by_cases hname : name = ident
    · simp [hname]
    · have hne : (ident == name) = false := by simpa using Ne.symm hname
      rw [hne] at h
      rw [if_neg hname, List.lookup_cons, hne]
      exact ih h

end Record

namespace Code

variable {code : Code} {r : Record} {steps : List Step}

/-- What is known of the contents of a struct is known of the content of each field. -/
theorem exists_get? (P : FieldText → Content → Prop) {fields : List FieldText}
    (h : List.Forall₂ (fun f entry => entry.1 = f.ident ∧ P f entry.2) fields r)
    (hnodup : (fields.map (·.ident)).Nodup) {f : FieldText} (hf : f ∈ fields) :
    ∃ c, r.get? f.ident = some c ∧ P f c := by
  induction h with
  | nil => cases hf
  | @cons f' entry fields r hentry _ ih =>
    obtain ⟨name, c⟩ := entry
    obtain ⟨rfl, hc⟩ := hentry
    rw [List.map_cons, List.nodup_cons] at hnodup
    unfold Record.get? at ih ⊢
    rcases List.mem_cons.1 hf with rfl | hf
    · exact ⟨c, List.lookup_cons_self, hc⟩
    · have hne : (f.ident == f'.ident) = false :=
        beq_eq_false_iff_ne.2 fun heq => hnodup.1 (heq ▸ List.mem_map_of_mem hf)
      rw [List.lookup_cons, hne]
      exact ih hnodup.2 hf

/-- A struct keeps its type when a field is given another content of its type. -/
theorem Typed.set (h : code.Typed r) {ident : String} {c : Content}
    (hc : ∀ f ∈ code.fields, f.ident = ident →
      ∃ t, FieldType.read? f.type = some t ∧ t.Holds c) : code.Typed (r.set ident c) := by
  unfold Typed at h ⊢
  rw [Record.set, List.forall₂_map_right_iff]
  generalize code.fields = fields at h hc
  induction h with
  | nil => exact .nil
  | @cons f entry fields r hentry _ ih =>
    refine .cons ?_ (ih fun f' hf' => hc f' (List.mem_cons_of_mem _ hf'))
    split
    · rename_i hident
      exact ⟨hentry.1, hc f List.mem_cons_self (hentry.1.symm.trans hident)⟩
    · exact hentry

/-- The texts of the field of a step. -/
def fieldOf (s : Step) : FieldText := ⟨identifier s.field, fieldType s, fieldZero s⟩

/-- Whether the fields of a module are those of some steps, with identifiers of their own. -/
structure Declares (code : Code) (steps : List Step) : Prop where
  nodup : (code.fields.map (·.ident)).Nodup
  mem_iff (f : FieldText) : f ∈ code.fields ↔ ∃ s ∈ steps, fieldOf s = f

theorem Declares.get? (hcode : code.Declares steps) (h : code.Typed r) {s : Step}
    (hs : s ∈ steps) : ∃ c, r.get? (identifier s.field) = some c ∧ (stepType s).Holds c := by
  have hf : fieldOf s ∈ code.fields := (hcode.mem_iff _).2 ⟨s, hs, rfl⟩
  obtain ⟨c, hc, t, ht, hholds⟩ :=
    exists_get? (fun f c => ∃ t, FieldType.read? f.type = some t ∧ t.Holds c) h hcode.nodup hf
  cases (read?_fieldType s).symm.trans ht
  exact ⟨c, hc, hholds⟩

theorem Declares.set (hcode : code.Declares steps) (h : code.Typed r) {s : Step}
    (hs : s ∈ steps) {c : Content} (hc : (stepType s).Holds c) :
    code.Typed (r.set (identifier s.field) c) := by
  refine h.set fun f hf hident => ⟨stepType s, ?_, hc⟩
  have hmem : fieldOf s ∈ code.fields := (hcode.mem_iff _).2 ⟨s, hs, rfl⟩
  rw [List.inj_on_of_nodup_map hcode.nodup hf hmem hident]
  exact read?_fieldType s

theorem initial_eq_ok {f : FieldText} {entry : String × Content} (h : f.initial = .ok entry) :
    entry.1 = f.ident ∧ ∃ t, FieldType.read? f.type = some t ∧ entry.2 = t.zero := by
  obtain ⟨t, ht, h⟩ := bind_eq_ok_iff.1 h
  obtain ⟨zero, hzero, h⟩ := bind_eq_ok_iff.1 h
  cases h
  refine ⟨rfl, t, need_eq_ok_iff.1 ht, ?_⟩
  have hread := need_eq_ok_iff.1 hzero
  unfold FieldType.readZero? at hread
  split at hread
  · exact (Option.some.inj hread).symm
  · cases hread

/-- The default struct holds a zero in every field. -/
theorem Declares.exists_zeros (hcode : code.Declares steps) :
    ∃ zeros, code.zeros = .ok zeros ∧ code.Typed zeros ∧
      ∀ s ∈ steps, zeros.get? (identifier s.field) = some (stepType s).zero := by
  have hinitial : ∀ f ∈ code.fields, ∃ entry, f.initial = .ok entry := by
    intro f hf
    obtain ⟨s, -, rfl⟩ := (hcode.mem_iff f).1 hf
    simp only [FieldText.initial, fieldOf, read?_fieldType, readZero?_fieldZero, need_some_bind]
    exact ⟨_, rfl⟩
  obtain ⟨zeros, hzeros⟩ := exists_mapM_eq_ok hinitial
  have hcontents := (mapM_eq_ok_iff.1 hzeros).imp fun f entry h => initial_eq_ok h
  refine ⟨zeros, hzeros, hcontents.imp ?_, fun s hs => ?_⟩
  · rintro f entry ⟨hident, t, ht, hzero⟩
    exact ⟨hident, t, ht, hzero ▸ t.holds_zero⟩
  · have hf : fieldOf s ∈ code.fields := (hcode.mem_iff _).2 ⟨s, hs, rfl⟩
    obtain ⟨c, hc, t, ht, rfl⟩ := exists_get?
      (fun f c => ∃ t, FieldType.read? f.type = some t ∧ c = t.zero) hcontents hcode.nodup hf
    cases (read?_fieldType s).symm.trans ht
    exact hc

end Code

/-- The statements of some steps get what the codec decodes, and leave all other fields alone. -/
theorem mirrors_runGet {code : Code} {steps all : List Step} (hcode : code.Declares all)
    (hsub : steps ⊆ all) (hnodup : (steps.map fun s => identifier s.field).Nodup)
    (htext : ∀ s ∈ steps, ∀ n, s.kind = .text n → s.type = .integer .char) {r : Record}
    (hr : code.Typed r) (p : Payload) :
    Mirrors (fun a values => code.Typed a.1 ∧ Corresponds Shown steps a.1 values ∧
        ∀ ident, ident ∉ steps.map (fun s => identifier s.field) →
          a.1.get? ident = r.get? ident)
      (Code.runGet (steps.map fun s => (Access.ofStep s).getLine) r p)
      (Codec.decodeSteps steps p) := by
  induction steps generalizing r p with
  | nil => exact ⟨hr, by simp [Corresponds], fun _ _ => rfl⟩
  | cons s steps ih =>
    have hs : s ∈ all := hsub List.mem_cons_self
    obtain ⟨old, hold, htype⟩ := hcode.get? hr hs
    rw [List.map_cons, List.nodup_cons] at hnodup
    simp only [Code.runGet, List.map_cons, List.foldlM_cons, read?_getLine, need_some_bind,
      Codec.decodeSteps]
    refine .bind (mirrors_get_stepStatement (htext s List.mem_cons_self) hold htype p) ?_
    rintro _ ⟨v, p⟩ ⟨c, rfl, hc, hagrees⟩
    rw [← bind_pure (List.foldlM _ _ _)]
    refine .bind (ih (fun s hs => hsub (List.mem_cons_of_mem _ hs)) hnodup.2
      (fun s hs => htext s (List.mem_cons_of_mem _ hs)) (hcode.set hr hs hc) p) ?_
    rintro a values ⟨htyped, hcorr, hkeep⟩
    refine ⟨htyped, ?_, fun ident hident => ?_⟩
    · intro s' hs'
      rcases List.mem_cons.1 hs' with rfl | hs'
      · refine ⟨c, v, ?_, List.lookup_cons_self, hagrees⟩
        rw [hkeep _ hnodup.1, Record.get?_set_self hold]
      · obtain ⟨c', v', hc', hv', hagrees'⟩ := hcorr s' hs'
        have hne : (s'.field == s.field) = false := beq_eq_false_iff_ne.2 fun heq =>
          hnodup.1 (List.mem_map.2 ⟨s', hs', by rw [heq]⟩)
        refine ⟨c', v', hc', ?_, hagrees'⟩
        rw [FieldValues.get?, List.lookup_cons, hne]
        exact hv'
    · rw [List.mem_cons, not_or] at hident
      rw [hkeep ident hident.2, Record.get?_set_of_ne hident.1]

/-! ## The module of a message -/

/-- The steps of a plan are those of the declared fields, with their numbers. -/
theorem numbers_steps_perm {m : Message} {sorted : Bool} {plan : LayoutPlan}
    (hp : LayoutPlan.ofMessage m sorted = .ok plan) :
    (plan.steps.map fun s => (s.field, s.index)).Perm
      (m.fields.zipIdx.map fun p => (p.1.name, p.2)) := by
  obtain ⟨order, horder, -, -, hb, he, -⟩ := LayoutPlan.ofMessage_eq_ok hp
  obtain ⟨base, extension, hbase, hext, rfl⟩ := wireOrder_eq_ok_iff.1 horder
  have hfields : (base ++ extension).map (fun o => (o.field, o.index)) = m.fields.zipIdx := by
    rw [List.map_append, numbers_of_resolveFields hbase, numbers_of_resolveFields hext,
      List.take_append_drop]
  rw [LayoutPlan.steps, hb, he, List.map_append, numbers_placeSteps, numbers_placeSteps,
    ← List.map_append, ← hfields, List.map_map]
  exact ((arrange_perm sorted base).append (arrange_perm sorted extension)).map _

/-- The step of a field is found by the number of the field. -/
theorem mem_declaredSteps_iff {m : Message} {sorted : Bool} {plan : LayoutPlan}
    (hp : LayoutPlan.ofMessage m sorted = .ok plan) {f : Field} {s : Step} :
    (f, s) ∈ declaredSteps m plan ↔ s ∈ plan.steps ∧ (f, s.index) ∈ m.fields.zipIdx := by
  have hindex : (plan.steps.map (·.index)).Nodup := by
    have hperm := (numbers_steps_perm hp).map Prod.snd
    rw [List.map_map, List.map_map] at hperm
    refine hperm.nodup_iff.2 ?_
    have hsnd : m.fields.zipIdx.map (Prod.snd ∘ fun p => (p.1.name, p.2)) =
        List.range' 0 m.fields.length := by
      rw [← List.zipIdx_map_snd]
      rfl
    exact hsnd ▸ List.nodup_range'
  have hfind {i : Nat} : plan.steps.find? (·.index == i) = some s ↔
      s ∈ plan.steps ∧ s.index = i := by
    constructor
    · intro h
      exact ⟨List.mem_of_find?_eq_some h, by simpa using List.find?_some h⟩
    · rintro ⟨hs, rfl⟩
      obtain ⟨s', hs'⟩ : ∃ s', plan.steps.find? (·.index == s.index) = some s' :=
        Option.isSome_iff_exists.1 (List.find?_isSome.2 ⟨s, hs, beq_self_eq_true _⟩)
      have heq : s'.index = s.index := by simpa using List.find?_some hs'
      rw [hs', List.inj_on_of_nodup_map hindex (List.mem_of_find?_eq_some hs') hs heq]
  rw [declaredSteps, List.mem_filterMap]
  constructor
  · rintro ⟨⟨f', i⟩, hmem, h⟩
    obtain ⟨s', hs', h⟩ := Option.map_eq_some_iff.1 h
    cases h
    obtain ⟨hs, rfl⟩ := hfind.1 hs'
    exact ⟨hs, hmem⟩
  · rintro ⟨hs, hmem⟩
    exact ⟨(f, s.index), hmem, Option.map_eq_some_iff.2 ⟨s, hfind.2 ⟨hs, rfl⟩, rfl⟩⟩

theorem fields_declaredSteps_sublist (m : Message) (plan : LayoutPlan) :
    ((declaredSteps m plan).map (·.1)).Sublist m.fields := by
  have hlist (l : List (Field × Nat)) :
      ((l.filterMap fun p => (plan.steps.find? (·.index == p.2)).map fun s => (p.1, s)).map
        (·.1)).Sublist (l.map (·.1)) := by
    induction l with
    | nil => exact .slnil
    | cons p l ih =>
      cases hs : plan.steps.find? (·.index == p.2) with
      | none =>
        rw [List.filterMap_cons_none (by rw [hs]; rfl)]
        exact ih.cons _
      | some s =>
        rw [List.filterMap_cons_some (by rw [hs]; rfl)]
        exact ih.cons_cons _
  have hfields := hlist m.fields.zipIdx
  rw [List.zipIdx_map_fst] at hfields
  exact hfields

/-- The texts that fill the module of a message with a plan. -/
def codeOf (m : Message) (plan : LayoutPlan) : Code where
  fields := (declaredSteps m plan).map fun p =>
    ⟨identifier p.1.name, fieldType p.2, fieldZero p.2⟩
  encodeBase := plan.baseSteps.map fun s => (Access.ofStep s).putLine
  encodeExtension := plan.extensionSteps.map fun s => (Access.ofStep s).putLine
  decodeBase := plan.baseSteps.map fun s => (Access.ofStep s).getLine
  decodeExtension := plan.extensionSteps.map fun s => (Access.ofStep s).getLine

theorem items?_map {α β : Type} {c : Context} {name : String} {read : Context → Option β}
    {f : α → Context} {g : α → β} {xs : List α} (hc : c.get? name = some (.list (xs.map f)))
    (hread : ∀ x, read (f x) = some (g x)) : Code.items? c name read = some (xs.map g) := by
  rw [Code.items?, hc]
  clear hc
  induction xs with
  | nil => rfl
  | cons x xs ih =>
    simp only [List.map_cons, List.mapM_cons, hread] at ih ⊢
    rw [ih]
    rfl

/-- What fills the template of a message are the texts of its fields and steps. -/
theorem ofContext?_messageContext (runtime dialect : String) (m : Message) (plan : LayoutPlan) :
    Code.ofContext? (messageContext runtime dialect m plan) = some (codeOf m plan) := by
  have hfields : Code.items? (messageContext runtime dialect m plan) "fields" Code.field? =
      some (codeOf m plan).fields := items?_map rfl fun _ => rfl
  have hlines (name : String) (line : Access → String) (steps : List Step)
      (h : (messageContext runtime dialect m plan).get? name = some (statements line steps)) :
      Code.items? (messageContext runtime dialect m plan) name Code.line? =
        some (steps.map fun s => line (.ofStep s)) := items?_map h fun _ => rfl
  rw [Code.ofContext?, hfields, hlines "encode_base" Access.putLine plan.baseSteps rfl,
    hlines "encode_ext" Access.putLine plan.extensionSteps rfl,
    hlines "decode_base" Access.getLine plan.baseSteps rfl,
    hlines "decode_ext" Access.getLine plan.extensionSteps rfl]
  rfl

theorem exists_field_of_mem_steps {m : Message} {sorted : Bool} {plan : LayoutPlan}
    (hp : LayoutPlan.ofMessage m sorted = .ok plan) {s : Step} (hs : s ∈ plan.steps) :
    ∃ f, (f, s.index) ∈ m.fields.zipIdx ∧ f.name = s.field := by
  have hnumber : (s.field, s.index) ∈ m.fields.zipIdx.map fun p => (p.1.name, p.2) :=
    (numbers_steps_perm hp).mem_iff.1 (List.mem_map_of_mem hs)
  obtain ⟨⟨f, i⟩, hmem, h⟩ := List.mem_map.1 hnumber
  simp only [Prod.mk.injEq] at h
  obtain ⟨hf, rfl⟩ := h
  exact ⟨f, hmem, hf⟩

theorem declares_codeOf {m : Message} {sorted : Bool} {plan : LayoutPlan}
    (hp : LayoutPlan.ofMessage m sorted = .ok plan)
    (hidents : (m.fields.map fun f => identifier f.name).Nodup) :
    (codeOf m plan).Declares plan.steps := by
  refine ⟨?_, fun text => ?_⟩
  · have hsub := (fields_declaredSteps_sublist m plan).map fun f => identifier f.name
    rw [List.map_map] at hsub
    rw [codeOf, List.map_map]
    exact hidents.sublist hsub
  · rw [codeOf, List.mem_map]
    constructor
    · rintro ⟨⟨f, s⟩, hmem, rfl⟩
      obtain ⟨hs, hnumber⟩ := (mem_declaredSteps_iff hp).1 hmem
      obtain ⟨f', hnumber', hname⟩ := exists_field_of_mem_steps hp hs
      rw [List.mem_zipIdx_iff_getElem?] at hnumber hnumber'
      cases hnumber.symm.trans hnumber'
      exact ⟨s, hs, by rw [Code.fieldOf, ← hname]⟩
    · rintro ⟨s, hs, rfl⟩
      obtain ⟨f, hnumber, hname⟩ := exists_field_of_mem_steps hp hs
      exact ⟨(f, s), (mem_declaredSteps_iff hp).2 ⟨hs, hnumber⟩, by rw [Code.fieldOf, ← hname]⟩

theorem nodup_identifiers {m : Message} {sorted : Bool} {plan : LayoutPlan}
    (hp : LayoutPlan.ofMessage m sorted = .ok plan)
    (hidents : (m.fields.map fun f => identifier f.name).Nodup) (version : FrameVersion) :
    ((plan.stepsFor version).map fun s => identifier s.field).Nodup := by
  have hsteps : (plan.steps.map fun s => identifier s.field).Nodup := by
    have hperm := (numbers_steps_perm hp).map fun p => identifier p.1
    rw [List.map_map, List.map_map] at hperm
    refine hperm.nodup_iff.2 ?_
    have hnames : m.fields.zipIdx.map ((fun p => identifier p.1) ∘ fun p => (p.1.name, p.2)) =
        (m.fields.zipIdx.map Prod.fst).map fun f => identifier f.name := by
      rw [List.map_map]
      rfl
    rw [hnames, List.zipIdx_map_fst]
    exact hidents
  cases version with
  | legacy => exact hsteps.sublist ((List.sublist_append_left _ _).map _)
  | extended => exact hsteps

theorem linesFor_map (plan : LayoutPlan) (version : FrameVersion) (line : Step → String) :
    Code.linesFor version (plan.baseSteps.map line) (plan.extensionSteps.map line) =
      (plan.stepsFor version).map line := by
  cases version with
  | legacy => exact List.append_nil _
  | extended => exact List.map_append.symm

/-- A struct whose slots have texts stored in them holds some values. -/
theorem exists_corresponds {code : Code} {steps all : List Step} (hcode : code.Declares all)
    (hsub : steps ⊆ all) (hfields : (steps.map (·.field)).Nodup) {r : Record} (hr : code.Typed r)
    (hfilled : TextsFilled steps r) : ∃ values, Corresponds Filled steps r values := by
  have hstep : ∀ s ∈ steps, ∃ v, ∃ c, r.get? (identifier s.field) = some c ∧
      Agrees Filled s c v := by
    intro s hs
    obtain ⟨c, hc, hholds⟩ := hcode.get? hr (hsub hs)
    unfold Agrees
    cases hk : s.kind with
    | scalar =>
      rw [stepType, hk] at hholds
      obtain ⟨x, rfl, hx⟩ := FieldType.holds_one_iff.1 hholds
      exact ⟨x, .one x, hc, sameNumber_self hx⟩
    | array n =>
      rw [stepType, hk] at hholds
      obtain ⟨xs, rfl, -, hxs⟩ := FieldType.holds_array_iff.1 hholds
      exact ⟨.list xs, .many xs, hc, List.forall₂_same.2 fun x hx => sameNumber_self (hxs x hx)⟩
    | text n =>
      obtain ⟨text, htext⟩ := hfilled s hs n hk
      refine ⟨.text text, _, htext, textSlot n text, rfl, ?_⟩
      rw [Filled, length_textSlot]
  choose! value hvalue using hstep
  refine ⟨steps.map fun s => (s.field, value s), fun s hs => ?_⟩
  obtain ⟨c, hc, hagrees⟩ := hvalue s hs
  exact ⟨c, value s, hc, FieldValues.get?_map_steps value hfields hs, hagrees⟩

/-- **Generated code does what the codec does.** Take the module of a declared message whose fields
have identifiers of their own, for any plan of the message. For every struct of its types whose
slots have texts stored in them, the encoder gives the bytes that the codec gives for the values
that the struct holds. For every payload the decoder fails as the codec does, or gives a struct that
holds the values that the codec gives; extension fields that a legacy payload lacks are zero. -/
theorem generated_codec_agrees {id : Nat} {name : String} {fields : List Field}
    {extensionsStart : Option Nat} {flags : DialectFlags} {m : Message} {sorted : Bool}
    {plan : LayoutPlan} (hm : Message.declare id name fields extensionsStart flags = .ok m)
    (hp : LayoutPlan.ofMessage m sorted = .ok plan)
    (hidents : (m.fields.map fun f => identifier f.name).Nodup) (runtime dialect : String) :
    ∃ code, Code.ofContext? (messageContext runtime dialect m plan) = some code ∧
      ∀ order version,
        (∀ r, code.Typed r → TextsFilled (plan.stepsFor version) r →
          ∃ bytes, code.pack order version r = .ok bytes ∧
            (∃ values, Corresponds Filled (plan.stepsFor version) r values) ∧
            ∀ values, Corresponds Filled (plan.stepsFor version) r values →
              Codec.encode order plan values version = .ok bytes) ∧
        ∀ payload,
          match Codec.decode order plan payload version with
          | .error e => code.unpack order version payload = .error (.payload e)
          | .ok values => ∃ r, code.unpack order version payload = .ok r ∧ code.Typed r ∧
            Corresponds Shown (plan.stepsFor version) r values ∧
            ∀ s ∈ plan.steps, s ∉ plan.stepsFor version →
              r.get? (identifier s.field) = some (stepType s).zero := by
  have hplan := LayoutPlan.Sound.of_declare hm hp
  have hcode := declares_codeOf hp hidents
  have htext {version : FrameVersion} (s : Step) (hs : s ∈ plan.stepsFor version) (n : Nat)
      (hn : s.kind = .text n) : s.type = .integer .char :=
    hplan.type_of_text (plan.stepsFor_subset version hs) hn
  refine ⟨_, ofContext?_messageContext runtime dialect m plan, fun order version => ⟨?_, ?_⟩⟩
  · intro r hr hfilled
    have hpack {values : FieldValues} (h : Corresponds Filled (plan.stepsFor version) r values) :
        ∃ bytes, (codeOf m plan).pack order version r = .ok bytes ∧
          Codec.encode order plan values version = .ok bytes := by
      have htypes : ∀ s ∈ plan.stepsFor version, ∀ c, r.get? (identifier s.field) = some c →
          (stepType s).Holds c := by
        intro s hs c hc
        obtain ⟨c', hc', hholds⟩ := hcode.get? hr (plan.stepsFor_subset version hs)
        cases hc.symm.trans hc'
        exact hholds
      obtain ⟨parts, hput, hencode⟩ := runPut_putLines htypes h (.empty order)
      refine ⟨parts.flatten, ?_, Codec.encode_eq_ok_iff.2 ⟨parts, hencode, rfl⟩⟩
      rw [← linesFor_map] at hput
      exact bind_eq_ok_iff.2 ⟨_, hput, rfl⟩
    obtain ⟨values, hvalues⟩ := exists_corresponds hcode (plan.stepsFor_subset version)
      (hplan.nodup_stepsFor version) hr hfilled
    obtain ⟨bytes, hbytes, -⟩ := hpack hvalues
    refine ⟨bytes, hbytes, ⟨values, hvalues⟩, fun values' hvalues' => ?_⟩
    obtain ⟨bytes', hbytes', hencode⟩ := hpack hvalues'
    cases hbytes.symm.trans hbytes'
    exact hencode
  · intro payload
    obtain ⟨zeros, hzeros, htyped, hzero⟩ := hcode.exists_zeros
    have hget := mirrors_runGet hcode (plan.stepsFor_subset version)
      (nodup_identifiers hp hidents version) htext htyped (.received payload order version)
    have hunpack : (codeOf m plan).unpack order version payload = do
        let a ← Code.runGet ((plan.stepsFor version).map fun s => (Access.ofStep s).getLine) zeros
          (.received payload order version)
        return a.1 := by
      rw [← linesFor_map, Code.unpack, hzeros]
      rfl
    rw [hunpack, Codec.decode]
    cases hdecode : Codec.decodeSteps (plan.stepsFor version)
      (.received payload order version) with
    | error e =>
      rw [hdecode] at hget
      obtain ⟨fault, hfault, rfl⟩ := alike_error_iff.1 hget
      exact congrArg (· >>= fun a => pure a.1) hfault
    | ok values =>
      rw [hdecode] at hget
      obtain ⟨a, ha, hr, hcorr, hkeep⟩ := alike_ok_iff.1 hget
      refine ⟨a.1, bind_eq_ok_iff.2 ⟨a, ha, rfl⟩, hr, hcorr, fun s hs hnot => ?_⟩
      rw [hkeep _ fun hident => ?_, hzero s hs]
      obtain ⟨s', hs', hsame⟩ := List.mem_map.1 hident
      have hall : (plan.steps.map fun s => identifier s.field).Nodup :=
        nodup_identifiers hp hidents .extended
      have heq : s' = s :=
        List.inj_on_of_nodup_map hall (plan.stepsFor_subset version hs') hs hsame
      exact hnot (heq ▸ hs')

/-- A struct of the module of `Message.reading`, with a text cut to its slot. -/
def Record.reading : Record :=
  [("time", .one (.wrap .u32 7)), ("label", .many ((textSlot 3 "north").map byteValue)),
    ("axes", .many [.wrap .i16 0xFFFE, .wrap .i16 0, .wrap .i16 5]),
    ("gain", .one (.float ⟨0x3F800000⟩))]

/-- The struct of a reading is encoded as the codec encodes its values, and a payload that ends too
early is a fault of the decoder. -/
theorem generated_codec_agrees_reading :
    Message.declare 300 "READING" Message.reading.fields (some 3) {} = .ok Message.reading ∧
    LayoutPlan.ofMessage Message.reading true = .ok LayoutPlan.reading ∧
    (Message.reading.fields.map fun f => identifier f.name).Nodup ∧
    ∃ code, Code.ofContext? (messageContext "telemetry" "sensors" Message.reading
        LayoutPlan.reading) = some code ∧ code.Typed Record.reading ∧
      (∃ bytes, code.pack .big .extended Record.reading = .ok bytes ∧
        Codec.encode .big LayoutPlan.reading [("time", .integer .i8 7 (by decide)),
          ("label", .text "north"), ("axes", .list [.integer .i16 (-2) (by decide),
            .integer .u8 0 (by decide), .integer .i64 5 (by decide)]),
          ("gain", .float ⟨0x3F800000⟩)] .extended = .ok bytes) ∧
      code.unpack .big .legacy [0, 0, 0, 7, 255] = .error (.payload (.truncated 6 5)) := by
  have hm : Message.declare 300 "READING" Message.reading.fields (some 3) {} =
      .ok Message.reading := by decide +kernel
  have hp : LayoutPlan.ofMessage Message.reading true = .ok LayoutPlan.reading := rfl
  have hidents : (Message.reading.fields.map fun f => identifier f.name).Nodup := by
    decide +kernel
  obtain ⟨code, hcode, hagrees⟩ := generated_codec_agrees hm hp hidents "telemetry" "sensors"
  refine ⟨hm, hp, hidents, code, hcode, ?_⟩
  have hsteps : LayoutPlan.reading.stepsFor .extended =
      [⟨"time", 0, .integer .u32, .scalar, 0⟩, ⟨"axes", 2, .integer .i16, .array 3, 4⟩,
        ⟨"label", 1, .integer .char, .text 3, 10⟩, ⟨"gain", 3, .float, .scalar, 13⟩] := rfl
  have htyped : code.Typed Record.reading := by
    cases hcode.symm.trans (ofContext?_messageContext _ _ _ _)
    refine .cons ⟨rfl, _, read?_fieldType ⟨"time", 0, .integer .u32, .scalar, 0⟩, rfl⟩ <|
      .cons ⟨rfl, _, read?_fieldType ⟨"label", 1, .integer .char, .text 3, 10⟩, rfl, ?_⟩ <|
      .cons ⟨rfl, _, read?_fieldType ⟨"axes", 2, .integer .i16, .array 3, 4⟩, rfl, ?_⟩ <|
      .cons ⟨rfl, _, read?_fieldType ⟨"gain", 3, .float, .scalar, 13⟩, rfl⟩ .nil
    · simp [byteValue, Value.wrap, Value.kind, storageOf, Storage.valueKind]
    · simp [Value.wrap, Value.kind, storageOf, Storage.valueKind]
  have hfilled : TextsFilled (LayoutPlan.reading.stepsFor .extended) Record.reading := by
    intro s hs n hn
    simp only [hsteps, List.mem_cons, List.not_mem_nil, or_false] at hs
    rcases hs with rfl | rfl | rfl | rfl <;> cases hn
    exact ⟨"north", rfl⟩
  obtain ⟨bytes, hbytes, -, hencode⟩ := (hagrees .big .extended).1 Record.reading htyped hfilled
  refine ⟨htyped, ⟨bytes, hbytes, hencode _ ?_⟩, (hagrees .big .legacy).2 [0, 0, 0, 7, 255]⟩
  intro s hs
  simp only [hsteps, List.mem_cons, List.not_mem_nil, or_false] at hs
  rcases hs with rfl | rfl | rfl | rfl
  · exact ⟨_, _, rfl, rfl, .integer _ _⟩
  · exact ⟨_, _, rfl, rfl, .cons (.integer _ _) (.cons (.integer _ _) (.cons (.integer _ _) .nil))⟩
  · exact ⟨_, _, rfl, rfl, textSlot 3 "north", rfl, by rw [Filled, length_textSlot]⟩
  · exact ⟨_, _, rfl, rfl, .float _⟩

end Telemetry.Generate
