import Telemetry.Proofs.RoundTrip

/-!
# What decoding takes of a payload

Decoding a step takes the bytes of the step, whatever they are, and it fails only for want of bytes.
A payload that is filled up with zeros never wants any.

* `Payload.Gives`, `Payload.Reads`: whether so many bytes can be read, and what reads so many.
* `Payload.Lacks`: the fault of what wants more bytes than there are.
* `Codec.reads_decodeStep`: a step reads its bytes.
* `Codec.exists_decode_iff`: decoding fails for short payloads of legacy frames, and for no others.
* `Codec.decodeSteps_append`: steps are decoded from where the steps before them end.
* `Codec.decodeSteps_past`: behind the end of a payload every value is zero or empty.
-/

namespace Telemetry

namespace Payload

variable {α β : Type} {p : Payload} {m n : Nat}

/-- Whether the next `n` bytes can be read. -/
def Gives (p : Payload) (n : Nat) : Prop := p.position + n ≤ p.bytes.length ∨ p.zeroFill

/-- What fails for want of some of the next `n` bytes: the fault tells how many bytes there are, and
up to where they were needed. -/
def Lacks (p : Payload) (n : Nat) (x : Except CodecError β) : Prop :=
  ∃ needed, x = .error (.truncated needed p.bytes.length) ∧ p.bytes.length < needed ∧
    needed ≤ p.position + n

/-- What reads the next `n` bytes: it moves past them if they can be read, and else fails. -/
structure Reads (p : Payload) (n : Nat) (x : Except CodecError (α × Payload)) : Prop where
  ok : p.Gives n → ∃ a, x = .ok (a, p.advance n)
  error : p.position ≤ p.bytes.length → ¬ p.Gives n → p.Lacks n x

theorem gives_advance : (p.advance m).Gives n ↔ p.Gives (m + n) := by
  simp [Gives, advance, Nat.add_assoc]

theorem Gives.of_add (h : p.Gives (m + n)) : p.Gives m :=
  h.imp_left fun hle => by omega

theorem Lacks.of_advance {x : Except CodecError β} (h : (p.advance m).Lacks n x) :
    p.Lacks (m + n) x := by
  obtain ⟨needed, hx, hlt, hle⟩ := h
  exact ⟨needed, hx, hlt, by rwa [← Nat.add_assoc]⟩

/-- Who lacks bytes of the first part lacks them of the whole, and nothing follows. -/
theorem Lacks.bind {x : Except CodecError α} (h : p.Lacks m x) (n : Nat)
    (f : α → Except CodecError β) : p.Lacks (m + n) (x >>= f) := by
  obtain ⟨needed, rfl, hlt, hle⟩ := h
  exact ⟨needed, rfl, hlt, by omega⟩

theorem reads_zero (p : Payload) (a : α) : p.Reads 0 (.ok (a, p)) where
  ok _ := ⟨a, rfl⟩
  error hpos h := absurd (.inl hpos) h

theorem reads_getBytes (p : Payload) (n : Nat) : p.Reads n (p.getBytes n) where
  ok h := ⟨p.peek n, if_pos h⟩
  error _ h := ⟨p.position + n, if_neg h, Nat.lt_of_not_le fun hle => h (.inl hle), Nat.le_refl _⟩

/-- One reading after the other. -/
theorem Reads.bind {x : Except CodecError (α × Payload)}
    {f : α × Payload → Except CodecError (β × Payload)} (hx : p.Reads m x)
    (hf : ∀ a, (p.advance m).Reads n (f (a, p.advance m))) : p.Reads (m + n) (x >>= f) where
  ok h := by
    obtain ⟨a, rfl⟩ := hx.ok h.of_add
    obtain ⟨b, hb⟩ := (hf a).ok (gives_advance.2 h)
    exact ⟨b, by rw [← advance_advance]; exact hb⟩
  error hpos h := by
    by_cases hm : p.Gives m
    · obtain ⟨a, rfl⟩ := hx.ok hm
      -- A payload that gives the first part, but not both, is not filled up.
      have hle : p.position + m ≤ p.bytes.length := hm.resolve_right fun hz => h (.inr hz)
      exact ((hf a).error hle (gives_advance.not.2 h)).of_advance
    · exact (hx.error hpos hm).bind n f

/-- What is made of the bytes afterwards takes no more of them. -/
theorem Reads.map {x : Except CodecError (α × Payload)}
    {f : α × Payload → Except CodecError (β × Payload)} (hx : p.Reads n x)
    (hf : ∀ a p', ∃ b, f (a, p') = .ok (b, p')) : p.Reads n (x >>= f) := by
  refine hx.bind (n := 0) fun a => ?_
  obtain ⟨b, hb⟩ := hf a (p.advance n)
  rw [hb]
  exact reads_zero _ b

theorem reads_getWord (p : Payload) (width : Nat) : p.Reads width (p.getWord width) :=
  (reads_getBytes p width).map fun _ _ => ⟨_, rfl⟩

theorem reads_getText (p : Payload) (n : Nat) : p.Reads n (p.getText n) :=
  (reads_getBytes p n).map fun _ _ => ⟨_, rfl⟩

/-- Behind the end of a payload that is filled up, there are zeros. -/
theorem getBytes_past (hz : p.zeroFill) (hend : p.bytes.length ≤ p.position) (n : Nat) :
    p.getBytes n = .ok (List.replicate n 0, p.advance n) := by
  have hpeek : p.peek n = List.replicate n 0 := by
    simp [peek, List.drop_eq_nil_of_le hend]
  rw [getBytes, if_pos (.inr hz), hpeek]
  rfl

end Payload

theorem wordUp_replicate_zero (n : Nat) : wordUp (List.replicate n 0) = 0 := by
  induction n with
  | zero => rfl
  | succ n ih => simp [List.replicate_succ, wordUp, ih]

theorem ByteOrder.word_replicate_zero (order : ByteOrder) (n : Nat) :
    order.word (List.replicate n 0) = 0 := by
  cases order <;> simp [word, wordUp_replicate_zero]

theorem ScalarType.ofWord_zero (t : ScalarType) : t.ofWord 0 = t.zero := by
  cases t with
  | integer k => cases k <;> rfl
  | _ => rfl

theorem slotText_replicate_zero (n : Nat) : slotText (List.replicate n 0) = "" := by
  cases n <;> simp [slotText, List.replicate_succ, Utf8.decodeLossy, Utf8.pieces]

namespace Codec

open Payload

/-! ## Bytes taken -/

theorem reads_decodeScalar (type : ScalarType) (p : Payload) :
    p.Reads type.width (decodeScalar type p) := by
  rw [decodeScalar_eq]
  exact (reads_getWord p type.width).map fun _ _ => ⟨_, rfl⟩

theorem reads_decodeArray (type : ScalarType) (n : Nat) (p : Payload) :
    p.Reads (type.width * n) (decodeArray type n p) := by
  induction n generalizing p with
  | zero => exact reads_zero p []
  | succ n ih =>
    rw [Nat.mul_succ, Nat.add_comm]
    refine (reads_decodeScalar type p).bind fun v => ?_
    exact (ih (p.advance type.width)).map fun _ _ => ⟨_, rfl⟩

/-- A step reads its bytes. -/
theorem reads_decodeStep {s : Step} (htext : ∀ n, s.kind = .text n → s.type = .integer .char)
    (p : Payload) : p.Reads s.width (decodeStep s p) := by
  cases hk : s.kind with
  | scalar =>
    rw [Step.width_of_scalar hk]
    simp only [decodeStep, hk]
    exact reads_decodeScalar s.type p
  | text n =>
    rw [Step.width_of_text hk (htext n hk)]
    simp only [decodeStep, hk]
    exact (reads_getText p n).map fun _ _ => ⟨_, rfl⟩
  | array n =>
    rw [Step.width_of_array hk]
    simp only [decodeStep, hk]
    exact (reads_decodeArray s.type n p).map fun _ _ => ⟨_, rfl⟩

section Steps

variable {steps : List Step} {p : Payload}

/-- Whether texts are made of characters, so that each of their elements takes one byte. -/
def TextsOfChars (steps : List Step) : Prop :=
  ∀ s ∈ steps, ∀ n, s.kind = .text n → s.type = .integer .char

theorem TextsOfChars.of_cons {s : Step} (h : TextsOfChars (s :: steps)) : TextsOfChars steps :=
  fun s' hs' => h s' (List.mem_cons_of_mem s hs')

theorem decodeSteps_cons {s : Step} {v : Value} {p' : Payload} (h : decodeStep s p = .ok (v, p')) :
    decodeSteps (s :: steps) p = do
      let values ← decodeSteps steps p'
      return (s.field, v) :: values := by
  rw [decodeSteps, h]
  rfl

theorem exists_decodeSteps (htext : TextsOfChars steps) (h : p.Gives (stepsLength steps)) :
    ∃ values, decodeSteps steps p = .ok values := by
  induction steps generalizing p with
  | nil => exact ⟨[], rfl⟩
  | cons s steps ih =>
    obtain ⟨v, hv⟩ := (reads_decodeStep (htext s List.mem_cons_self) p).ok h.of_add
    obtain ⟨values, hvalues⟩ := ih htext.of_cons (gives_advance.2 h)
    exact ⟨_, by rw [decodeSteps_cons hv, hvalues]; rfl⟩

theorem decodeSteps_lacks (htext : TextsOfChars steps) (hpos : p.position ≤ p.bytes.length)
    (h : ¬ p.Gives (stepsLength steps)) : p.Lacks (stepsLength steps) (decodeSteps steps p) := by
  induction steps generalizing p with
  | nil => exact absurd (.inl hpos) h
  | cons s steps ih =>
    have hs := reads_decodeStep (htext s List.mem_cons_self) p
    by_cases hgives : p.Gives s.width
    · obtain ⟨v, hv⟩ := hs.ok hgives
      have hle : p.position + s.width ≤ p.bytes.length :=
        hgives.resolve_right fun hz => h (.inr hz)
      have hrest := ih htext.of_cons (p := p.advance s.width) hle (gives_advance.not.2 h)
      rw [decodeSteps_cons hv]
      exact (hrest.bind 0 _).of_advance
    · exact (hs.error hpos hgives).bind (stepsLength steps) _

/-- Steps are decoded exactly if the payload gives the bytes of all of them. -/
theorem exists_decodeSteps_iff (htext : TextsOfChars steps) (hpos : p.position ≤ p.bytes.length) :
    (∃ values, decodeSteps steps p = .ok values) ↔ p.Gives (stepsLength steps) := by
  refine ⟨fun ⟨values, hvalues⟩ => ?_, exists_decodeSteps htext⟩
  by_contra hnot
  obtain ⟨needed, hfault, -⟩ := decodeSteps_lacks htext hpos hnot
  rw [hvalues] at hfault
  cases hfault

/-- Steps are decoded from where the steps before them end. -/
theorem decodeSteps_append (htext : TextsOfChars steps) (hgives : p.Gives (stepsLength steps))
    (more : List Step) :
    decodeSteps (steps ++ more) p = do
      let values ← decodeSteps steps p
      let rest ← decodeSteps more (p.advance (stepsLength steps))
      return values ++ rest := by
  induction steps generalizing p with
  | nil =>
    show decodeSteps more p = do
      let rest ← decodeSteps more p
      return [] ++ rest
    cases decodeSteps more p <;> rfl
  | cons s steps ih =>
    obtain ⟨v, hv⟩ := (reads_decodeStep (htext s List.mem_cons_self) p).ok hgives.of_add
    have hrest := ih htext.of_cons (gives_advance.2 hgives)
    rw [advance_advance] at hrest
    rw [List.cons_append, decodeSteps_cons hv, decodeSteps_cons hv, hrest, stepsLength]
    simp only [bind_assoc, pure_bind, List.cons_append]

/-! ## Behind the end -/

theorem decodeScalar_past (type : ScalarType) (hz : p.zeroFill)
    (hend : p.bytes.length ≤ p.position) :
    decodeScalar type p = .ok (type.zero, p.advance type.width) := by
  rw [decodeScalar_eq, Payload.getWord, getBytes_past hz hend]
  simp [bind, Except.bind, pure, Except.pure, ByteOrder.word_replicate_zero,
    ScalarType.ofWord_zero]

theorem decodeArray_past (type : ScalarType) (n : Nat) (hz : p.zeroFill)
    (hend : p.bytes.length ≤ p.position) :
    decodeArray type n p =
      .ok (List.replicate n type.zero, p.advance (type.width * n)) := by
  induction n generalizing p with
  | zero => rfl
  | succ n ih =>
    have hrest := ih (p := p.advance type.width) hz (Nat.le_add_right_of_le hend)
    rw [advance_advance, Nat.add_comm, ← Nat.mul_succ] at hrest
    simp only [decodeArray, decodeScalar_past type hz hend, hrest, bind, Except.bind, pure,
      Except.pure, List.replicate_succ]

/-- Behind the end of a payload that is filled up, a step is decoded as if no value had been given
for it: to zero, to a row of zeros, or to the empty text. -/
theorem decodeStep_past {s : Step} (htext : ∀ n, s.kind = .text n → s.type = .integer .char)
    (hz : p.zeroFill) (hend : p.bytes.length ≤ p.position) :
    decodeStep s p = .ok (s.normal none, p.advance s.width) := by
  cases hk : s.kind with
  | scalar =>
    rw [Step.width_of_scalar hk]
    simp only [decodeStep, Step.normal, hk]
    exact decodeScalar_past s.type hz hend
  | text n =>
    rw [Step.width_of_text hk (htext n hk)]
    simp only [decodeStep, Step.normal, hk, Payload.getText, getBytes_past hz hend, bind,
      Except.bind, pure, Except.pure, slotText_replicate_zero]
  | array n =>
    rw [Step.width_of_array hk]
    simp only [decodeStep, Step.normal, hk, decodeArray_past _ _ hz hend, bind, Except.bind, pure,
      Except.pure]

theorem decodeSteps_past (htext : TextsOfChars steps) (hz : p.zeroFill)
    (hend : p.bytes.length ≤ p.position) :
    decodeSteps steps p = .ok (steps.map fun s => (s.field, s.normal none)) := by
  induction steps generalizing p with
  | nil => rfl
  | cons s steps ih =>
    have hs := decodeStep_past (htext s List.mem_cons_self) hz hend
    have hsteps := ih htext.of_cons (p := p.advance s.width) hz (Nat.le_add_right_of_le hend)
    rw [decodeSteps_cons hs, hsteps]
    rfl

end Steps

/-! ## Payloads of a plan -/

variable {plan : LayoutPlan}

theorem textsOfChars_stepsFor (hplan : plan.Sound) (version : FrameVersion) :
    TextsOfChars (plan.stepsFor version) :=
  fun _ hs _ hn => hplan.type_of_text (plan.stepsFor_subset version hs) hn

theorem gives_received (bytes : List UInt8) (order : ByteOrder) (version : FrameVersion)
    (n : Nat) :
    (Payload.received bytes order version).Gives n ↔ n ≤ bytes.length ∨ version = .extended := by
  simp [Payload.Gives, Payload.received]

/-- **Decoding fails for want of bytes only.** Payloads of extended frames are always decoded, those
of legacy frames exactly if they have the length of the plan. -/
theorem exists_decode_iff (hplan : plan.Sound) (order : ByteOrder) (bytes : List UInt8)
    (version : FrameVersion) :
    (∃ values, decode order plan bytes version = .ok values) ↔
      version = .extended ∨ plan.baseLength ≤ bytes.length := by
  rw [decode, exists_decodeSteps_iff (textsOfChars_stepsFor hplan version) (Nat.zero_le _),
    gives_received, ← hplan.length version]
  cases version with
  | legacy => simp [LayoutPlan.payloadLength]
  | extended => simp

end Codec

end Telemetry
