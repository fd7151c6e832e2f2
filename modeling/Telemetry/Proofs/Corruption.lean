import Telemetry.Proofs.Checksum
import Telemetry.Proofs.Framing

/-!
# Damaged frames

A frame may have bytes changed on its way. Where the length, the flags that matter and the message
id are left as they are, a receiver takes the damaged bytes for a frame of the same message and
length, and the checksum decides. One byte or two adjacent ones, changed in any way, are always
found.

* `FramePart.span`: the parts of a frame that the checksum alone protects.
* `Damage`: one or two adjacent bytes changed within a stretch of positions.
* `parse_detects_damage`: a valid frame damaged in one of its parts fails its checksum.
-/

namespace Telemetry

/-! ## Changed bytes -/

/-- `damaged` is `bytes` with one byte or two adjacent bytes changed, at positions from `span.1` to
before `span.2`. -/
structure Damage (span : Nat × Nat) (bytes damaged : List UInt8) : Prop where
  length_eq : damaged.length = bytes.length
  changed : damaged ≠ bytes
  close : ∃ pos, ∀ j, j < bytes.length → damaged[j]? ≠ bytes[j]? →
    (j = pos ∨ j = pos + 1) ∧ span.1 ≤ j ∧ j < span.2

theorem getElem?_slice (bytes : List UInt8) (start n j : Nat) :
    ((bytes.drop start).take n)[j]? = if j < n then bytes[start + j]? else none := by
  rw [List.getElem?_take, List.getElem?_drop]

namespace Damage

variable {span : Nat × Nat} {bytes damaged : List UInt8}

/-- The positions at which bytes differ lie close together and within the span. -/
theorem exists_pos (h : Damage span bytes damaged) :
    ∃ pos, ∀ j, damaged[j]? ≠ bytes[j]? → (j = pos ∨ j = pos + 1) ∧ span.1 ≤ j ∧ j < span.2 := by
  obtain ⟨pos, hpos⟩ := h.close
  refine ⟨pos, fun j hj => hpos j ?_ hj⟩
  -- Behind the end there is nothing to differ.
  by_contra hge
  have hlen := h.length_eq
  rw [List.getElem?_eq_none (by omega), List.getElem?_eq_none (by omega)] at hj
  exact hj rfl

theorem agree (h : Damage span bytes damaged) {j : Nat} (hj : j < span.1 ∨ span.2 ≤ j) :
    damaged[j]? = bytes[j]? := by
  obtain ⟨pos, hpos⟩ := h.exists_pos
  by_contra hne
  obtain ⟨-, h1, h2⟩ := hpos j hne
  omega

theorem slice_eq (h : Damage span bytes damaged) {start n : Nat}
    (hout : start + n ≤ span.1 ∨ span.2 ≤ start) :
    (damaged.drop start).take n = (bytes.drop start).take n := by
  apply List.ext_getElem?
  intro j
  rw [getElem?_slice, getElem?_slice]
  split
  · exact h.agree (by omega)
  · rfl

theorem slice_ne (h : Damage span bytes damaged) {start n : Nat} (hstart : start ≤ span.1)
    (hstop : span.2 ≤ start + n) : (damaged.drop start).take n ≠ (bytes.drop start).take n := by
  intro heq
  apply h.changed
  apply List.ext_getElem?
  intro j
  by_cases hj : start ≤ j ∧ j < start + n
  · have hget : ((damaged.drop start).take n)[j - start]? =
        ((bytes.drop start).take n)[j - start]? := by rw [heq]
    have hlt : j - start < n := by omega
    rwa [getElem?_slice, getElem?_slice, if_pos hlt, if_pos hlt, Nat.add_sub_cancel' hj.1] at hget
  · exact h.agree (by omega)

/-- What is changed of a slice lies close together too. -/
theorem slice_close (h : Damage span bytes damaged) (start n : Nat) :
    ∃ pos, ∀ j, j ≠ pos → j ≠ pos + 1 →
      ((damaged.drop start).take n)[j]? = ((bytes.drop start).take n)[j]? := by
  obtain ⟨pos, hpos⟩ := h.exists_pos
  refine ⟨pos - start, fun j hj hj' => ?_⟩
  rw [getElem?_slice, getElem?_slice]
  split
  · by_contra hne
    obtain ⟨hor, -⟩ := hpos (start + j) hne
    omega
  · rfl

end Damage

/-! ## Parts of a frame -/

/-- The positions of the bytes that route a frame: sequence, system and component, and before them
the flags that a receiver may ignore, where there are any. -/
def FrameVersion.routeSpan : FrameVersion → Nat × Nat
  | legacy => (2, 5)
  | extended => (3, 7)

/-- The parts of a frame that its checksum alone protects. -/
inductive FramePart where
  | route
  | payload
  | checksum
deriving DecidableEq

/-- The first position of a part of a packet's frame, and the one behind its last. -/
def FramePart.span (p : Packet) : FramePart → Nat × Nat
  | route => p.version.routeSpan
  | payload => (p.version.headerLength, p.version.headerLength + p.payload.length)
  | checksum =>
    (p.version.headerLength + p.payload.length,
      p.version.headerLength + p.payload.length + checksumLength)

namespace FramePart

variable (p : Packet) (part : FramePart)

theorem span_pos : 1 ≤ (part.span p).1 := by
  have hpos := p.version.headerLength_pos
  cases part with
  | route => cases hv : p.version <;> simp [span, hv, FrameVersion.routeSpan]
  | payload => exact hpos
  | checksum => exact Nat.le_add_right_of_le hpos

/-- The length, the flags that matter and the message id are in none of the parts. -/
theorem span_header {j : Nat} (hj : j < p.version.routeSpan.1 ∨
    (p.version.routeSpan.2 ≤ j ∧ j < p.version.headerLength)) :
    j < (part.span p).1 ∨ (part.span p).2 ≤ j := by
  cases hv : p.version <;> cases part <;>
    simp only [span, hv, FrameVersion.routeSpan, FrameVersion.headerLength] at hj ⊢ <;> omega

/-- A part lies before the checksum or is the checksum. -/
theorem span_checksum : (part.span p).2 ≤ p.version.headerLength + p.payload.length ∨
    part.span p = (p.version.headerLength + p.payload.length,
      p.version.headerLength + p.payload.length + checksumLength) := by
  cases part with
  | route =>
    cases hv : p.version <;>
      simp only [span, hv, FrameVersion.routeSpan, FrameVersion.headerLength] <;> omega
  | payload => exact .inl (Nat.le_refl _)
  | checksum => exact .inr rfl

end FramePart

namespace Packet

/-- A header whose routing bytes are changed is read with the same message id, flags and payload
length. Positions are those of the frame, of which the header here lacks the first byte. -/
theorem readHeader_of_agree {version : FrameVersion} {bytes bytes' body : List UInt8}
    {head : Packet} {length : Nat} (h : readHeader version bytes = some (head, length, body))
    (hlen : bytes'.length = bytes.length)
    (hagree : ∀ j, j + 1 < version.routeSpan.1 ∨
      (version.routeSpan.2 ≤ j + 1 ∧ j + 1 < version.headerLength) → bytes'[j]? = bytes[j]?) :
    ∃ head', readHeader version bytes' =
        some (head', length, bytes'.drop (version.headerLength - 1)) ∧
      head'.messageId = head.messageId ∧ head'.incompatFlags = head.incompatFlags := by
  obtain ⟨-, -, hge, -⟩ := readHeader_eq_some h
  have hget : ∀ j (hj : j < bytes'.length) (hj' : j < bytes.length), j + 1 < version.routeSpan.1 ∨
      (version.routeSpan.2 ≤ j + 1 ∧ j + 1 < version.headerLength) → bytes'[j] = bytes[j] := by
    intro j hj hj' hout
    have hsome := hagree j hout
    rwa [List.getElem?_eq_getElem hj, List.getElem?_eq_getElem hj', Option.some.injEq] at hsome
  cases version with
  | legacy =>
    simp only [FrameVersion.routeSpan, FrameVersion.headerLength] at hget hge
    have hfive : 5 ≤ bytes.length := by omega
    rw [readHeader_legacy hfive] at h
    cases h
    rw [readHeader_legacy (hlen ▸ hfive), hget 0 (by omega) (by omega) (by omega),
      hget 4 (by omega) (by omega) (by omega)]
    exact ⟨_, rfl, rfl, rfl⟩
  | extended =>
    simp only [FrameVersion.routeSpan, FrameVersion.headerLength] at hget hge
    have hnine : 9 ≤ bytes.length := by omega
    rw [readHeader_extended hnine] at h
    cases h
    rw [readHeader_extended (hlen ▸ hnine), hget 0 (by omega) (by omega) (by omega),
      hget 1 (by omega) (by omega) (by omega), hget 6 (by omega) (by omega) (by omega),
      hget 7 (by omega) (by omega) (by omega), hget 8 (by omega) (by omega) (by omega)]
    exact ⟨_, rfl, rfl, rfl⟩

/-- Once a header is read and all its bytes are there, the checksum decides. -/
theorem parse_of_verify_error {version : FrameVersion} {rest body : List UInt8} {head : Packet}
    {length : Nat} {table : FingerprintTable} {e : FrameError}
    (hh : readHeader version rest = some (head, length, body))
    (hflags : head.incompatFlags &&& ~~~signedFlag = 0)
    (hle : head.announced length ≤ rest.length + 1)
    (he : verify table head.messageId (rest.take (version.headerLength - 1 + length))
      (UInt16.ofNat (ByteOrder.little.word ((body.drop length).take checksumLength))) = .error e) :
    parse (version.startByte :: rest) table = .error e := by
  obtain ⟨hversion, -⟩ := readHeader_eq_some hh
  subst hversion
  have htotal : ¬ rest.length + 1 <
      head.version.headerLength + length + checksumLength + head.signatureBytes := Nat.not_lt.2 hle
  simp only [parse, FrameVersion.ofStartByte?_startByte, hh, hflags, ne_eq, not_true_eq_false,
    if_false, List.length_cons, htotal, he, bind, Except.bind]

/-- A checksum that was right is not any more, if either the content or the checksum is replaced by
one that differs from it. -/
theorem verify_of_changed {table : FingerprintTable} {id : Nat} {content content' : List UInt8}
    {found found' : UInt16} (h : verify table id content found = .ok .valid)
    (hchanged : (found' = found ∧ Checksum.ofBytes content' ≠ Checksum.ofBytes content) ∨
      (content' = content ∧ found' ≠ found)) :
    ∃ expected, verify table id content' found' = .error (.badChecksum id expected found') := by
  rw [verify_eq_valid_iff, FingerprintTable.finish?, Option.map_eq_some_iff] at h
  obtain ⟨extra, hextra, hsum⟩ := h
  have hne : Checksum.update (Checksum.ofBytes content') extra ≠ found' := by
    rcases hchanged with ⟨rfl, hne⟩ | ⟨rfl, hne⟩
    · intro heq
      exact hne (Checksum.update_left_injective extra (heq.trans hsum.symm))
    · rw [hsum]
      exact hne.symm
  refine ⟨Checksum.update (Checksum.ofBytes content') extra, ?_⟩
  simp only [verify, FingerprintTable.finish?, hextra, Option.map_some, if_neg hne]

/-- Checksums read from different bytes differ. -/
theorem checksum_ne {bytes bytes' : List UInt8} (hlen : bytes.length = checksumLength)
    (hlen' : bytes'.length = checksumLength) (hne : bytes' ≠ bytes) :
    UInt16.ofNat (ByteOrder.little.word bytes') ≠ UInt16.ofNat (ByteOrder.little.word bytes) := by
  intro heq
  apply hne
  rw [← bytes_checksum hlen', heq, bytes_checksum hlen]

end Packet

/-- Damage to the `n` bytes of content behind the start byte, or to the checksum behind them, makes
the checksum wrong. -/
theorem Damage.verify_eq_error {span : Nat × Nat} {bytes damaged : List UInt8}
    (h : Damage span bytes damaged) {table : FingerprintTable} {id n : Nat} (hpos : 1 ≤ span.1)
    (hspan : span.2 ≤ n + 1 ∨ span = (n + 1, n + 1 + checksumLength))
    (hlen : n + 1 + checksumLength ≤ bytes.length)
    (hok : Packet.verify table id ((bytes.drop 1).take n)
      (UInt16.ofNat (ByteOrder.little.word ((bytes.drop (n + 1)).take checksumLength))) =
        .ok .valid) :
    ∃ expected found, Packet.verify table id ((damaged.drop 1).take n)
      (UInt16.ofNat (ByteOrder.little.word ((damaged.drop (n + 1)).take checksumLength))) =
        .error (.badChecksum id expected found) := by
  have hlen' := h.length_eq
  refine Exists.imp (fun expected herror => ⟨_, herror⟩) (Packet.verify_of_changed hok ?_)
  rcases hspan with hbefore | rfl
  · -- The content is changed, and differs in adjacent places only.
    refine .inl ⟨by rw [h.slice_eq (.inr hbefore)], fun hsum => ?_⟩
    obtain ⟨pos, hagree⟩ := h.slice_close 1 n
    have hcontent : ((damaged.drop 1).take n).length = ((bytes.drop 1).take n).length := by
      simp only [List.length_take, List.length_drop, hlen']
    exact h.slice_ne hpos (by omega) (Checksum.eq_of_updateBytes_eq hcontent hagree hsum)
  · refine .inr ⟨h.slice_eq (.inl (by omega)), Packet.checksum_ne ?_ ?_ ?_⟩
    · rw [List.length_take, List.length_drop]
      omega
    · rw [List.length_take, List.length_drop]
      omega
    · exact h.slice_ne (Nat.le_refl _) (Nat.le_refl _)

/-- Damaged bytes begin with the same start byte, and with a header that tells the same but for the
routing of the frame. -/
theorem Damage.exists_readHeader {p head : Packet} {part : FramePart}
    {rest body damaged : List UInt8} {length : Nat}
    (hd : Damage (part.span p) (p.version.startByte :: rest) damaged)
    (hh : Packet.readHeader p.version rest = some (head, length, body)) :
    ∃ rest' head', damaged = p.version.startByte :: rest' ∧
      Packet.readHeader p.version rest' =
        some (head', length, rest'.drop (p.version.headerLength - 1)) ∧
      head'.messageId = head.messageId ∧ head'.incompatFlags = head.incompatFlags := by
  obtain ⟨rest', rfl⟩ : ∃ rest', damaged = p.version.startByte :: rest' := by
    have hfirst := hd.agree (j := 0) (.inl (part.span_pos p))
    cases damaged with
    | nil => simp at hfirst
    | cons s rest' => exact ⟨rest', by simpa using hfirst⟩
  have hlen : rest'.length = rest.length := by simpa using hd.length_eq
  have hagree : ∀ j, j + 1 < p.version.routeSpan.1 ∨ (p.version.routeSpan.2 ≤ j + 1 ∧
      j + 1 < p.version.headerLength) → rest'[j]? = rest[j]? := by
    intro j hj
    simpa using hd.agree (part.span_header p hj)
  obtain ⟨head', hh', hid, hflags⟩ := Packet.readHeader_of_agree hh hlen hagree
  exact ⟨rest', head', rfl, hh', hid, hflags⟩

/-- **Corruption is detected.** If the frame at the start of some bytes has a right checksum, and
one byte or two adjacent bytes are changed within its routing bytes, within its payload or within
its checksum, then a wrong checksum of the same message is reported. -/
theorem parse_detects_damage {table : FingerprintTable} {bytes damaged : List UInt8}
    {f : ParsedFrame} {used : Nat} (hp : Packet.parse bytes table = .ok (f, used))
    (hvalid : f.status = .valid) (part : FramePart)
    (hd : Damage (part.span f.packet) bytes damaged) :
    ∃ expected found, Packet.parse damaged table =
      .error (.badChecksum f.packet.messageId expected found) := by
  obtain ⟨version, rest, head, length, body, rfl, hh, hflags, hused, hle, hstatus, hpacket⟩ :=
    Packet.parse_eq_ok_iff.1 hp
  obtain ⟨hversion, -, hrest, hbody⟩ := Packet.readHeader_eq_some hh
  obtain rfl : f.packet.version = version := by rw [hpacket]; exact hversion
  have hpos := f.packet.version.headerLength_pos
  have htotal : f.packet.version.headerLength + length + checksumLength ≤ rest.length + 1 := by
    simp only [Packet.announced, List.length_cons, hversion] at hused hle
    omega
  have hid : f.packet.messageId = head.messageId := by rw [hpacket]
  have hlength : f.packet.payload.length = length := by
    rw [hpacket, List.length_take]
    omega
  -- The damaged bytes announce a frame of the same message and length.
  obtain ⟨rest', head', rfl, hh', hid', hflags'⟩ := hd.exists_readHeader hh
  obtain ⟨hversion', -⟩ := Packet.readHeader_eq_some hh'
  have hannounced : head'.announced length = head.announced length := by
    simp only [Packet.announced, Packet.signatureBytes, Packet.isSigned, hversion, hversion',
      hflags']
  have hle' : head'.announced length ≤ rest'.length + 1 := by
    rw [hannounced, ← hused, ← List.length_cons, hd.length_eq]
    exact hle
  -- So the checksum decides. It was right before.
  have hok : Packet.verify table head.messageId
      (((f.packet.version.startByte :: rest).drop 1).take
        (f.packet.version.headerLength - 1 + length))
      (UInt16.ofNat (ByteOrder.little.word (((f.packet.version.startByte :: rest).drop
        (f.packet.version.headerLength - 1 + length + 1)).take checksumLength))) = .ok .valid := by
    rw [← hvalid, ← hstatus, ← hbody, List.drop_drop]
    rfl
  have hspan := part.span_checksum f.packet
  rw [hlength, show f.packet.version.headerLength + length =
    f.packet.version.headerLength - 1 + length + 1 by omega] at hspan
  obtain ⟨expected, found, hbad⟩ := hd.verify_eq_error (part.span_pos f.packet) hspan
    (by rw [List.length_cons]; omega) hok
  refine ⟨expected, found, ?_⟩
  rw [hid]
  refine Packet.parse_of_verify_error hh' (hflags' ▸ hflags) hle' ?_
  rw [hid', List.drop_drop]
  exact hbad

/-- A frame whose system and component are swapped on its way. -/
theorem parse_detects_damage_swapped :
    let sent : List UInt8 := [0xFE, 9, 7, 1, 2, 0, 4, 0, 0, 0, 2, 3, 81, 4, 3, 136, 154, 0]
    let received : List UInt8 := [0xFE, 9, 7, 2, 1, 0, 4, 0, 0, 0, 2, 3, 81, 4, 3, 136, 154, 0]
    ∃ f, Packet.parse sent .sample = .ok (f, 17) ∧ f.status = .valid ∧
      Damage (FramePart.route.span f.packet) sent received ∧
      ∃ expected found, Packet.parse received .sample = .error (.badChecksum 0 expected found) := by
  intro sent received
  have hp : Packet.parse sent .sample =
      .ok (⟨{ version := .legacy, sequence := 7, systemId := 1, componentId := 2, messageId := 0,
              payload := [4, 0, 0, 0, 2, 3, 81, 4, 3] }, .valid⟩, 17) := rfl
  have hd : Damage (2, 5) sent received := ⟨rfl, by decide, 3, by decide⟩
  exact ⟨_, hp, rfl, hd, parse_detects_damage hp rfl .route hd⟩

end Telemetry
