import Telemetry.Proofs.Parse

/-!
# Packets and their frames

A packet that fits a frame has exactly one, and a frame that is read has exactly one packet. The two
directions are separate functions that compute the checksum from different bytes: the one from the
header that it builds, the other from the bytes that it was given.

* `exists_encode_iff`: which packets have a frame.
* `Framed.of_parse`: a frame that is read consists of the parts that its packet would be built from.
* `encode_then_parse`: reading undoes building.
* `parse_then_encode`: building undoes reading, so no two frames are read as one packet.
-/

namespace Telemetry

namespace Packet

/-- The flags of a packet's frame that a receiver does not know. Legacy frames carry no flags. -/
def unknownFlags (p : Packet) : UInt8 :=
  match p.version with
  | .legacy => 0
  | .extended => p.incompatFlags &&& ~~~signedFlag

theorem asReceived_flags (p : Packet) :
    p.asReceived.incompatFlags &&& ~~~signedFlag = p.unknownFlags := by
  cases hv : p.version <;> simp [asReceived, unknownFlags, hv]

/-! ## Building -/

theorem exists_trailer_iff {p : Packet} :
    (∃ ending, p.trailer = .ok ending) ↔ (p.isSigned → p.signature.isSome) := by
  unfold trailer
  by_cases hs : p.isSigned
  · cases hsig : p.signature <;> simp [hs]
  · simp [hs]

theorem isSome_finish? (table : FingerprintTable) (sum : UInt16) (id : Nat) :
    (table.finish? sum id).isSome = table.contains id := by
  rw [FingerprintTable.finish?, Option.isSome_map, SortedMap.contains]

/-- A packet has a frame exactly if id and payload fit it, its signature is there if it has one, and
the table has a fingerprint of the message. -/
theorem exists_encode_iff {p : Packet} {table : FingerprintTable} :
    (∃ frame, p.encode table = .ok frame) ↔
      p.messageId ≤ p.version.maxId ∧ p.payload.length ≤ maxPayloadLength ∧
        (p.isSigned → p.signature.isSome) ∧ table.contains p.messageId := by
  rw [← exists_trailer_iff,
    ← isSome_finish? table (Checksum.ofBytes (p.headerBytes ++ p.payload)),
    Option.isSome_iff_exists]
  constructor
  · rintro ⟨frame, h⟩
    obtain ⟨hid, hlen, ending, sum, ht, hsum, -⟩ := encode_eq_ok_iff.1 h
    exact ⟨hid, hlen, ⟨ending, ht⟩, ⟨sum, hsum⟩⟩
  · rintro ⟨hid, hlen, ⟨ending, ht⟩, ⟨sum, hsum⟩⟩
    exact ⟨_, encode_eq_ok_iff.2 ⟨hid, hlen, ending, sum, ht, hsum, rfl⟩⟩

/-- For a packet that fits a frame, a missing fingerprint is what is reported. -/
theorem encode_of_unknown {p : Packet} {table : FingerprintTable} {ending : List UInt8}
    (hid : p.messageId ≤ p.version.maxId) (hlen : p.payload.length ≤ maxPayloadLength)
    (ht : p.trailer = .ok ending) (hno : table.get? p.messageId = none) :
    p.encode table = .error (.unknownFingerprint p.messageId) := by
  have hsum : ∀ sum, table.finish? sum p.messageId = none := by
    intro sum
    rw [FingerprintTable.finish?, hno, Option.map_none]
  simp only [encode, header, if_neg (Nat.not_lt.2 hid), if_neg (Nat.not_lt.2 hlen), ht, checksumOf,
    hsum, bind, Except.bind]

/-- A receiver refuses flags that it does not know as soon as it has the header. -/
theorem parse_of_unknownFlags {p : Packet} (table : FingerprintTable)
    (hid : p.messageId ≤ p.version.maxId) (hlen : p.payload.length ≤ maxPayloadLength)
    (hflags : p.unknownFlags ≠ 0) (more : List UInt8) :
    parse (p.version.startByte :: (p.headerBytes ++ more)) table =
      .error (.unsupportedFlags p.unknownFlags) := by
  simp only [parse, FrameVersion.ofStartByte?_startByte, readHeader_headerBytes hid hlen,
    asReceived_flags, ne_eq, hflags, not_false_eq_true, if_true]

/-! ## Reading -/

section Header

variable {version : FrameVersion} {bytes body : List UInt8} {head p : Packet} {length : Nat}

/-- The header that was read is the one that a packet with its content would be given. -/
theorem headerBytes_of_readHeader (h : readHeader version bytes = some (head, length, body))
    (hp : p = { head with payload := p.payload, signature := p.signature })
    (hlen : p.payload.length = length) : bytes = p.headerBytes ++ body := by
  have hbyte : ∀ b : UInt8, UInt8.ofNat b.toNat = b := fun b => UInt8.ofNat_toNat
  rw [hp]
  unfold readHeader at h
  split at h
  · cases h
    simp only [headerBytes, hlen, hbyte, List.cons_append, List.nil_append]
  · rename_i a b c _
    cases h
    have hword : bytesUp 3 (wordUp [a, b, c]) = [a, b, c] := bytesUp_wordUp [a, b, c]
    simp only [headerBytes, hlen, hbyte, ByteOrder.bytes, ByteOrder.word, hword, List.cons_append,
      List.nil_append]
  · cases h

theorem messageId_le_of_readHeader (h : readHeader version bytes = some (head, length, body)) :
    head.messageId ≤ version.maxId := by
  unfold readHeader at h
  split at h
  · rename_i id _
    cases h
    exact Nat.le_of_lt_succ id.toNat_lt
  · rename_i a b c _
    cases h
    have hlt : wordUp [a, b, c] < Nat.pow 256 3 := wordUp_lt [a, b, c]
    exact Nat.le_of_lt_succ hlt
  · cases h

theorem unknownFlags_of_readHeader (h : readHeader version bytes = some (head, length, body))
    (hp : p = { head with payload := p.payload, signature := p.signature }) :
    p.unknownFlags = head.incompatFlags &&& ~~~signedFlag := by
  rw [hp]
  unfold readHeader at h
  split at h
  · cases h
    simp only [unknownFlags, UInt8.zero_and]
  · cases h
    rfl
  · cases h

end Header

/-- A checksum is written as the bytes that it was found in. -/
theorem bytes_checksum {bytes : List UInt8} (h : bytes.length = checksumLength) :
    ByteOrder.little.bytes checksumLength (UInt16.ofNat (ByteOrder.little.word bytes)).toNat =
      bytes := by
  have hlt : ByteOrder.little.word bytes < 0x10000 := by
    have := wordUp_lt bytes
    rwa [h] at this
  rw [UInt16.toNat_ofNat', Nat.mod_eq_of_lt hlt, ← h, ByteOrder.bytes_word]

/-- The signature read from what follows the checksum is the one that the frame is given. -/
theorem trailer_of_signature {p : Packet} {tail : List UInt8}
    (hlen : p.signatureBytes ≤ tail.length)
    (hsig : p.signature =
      if p.isSigned then Signature.ofBytes? (tail.take signatureLength) else none) :
    p.trailer = .ok (tail.take p.signatureBytes) ∧ (p.signature.isSome ↔ p.isSigned) := by
  unfold signatureBytes at hlen ⊢
  unfold trailer
  by_cases hs : p.isSigned
  · rw [if_pos hs] at hlen hsig ⊢
    have htake : (tail.take signatureLength).length = signatureLength := by
      rw [List.length_take, Nat.min_eq_left hlen]
    rw [Signature.ofBytes?, dif_pos htake] at hsig
    rw [hsig]
    exact ⟨by rw [if_pos hs], by simp [hs]⟩
  · rw [if_neg hs] at hsig ⊢
    rw [hsig]
    exact ⟨by rw [if_neg hs, List.take_zero], by simp [hs]⟩

theorem verify_eq_valid_iff {table : FingerprintTable} {id : Nat} {content : List UInt8}
    {found : UInt16} : verify table id content found = .ok .valid ↔
      table.finish? (Checksum.ofBytes content) id = some found := by
  unfold verify
  cases hsum : table.finish? (Checksum.ofBytes content) id with
  | none => simp
  | some expected => by_cases h : expected = found <;> simp [h]

theorem verify_eq_unverified_iff {table : FingerprintTable} {id : Nat} {content : List UInt8}
    {found : UInt16} : verify table id content found = .ok .unverified ↔
      table.get? id = none := by
  unfold verify
  cases hget : table.get? id with
  | none => simp [FingerprintTable.finish?, hget]
  | some e =>
    simp only [FingerprintTable.finish?, hget, Option.map_some]
    split <;> simp

end Packet

/-- The parts that the first `used` bytes consist of when `f` is read from them: those of the frame
of its packet, with the checksum `sum` that was found, and `ending` behind it. -/
structure Framed (table : FingerprintTable) (bytes : List UInt8) (f : ParsedFrame) (used : Nat)
    (sum : UInt16) (ending : List UInt8) : Prop where
  id_le : f.packet.messageId ≤ f.packet.version.maxId
  payload_le : f.packet.payload.length ≤ maxPayloadLength
  known_flags : f.packet.unknownFlags = 0
  trailer : f.packet.trailer = .ok ending
  signature : f.packet.signature.isSome ↔ f.packet.isSigned
  used_eq : used = f.packet.wireLength
  bytes_eq : bytes.take used = f.packet.version.startByte :: f.packet.headerBytes
    ++ f.packet.payload ++ ByteOrder.little.bytes checksumLength sum.toNat ++ ending
  status : Packet.verify table f.packet.messageId (f.packet.headerBytes ++ f.packet.payload) sum =
    .ok f.status

theorem Framed.of_parse {table : FingerprintTable} {bytes : List UInt8} {f : ParsedFrame}
    {used : Nat} (h : Packet.parse bytes table = .ok (f, used)) :
    ∃ sum ending, Framed table bytes f used sum ending := by
  obtain ⟨version, rest, head, length, body, rfl, hh, hflags, hused, hle, hstatus, hpacket⟩ :=
    Packet.parse_eq_ok_iff.1 h
  obtain ⟨hversion, hlen, hrest, -⟩ := Packet.readHeader_eq_some hh
  subst hversion
  have hpos := head.version.headerLength_pos
  have hbody : length + checksumLength + head.signatureBytes ≤ body.length := by
    simp only [Packet.announced, List.length_cons] at hused hle
    omega
  have hpay : (body.take length).length = length := by
    rw [List.length_take]
    omega
  have hsum : ((body.drop length).take checksumLength).length = checksumLength := by
    rw [List.length_take, List.length_drop]
    omega
  -- The packet is the header with payload and signature, and the header says if it is signed.
  have hp : f.packet =
      { head with payload := f.packet.payload, signature := f.packet.signature } := by
    rw [hpacket]
  have hv : f.packet.version = head.version := by rw [hp]
  have hid : f.packet.messageId = head.messageId := by rw [hp]
  have hsigbytes : f.packet.signatureBytes = head.signatureBytes := by rw [hp]; rfl
  have hpayload : f.packet.payload = body.take length := by rw [hpacket]
  have hheader := Packet.headerBytes_of_readHeader hh hp (by rw [hpayload, hpay])
  have htail : f.packet.signatureBytes ≤ (body.drop (length + checksumLength)).length := by
    rw [hsigbytes, List.length_drop]
    omega
  have hsig : f.packet.signature =
      if f.packet.isSigned then
        Signature.ofBytes? ((body.drop (length + checksumLength)).take signatureLength)
      else none := by
    rw [hpacket]
    rfl
  obtain ⟨htrailer, hsome⟩ := Packet.trailer_of_signature htail hsig
  rw [hsigbytes] at htrailer
  refine ⟨UInt16.ofNat (ByteOrder.little.word ((body.drop length).take checksumLength)), _,
    ⟨?_, ?_, ?_, htrailer, hsome, ?_, ?_, ?_⟩⟩
  · rw [hid, hv]
    exact Packet.messageId_le_of_readHeader hh
  · rw [hpayload, hpay]
    exact hlen
  · rw [Packet.unknownFlags_of_readHeader hh hp, hflags]
  · rw [hused, Packet.announced, Packet.wireLength, hv, hpayload, hpay, hsigbytes]
  · have hsplit : used = f.packet.headerBytes.length +
        (length + checksumLength + head.signatureBytes) + 1 := by
      rw [hused, Packet.announced, Packet.length_headerBytes, hv]
      omega
    rw [hsplit, List.take_succ_cons, hheader, List.take_length_add_append, List.take_add,
      List.take_add, Packet.bytes_checksum hsum, hpayload, hv]
    simp only [List.cons_append, List.append_assoc]
  · rw [← hstatus, hid, hpayload, hheader, ← hv, ← Packet.length_headerBytes,
      List.take_length_add_append]

/-- The frame of a packet that was read is what it was read from, if the checksum could be
compared. -/
theorem Framed.encode_eq {table : FingerprintTable} {bytes : List UInt8} {f : ParsedFrame}
    {used : Nat} {sum : UInt16} {ending : List UInt8} (h : Framed table bytes f used sum ending) :
    f.packet.encode table = match f.status with
      | .valid => .ok (bytes.take used)
      | .unverified => .error (.unknownFingerprint f.packet.messageId) := by
  have hstatus := h.status
  cases hs : f.status with
  | valid =>
    rw [hs, Packet.verify_eq_valid_iff] at hstatus
    exact Packet.encode_eq_ok_iff.2
      ⟨h.id_le, h.payload_le, ending, sum, h.trailer, hstatus, h.bytes_eq⟩
  | unverified =>
    rw [hs, Packet.verify_eq_unverified_iff] at hstatus
    exact Packet.encode_of_unknown h.id_le h.payload_le h.trailer hstatus

/-! ## Both directions -/

/-- **Reading undoes building.** A packet has a frame exactly if its id and payload fit, the
signature of a signed one is there, and the table has its fingerprint. That frame is as long as the
packet says and, whatever follows it, is read back as the packet without what its frame does not
carry, unless it has flags that a receiver does not know. -/
theorem encode_then_parse (p : Packet) (table : FingerprintTable) :
    ((∃ frame, p.encode table = .ok frame) ↔
      p.messageId ≤ p.version.maxId ∧ p.payload.length ≤ 255 ∧
        (p.isSigned → p.signature.isSome) ∧ table.contains p.messageId) ∧
    ∀ frame, p.encode table = .ok frame →
      frame.length = p.wireLength ∧
      ∀ rest, Packet.parse (frame ++ rest) table =
        if p.unknownFlags ≠ 0 then .error (.unsupportedFlags p.unknownFlags)
        else .ok (⟨p.asReceived, .valid⟩, p.wireLength) := by
  refine ⟨Packet.exists_encode_iff, fun frame h => ⟨Packet.length_of_encode h, fun rest => ?_⟩⟩
  by_cases hflags : p.unknownFlags = 0
  · rw [if_neg (not_not_intro hflags)]
    exact Packet.parse_encode h ((Packet.asReceived_flags p).trans hflags) rest
  · rw [if_pos hflags]
    obtain ⟨hid, hlen, ending, sum, -, -, rfl⟩ := Packet.encode_eq_ok_iff.1 h
    simp only [List.cons_append, List.append_assoc]
    exact Packet.parse_of_unknownFlags table hid hlen hflags _

/-- A signed packet as it was received, with an id of more than one byte. -/
def Packet.signedReading : Packet where
  version := .extended
  incompatFlags := 1
  compatFlags := 4
  sequence := 255
  systemId := 1
  componentId := 190
  messageId := 300
  payload := [0xFD, 0, 7]
  signature := some ⟨[1, 2, 3, 4, 5, 6, 7, 8, 9, 10, 11, 12, 13], rfl⟩

/-- The fingerprints of two messages. -/
def FingerprintTable.sample : FingerprintTable := SortedMap.ofList [(300, 177), (0, 50)]

/-- A signed packet, whatever follows its frame. -/
theorem encode_then_parse_signed :
    ∃ frame, Packet.signedReading.encode .sample = .ok frame ∧ frame.length = 28 ∧
      ∀ rest, Packet.parse (frame ++ rest) .sample = .ok (⟨.signedReading, .valid⟩, 28) := by
  obtain ⟨hiff, hread⟩ := encode_then_parse .signedReading .sample
  obtain ⟨frame, hframe⟩ := hiff.2 (by decide)
  obtain ⟨hlen, hrest⟩ := hread frame hframe
  exact ⟨frame, hframe, hlen, hrest⟩

/-- **Building undoes reading.** A frame that is read lies within the bytes, is as long as its
packet says, and has a signature exactly if it is signed. If its checksum was right, its packet has
this very frame; if it could not be compared, its packet has none for want of a fingerprint. So no
two valid frames are read as one packet, and the byte strings that are read as one valid frame are
the frames of packets whose flags are known. -/
theorem parse_then_encode (table : FingerprintTable) :
    (∀ bytes f used, Packet.parse bytes table = .ok (f, used) →
      used ≤ bytes.length ∧ used = f.packet.wireLength ∧
      (f.packet.signature.isSome ↔ f.packet.isSigned) ∧
      f.packet.encode table = match f.status with
        | .valid => .ok (bytes.take used)
        | .unverified => .error (.unknownFingerprint f.packet.messageId)) ∧
    (∀ bytes bytes' p used used', Packet.parse bytes table = .ok (⟨p, .valid⟩, used) →
      Packet.parse bytes' table = .ok (⟨p, .valid⟩, used') → bytes.take used = bytes'.take used') ∧
    (∀ bytes, (∃ p, Packet.parse bytes table = .ok (⟨p, .valid⟩, bytes.length)) ↔
      ∃ p : Packet, p.unknownFlags = 0 ∧ p.encode table = .ok bytes) := by
  refine ⟨?_, ?_, fun bytes => ⟨?_, ?_⟩⟩
  · intro bytes f used h
    obtain ⟨sum, ending, hf⟩ := Framed.of_parse h
    exact ⟨Packet.used_le_of_parse h, hf.used_eq, hf.signature, hf.encode_eq⟩
  · intro bytes bytes' p used used' h h'
    obtain ⟨_, _, hf⟩ := Framed.of_parse h
    obtain ⟨_, _, hf'⟩ := Framed.of_parse h'
    exact Except.ok.inj (hf.encode_eq.symm.trans hf'.encode_eq)
  · rintro ⟨p, h⟩
    obtain ⟨_, _, hf⟩ := Framed.of_parse h
    have henc := hf.encode_eq
    rw [List.take_length] at henc
    exact ⟨p, hf.known_flags, henc⟩
  · rintro ⟨p, hflags, h⟩
    have hread := Packet.parse_encode h ((Packet.asReceived_flags p).trans hflags) []
    rw [List.append_nil, ← Packet.length_of_encode h] at hread
    exact ⟨_, hread⟩

/-- A legacy frame with a byte behind it. -/
theorem parse_then_encode_heartbeat :
    ∃ p, Packet.parse [0xFE, 9, 7, 1, 2, 0, 4, 0, 0, 0, 2, 3, 81, 4, 3, 136, 154, 0] .sample =
        .ok (⟨p, .valid⟩, 17) ∧
      p.encode .sample = .ok [0xFE, 9, 7, 1, 2, 0, 4, 0, 0, 0, 2, 3, 81, 4, 3, 136, 154] := by
  have hread : Packet.parse [0xFE, 9, 7, 1, 2, 0, 4, 0, 0, 0, 2, 3, 81, 4, 3, 136, 154, 0] .sample =
      .ok (⟨{ version := .legacy, sequence := 7, systemId := 1, componentId := 2, messageId := 0,
              payload := [4, 0, 0, 0, 2, 3, 81, 4, 3] }, .valid⟩, 17) := rfl
  obtain ⟨-, -, -, henc⟩ := (parse_then_encode .sample).1 _ _ _ hread
  exact ⟨_, hread, henc⟩

end Telemetry
