import Telemetry.Frame.Packet

/-!
# Reading one frame

`Packet.parse` decides on the frame at the start of some bytes, and does so as early as it can.

* `parse_eq_ok_iff`: when a frame is read, and which one.
* `parse_append`: bytes behind those that decide make no difference.
* `Awaits`, `parse_eq_truncated_iff`: when bytes are missing, and how many.
* `needed_le_of_truncated`: no more is asked for than the frame has.
* `parse_take`: a frame is read from its own bytes alone.
* `parse_encode`: a frame that was built is read back.
-/

namespace Telemetry

namespace FrameVersion

@[simp] theorem ofStartByte?_startByte (v : FrameVersion) : ofStartByte? v.startByte = some v := by
  cases v <;> rfl

theorem startByte_of_ofStartByte? {b : UInt8} {v : FrameVersion} (h : ofStartByte? b = some v) :
    b = v.startByte := by
  unfold ofStartByte? at h
  split at h
  · cases h; assumption
  · split at h
    · cases h; assumption
    · cases h

theorem startByte_inj {v v' : FrameVersion} (h : v.startByte = v'.startByte) : v = v' := by
  have hv := congrArg ofStartByte? h
  rw [ofStartByte?_startByte, ofStartByte?_startByte] at hv
  exact Option.some.inj hv

theorem headerLength_pos (v : FrameVersion) : 0 < v.headerLength := by
  cases v <;> decide

end FrameVersion

namespace Packet

/-! ## Headers -/

/-- The bytes of a frame whose header is `head` and whose payload has `length` bytes. -/
def announced (head : Packet) (length : Nat) : Nat :=
  head.version.headerLength + length + checksumLength + head.signatureBytes

/-- What a header tells: the version of the start byte, a payload length of one byte, and that the
rest of the frame begins behind the header. -/
theorem readHeader_eq_some {version : FrameVersion} {bytes body : List UInt8} {head : Packet}
    {length : Nat} (h : readHeader version bytes = some (head, length, body)) :
    head.version = version ∧ length ≤ maxPayloadLength ∧
      bytes.length = version.headerLength - 1 + body.length ∧
      bytes.drop (version.headerLength - 1) = body := by
  unfold readHeader at h
  split at h
  · rename_i b _ _ _ _ _
    cases h
    refine ⟨rfl, Nat.le_of_lt_succ b.toNat_lt, ?_, rfl⟩
    simp only [List.length_cons, FrameVersion.headerLength]
    omega
  · rename_i b _ _ _ _ _ _ _ _ _
    cases h
    refine ⟨rfl, Nat.le_of_lt_succ b.toNat_lt, ?_, rfl⟩
    simp only [List.length_cons, FrameVersion.headerLength]
    omega
  · cases h

theorem readHeader_append {version : FrameVersion} {bytes body : List UInt8} {head : Packet}
    {length : Nat} (h : readHeader version bytes = some (head, length, body))
    (more : List UInt8) :
    readHeader version (bytes ++ more) = some (head, length, body ++ more) := by
  unfold readHeader at h
  split at h
  · cases h; rfl
  · cases h; rfl
  · cases h

/-- The bytes of a legacy header by position. -/
theorem readHeader_legacy {bytes : List UInt8} (h : 5 ≤ bytes.length) :
    readHeader .legacy bytes = some (
      { version := .legacy, sequence := bytes[1], systemId := bytes[2], componentId := bytes[3]
        messageId := bytes[4].toNat, payload := [] },
      bytes[0].toNat, bytes.drop 5) := by
  match bytes, h with
  | _ :: _ :: _ :: _ :: _ :: _, _ => rfl

/-- The bytes of an extended header by position. -/
theorem readHeader_extended {bytes : List UInt8} (h : 9 ≤ bytes.length) :
    readHeader .extended bytes = some (
      { version := .extended, incompatFlags := bytes[1], compatFlags := bytes[2]
        sequence := bytes[3], systemId := bytes[4], componentId := bytes[5]
        messageId := ByteOrder.little.word [bytes[6], bytes[7], bytes[8]], payload := [] },
      bytes[0].toNat, bytes.drop 9) := by
  match bytes, h with
  | _ :: _ :: _ :: _ :: _ :: _ :: _ :: _ :: _ :: _, _ => rfl

theorem length_of_readHeader_eq_none {version : FrameVersion} {bytes : List UInt8}
    (h : readHeader version bytes = none) : bytes.length + 1 < version.headerLength := by
  apply Nat.lt_of_not_le
  intro hge
  cases version with
  | legacy =>
    rw [readHeader_legacy (Nat.le_of_succ_le_succ hge)] at h
    cases h
  | extended =>
    rw [readHeader_extended (Nat.le_of_succ_le_succ hge)] at h
    cases h

/-! ## Frames that are read -/

/-- A frame is read exactly if the bytes hold all of it: a start byte, a header with no unknown
flags, as many bytes as the header announces, and a checksum that is right or cannot be compared. -/
theorem parse_eq_ok_iff {bytes : List UInt8} {table : FingerprintTable} {f : ParsedFrame}
    {used : Nat} :
    parse bytes table = .ok (f, used) ↔
      ∃ version rest head length body,
        bytes = version.startByte :: rest ∧
        readHeader version rest = some (head, length, body) ∧
        head.incompatFlags &&& ~~~signedFlag = 0 ∧
        used = head.announced length ∧ used ≤ bytes.length ∧
        verify table head.messageId (rest.take (version.headerLength - 1 + length))
          (UInt16.ofNat (ByteOrder.little.word ((body.drop length).take checksumLength))) =
            .ok f.status ∧
        f.packet = { head with
          payload := body.take length
          signature :=
            if head.isSigned then
              Signature.ofBytes? ((body.drop (length + checksumLength)).take signatureLength)
            else none } := by
  constructor
  · intro h
    unfold parse at h
    split at h
    · cases h
    rename_i first rest
    split at h
    · cases h
    rename_i version hv
    split at h
    · cases h
    rename_i head length body hh
    obtain ⟨hversion, -⟩ := readHeader_eq_some hh
    have hstart := FrameVersion.startByte_of_ofStartByte? hv
    dsimp only at h
    split at h
    · cases h
    rename_i hflags
    split at h
    · cases h
    rename_i htotal
    simp only [bind, Except.bind] at h
    split at h
    · cases h
    rename_i status hstatus
    cases h
    subst hversion
    exact ⟨head.version, rest, head, length, body, by rw [hstart], hh, by simpa using hflags, rfl,
      Nat.le_of_not_lt htotal, hstatus, rfl⟩
  · rintro ⟨version, rest, head, length, body, rfl, hh, hflags, rfl, hle, hstatus, hp⟩
    obtain ⟨hversion, -⟩ := readHeader_eq_some hh
    subst hversion
    have htotal : ¬ (head.version.startByte :: rest).length <
        head.version.headerLength + length + checksumLength + head.signatureBytes :=
      Nat.not_lt.2 hle
    simp only [parse, FrameVersion.ofStartByte?_startByte, hh, hflags, ne_eq, not_true_eq_false,
      if_false, htotal, hstatus, bind, Except.bind, pure, Except.pure, ← hp, announced]

/-- A frame that is read lies within the bytes and begins with a start byte. -/
theorem used_le_of_parse {bytes : List UInt8} {table : FingerprintTable} {f : ParsedFrame}
    {used : Nat} (h : parse bytes table = .ok (f, used)) : used ≤ bytes.length := by
  obtain ⟨_, _, _, _, _, -, -, -, -, hle, -⟩ := parse_eq_ok_iff.1 h
  exact hle

/-- Once enough bytes are there to decide on a frame, further bytes change nothing. -/
theorem parse_append {bytes : List UInt8} {table : FingerprintTable}
    (h : ∀ needed available, parse bytes table ≠ .error (.truncated needed available))
    (more : List UInt8) : parse (bytes ++ more) table = parse bytes table := by
  cases bytes with
  | nil => exact absurd rfl (h 1 0)
  | cons first rest =>
    cases hv : FrameVersion.ofStartByte? first with
    | none => simp [parse, hv]
    | some version =>
      cases hh : readHeader version rest with
      | none => exact absurd (by simp [parse, hv, hh]) (h version.headerLength (rest.length + 1))
      | some read =>
        obtain ⟨head, length, body⟩ := read
        obtain ⟨-, -, hrest, -⟩ := readHeader_eq_some hh
        have hpos := version.headerLength_pos
        by_cases hflags : head.incompatFlags &&& ~~~signedFlag = 0
        · have htotal : ¬ rest.length + 1 <
              version.headerLength + length + checksumLength + head.signatureBytes := by
            intro hlt
            refine h (version.headerLength + length + checksumLength + head.signatureBytes)
              (rest.length + 1) ?_
            simp [parse, hv, hh, hflags, hlt]
          have htotal' : ¬ rest.length + more.length + 1 <
              version.headerLength + length + checksumLength + head.signatureBytes := by omega
          -- Each part of the frame lies within the bytes that were there before.
          have hcontent : (rest ++ more).take (version.headerLength - 1 + length) =
              rest.take (version.headerLength - 1 + length) :=
            List.take_append_of_le_length (by omega)
          have hpayload : (body ++ more).take length = body.take length :=
            List.take_append_of_le_length (by omega)
          have hsum : ((body ++ more).drop length).take checksumLength =
              (body.drop length).take checksumLength := by
            rw [List.drop_append_of_le_length (by omega),
              List.take_append_of_le_length (by simp; omega)]
          have hsignature : head.isSigned →
              ((body ++ more).drop (length + checksumLength)).take signatureLength =
                (body.drop (length + checksumLength)).take signatureLength := by
            intro hs
            rw [signatureBytes, if_pos hs] at htotal
            rw [List.drop_append_of_le_length (by omega),
              List.take_append_of_le_length (by simp; omega)]
          simp only [List.cons_append, parse, hv, readHeader_append hh more, hh, hflags, ne_eq,
            not_true_eq_false, if_false, List.length_cons, List.length_append, htotal, htotal',
            hcontent, hpayload, hsum]
          by_cases hs : head.isSigned
          · rw [hsignature hs]
          · simp only [hs, Bool.false_eq_true, if_false]
        · simp [parse, hv, hh, readHeader_append hh more, hflags]

theorem verify_ne_truncated {table : FingerprintTable} {id : Nat} {content : List UInt8}
    {found : UInt16} {needed available : Nat} :
    verify table id content found ≠ .error (.truncated needed available) := by
  unfold verify
  split
  · simp
  · split <;> simp

/-! ## Bytes that do not decide yet -/

/-- The bytes are the start of a frame on which they do not decide, and so many are needed to go on:
a first byte, the whole header, or all that the header announces. -/
inductive Awaits : List UInt8 → Nat → Prop where
  | start : Awaits [] 1
  | header {version : FrameVersion} {rest : List UInt8} (h : readHeader version rest = none) :
    Awaits (version.startByte :: rest) version.headerLength
  | body {version : FrameVersion} {rest body : List UInt8} {head : Packet} {length : Nat}
    (h : readHeader version rest = some (head, length, body))
    (hflags : head.incompatFlags &&& ~~~signedFlag = 0)
    (hlt : rest.length + 1 < head.announced length) :
    Awaits (version.startByte :: rest) (head.announced length)

/-- Bytes are reported as missing exactly if those at hand do not decide. -/
theorem parse_eq_truncated_iff {bytes : List UInt8} {table : FingerprintTable}
    {needed available : Nat} :
    parse bytes table = .error (.truncated needed available) ↔
      available = bytes.length ∧ Awaits bytes needed := by
  constructor
  · intro h
    unfold parse at h
    split at h
    · cases h
      exact ⟨rfl, .start⟩
    rename_i first rest
    split at h
    · cases h
    rename_i version hv
    cases FrameVersion.startByte_of_ofStartByte? hv
    split at h
    · rename_i hnone
      cases h
      exact ⟨rfl, .header hnone⟩
    rename_i head length body hh
    obtain ⟨hversion, -⟩ := readHeader_eq_some hh
    subst hversion
    dsimp only at h
    split at h
    · cases h
    rename_i hflags
    split at h
    · rename_i hlt
      cases h
      exact ⟨rfl, .body hh (Decidable.not_not.1 hflags) hlt⟩
    · simp only [bind, Except.bind] at h
      split at h
      · rename_i e he
        cases h
        exact absurd he verify_ne_truncated
      · cases h
  · rintro ⟨rfl, hawaits⟩
    cases hawaits with
    | start => rfl
    | header hnone =>
      simp only [parse, FrameVersion.ofStartByte?_startByte, hnone]
    | body hh hflags hlt =>
      obtain ⟨hversion, -⟩ := readHeader_eq_some hh
      subst hversion
      simp only [announced] at hlt
      simp only [parse, FrameVersion.ofStartByte?_startByte, hh, hflags, ne_eq, not_true_eq_false,
        if_false, List.length_cons, hlt, if_true, announced]

/-- More bytes are asked for than there are. -/
theorem Awaits.length_lt {bytes : List UInt8} {needed : Nat} (h : Awaits bytes needed) :
    bytes.length < needed := by
  cases h with
  | start => exact Nat.one_pos
  | header hnone => exact length_of_readHeader_eq_none hnone
  | body _ _ hlt => exact hlt

/-- When the start of a frame is too short, more bytes are asked for than there are, and never more
than the frame has. -/
theorem needed_le_of_truncated {bytes more : List UInt8} {table : FingerprintTable}
    {f : ParsedFrame} {used needed available : Nat}
    (h : parse (bytes ++ more) table = .ok (f, used))
    (ht : parse bytes table = .error (.truncated needed available)) :
    available = bytes.length ∧ bytes.length < needed ∧ needed ≤ used := by
  obtain ⟨rfl, hawaits⟩ := parse_eq_truncated_iff.1 ht
  refine ⟨rfl, hawaits.length_lt, ?_⟩
  have hpos := parse_used_pos h
  obtain ⟨version, rest, head, length, body, heq, hh, -, rfl, -⟩ := parse_eq_ok_iff.1 h
  obtain ⟨hversion, -⟩ := readHeader_eq_some hh
  cases hawaits with
  | start => exact hpos
  | header _ =>
    obtain ⟨hfirst, -⟩ := List.cons.inj heq
    rw [FrameVersion.startByte_inj hfirst, announced, hversion]
    omega
  | body hstart _ _ =>
    -- The header is all there, and is that of the frame.
    obtain ⟨hfirst, rfl⟩ := List.cons.inj heq
    cases FrameVersion.startByte_inj hfirst
    cases (readHeader_append hstart more).symm.trans hh
    exact Nat.le_refl _

/-- A frame is read from its own bytes as from those it begins. -/
theorem parse_take {bytes : List UInt8} {table : FingerprintTable} {f : ParsedFrame} {used : Nat}
    (h : parse bytes table = .ok (f, used)) : parse (bytes.take used) table = .ok (f, used) := by
  have hsplit : parse (bytes.take used ++ bytes.drop used) table = .ok (f, used) := by
    rwa [List.take_append_drop]
  have hlen : (bytes.take used).length = used := by
    rw [List.length_take, Nat.min_eq_left (used_le_of_parse h)]
  rw [← hsplit]
  refine (parse_append (fun needed available ht => ?_) (bytes.drop used)).symm
  obtain ⟨-, hlt, hle⟩ := needed_le_of_truncated hsplit ht
  omega

/-! ## Frames that are built -/

/-- The packet as its frame tells it: legacy frames carry no flags, and only signed ones a
signature. -/
def asReceived (p : Packet) : Packet :=
  { p with
    incompatFlags := if p.version = .legacy then 0 else p.incompatFlags
    compatFlags := if p.version = .legacy then 0 else p.compatFlags
    signature := if p.isSigned then p.signature else none }

theorem isSigned_asReceived (p : Packet) : p.asReceived.isSigned = p.isSigned := by
  cases hv : p.version <;> simp [isSigned, asReceived, hv]

@[simp] theorem length_headerBytes (p : Packet) :
    p.headerBytes.length = p.version.headerLength - 1 := by
  cases hv : p.version <;> simp [headerBytes, hv, FrameVersion.headerLength]

/-- The header of a packet is read back, if id and payload fit a frame. -/
theorem readHeader_headerBytes {p : Packet} (hid : p.messageId ≤ p.version.maxId)
    (hlen : p.payload.length ≤ maxPayloadLength) (more : List UInt8) :
    readHeader p.version (p.headerBytes ++ more) =
      some ({ p.asReceived with payload := [], signature := none }, p.payload.length, more) := by
  have hlen' : (UInt8.ofNat p.payload.length).toNat = p.payload.length := by
    rw [UInt8.toNat_ofNat']
    exact Nat.mod_eq_of_lt (Nat.lt_succ_of_le hlen)
  cases hv : p.version with
  | legacy =>
    rw [hv] at hid
    have hid' : (UInt8.ofNat p.messageId).toNat = p.messageId := by
      rw [UInt8.toNat_ofNat']
      exact Nat.mod_eq_of_lt (Nat.lt_succ_of_le hid)
    simp [readHeader, headerBytes, asReceived, hv, hlen', hid']
  | extended =>
    rw [hv] at hid
    have hid' : ByteOrder.little.word (ByteOrder.little.bytes 3 p.messageId) = p.messageId := by
      rw [ByteOrder.word_bytes]
      exact Nat.mod_eq_of_lt (Nat.lt_succ_of_le hid)
    simp only [ByteOrder.bytes, bytesUp] at hid'
    simp [readHeader, headerBytes, asReceived, hv, hlen', ByteOrder.bytes, bytesUp, hid']

/-- A frame is built exactly if id and payload fit it, its signature is there if it has one, and the
table has a fingerprint of the message. -/
theorem encode_eq_ok_iff {p : Packet} {table : FingerprintTable} {frame : List UInt8} :
    p.encode table = .ok frame ↔
      p.messageId ≤ p.version.maxId ∧ p.payload.length ≤ maxPayloadLength ∧
      ∃ ending sum, p.trailer = .ok ending ∧
        table.finish? (Checksum.ofBytes (p.headerBytes ++ p.payload)) p.messageId = some sum ∧
        frame = p.version.startByte :: p.headerBytes ++ p.payload
          ++ ByteOrder.little.bytes checksumLength sum.toNat ++ ending := by
  unfold encode header checksumOf
  rw [Checksum.ofBytes_append]
  by_cases hid : p.version.maxId < p.messageId
  · simp [hid, Nat.not_le.2 hid, bind, Except.bind]
  by_cases hlen : maxPayloadLength < p.payload.length
  · simp [hid, hlen, Nat.not_le.2 hlen, bind, Except.bind]
  cases ht : p.trailer with
  | error e => simp [hid, hlen, bind, Except.bind]
  | ok ending =>
    cases hs : table.finish? (Checksum.updateBytes (Checksum.ofBytes p.headerBytes) p.payload)
        p.messageId with
    | none => simp [hid, hlen, hs, bind, Except.bind]
    | some sum =>
      simp only [hid, hlen, hs, if_false, bind, Except.bind, pure, Except.pure, Except.ok.injEq,
        Nat.le_of_not_lt hid, Nat.le_of_not_lt hlen, true_and, Option.some.injEq]
      constructor
      · rintro rfl
        exact ⟨ending, sum, rfl, rfl, rfl⟩
      · rintro ⟨_, _, rfl, rfl, rfl⟩
        rfl

/-- What a frame ends with is as long as the signature it announces. -/
theorem trailer_eq_ok {p : Packet} {ending : List UInt8} (h : p.trailer = .ok ending) :
    ending.length = p.signatureBytes ∧
      (p.isSigned → Signature.ofBytes? ending = p.signature) := by
  unfold trailer at h
  by_cases hs : p.isSigned
  · rw [if_pos hs] at h
    split at h
    · rename_i signature hsig
      cases h
      refine ⟨by rw [signature.length_eq, signatureBytes, if_pos hs], fun _ => ?_⟩
      rw [hsig, Signature.ofBytes?, dif_pos signature.length_eq]
    · cases h
  · rw [if_neg hs] at h
    cases h
    exact ⟨by rw [signatureBytes, if_neg hs]; rfl, fun h => absurd h hs⟩

theorem length_of_encode {p : Packet} {table : FingerprintTable} {frame : List UInt8}
    (h : p.encode table = .ok frame) : frame.length = p.wireLength := by
  obtain ⟨-, -, ending, sum, ht, -, rfl⟩ := encode_eq_ok_iff.1 h
  obtain ⟨hlen, -⟩ := trailer_eq_ok ht
  have hpos := p.version.headerLength_pos
  simp only [List.length_append, List.length_cons, length_headerBytes, ByteOrder.length_bytes, hlen,
    wireLength]
  omega

/-- A frame that was built is read back, whatever follows it, unless it has flags that a receiver
does not know. -/
theorem parse_encode {p : Packet} {table : FingerprintTable} {frame : List UInt8}
    (h : p.encode table = .ok frame) (hflags : p.asReceived.incompatFlags &&& ~~~signedFlag = 0)
    (more : List UInt8) :
    parse (frame ++ more) table = .ok (⟨p.asReceived, .valid⟩, p.wireLength) := by
  have hwire := length_of_encode h
  obtain ⟨hid, hlen, ending, sum, ht, hsum, rfl⟩ := encode_eq_ok_iff.1 h
  obtain ⟨hending, hsig⟩ := trailer_eq_ok ht
  have hsigned : ({ p.asReceived with payload := [], signature := none } : Packet).isSigned =
      p.isSigned := isSigned_asReceived p
  -- The parts of the frame behind the header, and behind the payload.
  have hpay : ∀ tail : List UInt8, (p.payload ++ tail).take p.payload.length = p.payload :=
    fun tail => List.take_left
  have hsum' : ∀ tail : List UInt8, ((p.payload ++ (ByteOrder.little.bytes checksumLength sum.toNat
      ++ tail)).drop p.payload.length).take checksumLength =
        ByteOrder.little.bytes checksumLength sum.toNat := by
    intro tail
    rw [List.drop_left, List.take_left' (ByteOrder.length_bytes ..)]
  have hfound : UInt16.ofNat (ByteOrder.little.word
      (ByteOrder.little.bytes checksumLength sum.toNat)) = sum := by
    rw [ByteOrder.word_bytes]
    exact UInt16.toNat_inj.1 (by simp [checksumLength])
  refine parse_eq_ok_iff.2 ⟨p.version, p.headerBytes ++ (p.payload ++
    (ByteOrder.little.bytes checksumLength sum.toNat ++ (ending ++ more))), _, _, _, ?_,
    readHeader_headerBytes hid hlen _, hflags, ?_, ?_, ?_, ?_⟩
  · simp only [List.cons_append, List.append_assoc]
  · simp only [announced, wireLength, signatureBytes, hsigned]
    rfl
  · rw [List.length_append, hwire]
    exact Nat.le_add_right ..
  · have hcontent : (p.headerBytes ++ (p.payload ++ (ByteOrder.little.bytes checksumLength sum.toNat
        ++ (ending ++ more)))).take (p.version.headerLength - 1 + p.payload.length) =
          p.headerBytes ++ p.payload := by
      rw [← List.append_assoc]
      exact List.take_left' (by simp)
    show verify table p.messageId _ _ = _
    rw [hcontent, hsum', hfound, verify, hsum]
    simp only [if_true]
  · have hsignature : (if p.isSigned then Signature.ofBytes? (((p.payload ++
        (ByteOrder.little.bytes checksumLength sum.toNat ++ (ending ++ more))).drop
          (p.payload.length + checksumLength)).take signatureLength) else none) =
        if p.isSigned then p.signature else none := by
      by_cases hs : p.isSigned
      · rw [signatureBytes, if_pos hs] at hending
        rw [if_pos hs, if_pos hs, ← hsig hs, ← List.drop_drop, List.drop_left,
          List.drop_left' (ByteOrder.length_bytes ..), List.take_left' hending]
      · rw [if_neg hs, if_neg hs]
    simp only [hpay, hsigned, hsignature]
    rfl

end Packet

end Telemetry
