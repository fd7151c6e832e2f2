import Telemetry.Proofs.Parse

/-!
# What a part of a frame tells

A receiver sees the bytes of a frame come in and has to know when to wait and when to reject. It can
rely on `Packet.parse` for both: a verdict is never taken back, none is given before the last byte
of a frame is there, and what is asked for is really missing. Where the parts of a frame are looked
for, there are bytes.

* `Packet.parse_take_eq_truncated`: a frame without its end is no frame yet.
* `Packet.Awaits.needed_le`, `Packet.Awaits.append`: how much is asked for, and for how long.
* `Packet.parseAt?`: reading by position, which has no result if a position is out of range;
  `Packet.parseAt?_eq` says that none ever is.
* `parse_delimits`: all of this together.
-/

namespace Telemetry

namespace Packet

/-! ## Parts of a frame -/

/-- A frame that lacks some of its last bytes is reported as such. -/
theorem parse_take_eq_truncated {bytes : List UInt8} {table : FingerprintTable} {f : ParsedFrame}
    {used k : Nat} (h : parse bytes table = .ok (f, used)) (hk : k < used) :
    ∃ needed, parse (bytes.take k) table = .error (.truncated needed k) ∧ k < needed ∧
      needed ≤ used := by
  have hused := used_le_of_parse h
  have hlen : (bytes.take k).length = k := by
    rw [List.length_take]
    omega
  have hsplit : parse (bytes.take k ++ bytes.drop k) table = .ok (f, used) := by
    rwa [List.take_append_drop]
  by_cases hdecided : ∀ needed available,
      parse (bytes.take k) table ≠ .error (.truncated needed available)
  · -- A verdict on these bytes would be the verdict on the whole frame, which is longer.
    rw [parse_append hdecided] at hsplit
    have hle := used_le_of_parse hsplit
    omega
  · simp only [Classical.not_forall, Classical.not_not] at hdecided
    obtain ⟨needed, available, ht⟩ := hdecided
    obtain ⟨havailable, hlt, hle⟩ := needed_le_of_truncated hsplit ht
    rw [hlen] at havailable hlt
    subst havailable
    exact ⟨needed, ht, hlt, hle⟩

/-- No frame is longer than an extended one with the longest payload and a signature. -/
theorem announced_le {head : Packet} {length : Nat} (h : length ≤ maxPayloadLength) :
    head.announced length ≤ 280 := by
  have hheader : head.version.headerLength ≤ 10 := by
    cases head.version <;> decide
  have hsignature : head.signatureBytes ≤ 13 := by
    unfold signatureBytes
    split <;> decide
  unfold announced checksumLength
  unfold maxPayloadLength at h
  omega

theorem Awaits.needed_le {bytes : List UInt8} {needed : Nat} (h : Awaits bytes needed) :
    needed ≤ 280 := by
  cases h with
  | start => decide
  | @header version _ _ => cases version <;> decide
  | body hh _ _ =>
    obtain ⟨-, hlength, -⟩ := readHeader_eq_some hh
    exact announced_le hlength

theorem readHeader_eq_none {version : FrameVersion} {bytes : List UInt8}
    (h : bytes.length + 1 < version.headerLength) : readHeader version bytes = none := by
  rw [Option.eq_none_iff_forall_ne_some]
  rintro ⟨head, length, body⟩ hh
  obtain ⟨-, -, hlength, -⟩ := readHeader_eq_some hh
  omega

/-- As long as the bytes asked for are not all there, the same number is asked for. -/
theorem Awaits.append {bytes more : List UInt8} {needed : Nat} (h : Awaits bytes needed)
    (hlt : (bytes ++ more).length < needed) : Awaits (bytes ++ more) needed := by
  cases h with
  | start =>
    cases List.eq_nil_of_length_eq_zero (Nat.lt_one_iff.1 hlt)
    exact .start
  | header _ => exact .header (readHeader_eq_none hlt)
  | body hh hflags _ => exact .body (readHeader_append hh more) hflags hlt

/-! ## Reading by position -/

/-- The bytes from one position up to another, if these are in order and within the bytes. -/
def slice? (bytes : List UInt8) (start stop : Nat) : Option (List UInt8) :=
  if start ≤ stop ∧ stop ≤ bytes.length then some ((bytes.take stop).drop start) else none

/-- The header by position: the packet without its payload, and the length of the payload. -/
def headerAt? (bytes : List UInt8) : FrameVersion → Option (Packet × Nat)
  | .legacy => do
    let length ← bytes[1]?
    let sequence ← bytes[2]?
    let systemId ← bytes[3]?
    let componentId ← bytes[4]?
    let id ← bytes[5]?
    return ({ version := .legacy, sequence, systemId, componentId
              messageId := id.toNat, payload := [] }, length.toNat)
  | .extended => do
    let length ← bytes[1]?
    let incompatFlags ← bytes[2]?
    let compatFlags ← bytes[3]?
    let sequence ← bytes[4]?
    let systemId ← bytes[5]?
    let componentId ← bytes[6]?
    let a ← bytes[7]?
    let b ← bytes[8]?
    let c ← bytes[9]?
    return ({ version := .extended, incompatFlags, compatFlags, sequence, systemId, componentId
              messageId := ByteOrder.little.word [a, b, c], payload := [] }, length.toNat)

/-- The signature from a position on. -/
def signatureAt? (bytes : List UInt8) (head : Packet) (start : Nat) : Option (Option Signature) :=
  if head.isSigned then do
    let block ← slice? bytes start (start + head.signatureBytes)
    let signature ← Signature.ofBytes? block
    return some signature
  else some none

/-- What a frame has behind its header. -/
structure Parts where
  payload : List UInt8
  /-- The bytes that the checksum covers. -/
  content : List UInt8
  checksum : UInt16
  signature : Option Signature

/-- The parts of a frame by position. -/
def partsAt? (bytes : List UInt8) (head : Packet) (length : Nat) : Option Parts := do
  let checksumAt := head.version.headerLength + length
  let payload ← slice? bytes head.version.headerLength checksumAt
  let signature ← signatureAt? bytes head (checksumAt + checksumLength)
  let low ← bytes[checksumAt]?
  let high ← bytes[checksumAt + 1]?
  let content ← slice? bytes 1 checksumAt
  return { payload, content, signature
           checksum := UInt16.ofNat (ByteOrder.little.word [low, high]) }

/-- The frame of a header by position. -/
def frameAt? (bytes : List UInt8) (table : FingerprintTable) (head : Packet) (length : Nat) :
    Option (Except FrameError (ParsedFrame × Nat)) :=
  let unknown := head.incompatFlags &&& ~~~signedFlag
  if unknown ≠ 0 then some (.error (.unsupportedFlags unknown))
  else if bytes.length < head.announced length then
    some (.error (.truncated (head.announced length) bytes.length))
  else do
    let parts ← partsAt? bytes head length
    return do
      let status ← verify table head.messageId parts.content parts.checksum
      return (⟨{ head with payload := parts.payload, signature := parts.signature }, status⟩,
        head.announced length)

/-- The packet of the frame at the start of `bytes`, read by position. There is no result if a byte
is looked for where there is none. -/
def parseAt? (bytes : List UInt8) (table : FingerprintTable) :
    Option (Except FrameError (ParsedFrame × Nat)) :=
  match bytes[0]? with
  | none => some (.error (.truncated 1 0))
  | some first =>
    match FrameVersion.ofStartByte? first with
    | none => some (.error (.badStart first))
    | some version =>
      if bytes.length < version.headerLength then
        some (.error (.truncated version.headerLength bytes.length))
      else do
        let (head, length) ← headerAt? bytes version
        frameAt? bytes table head length

theorem slice?_add {bytes : List UInt8} {start n : Nat} (h : start + n ≤ bytes.length) :
    slice? bytes start (start + n) = some ((bytes.drop start).take n) := by
  rw [slice?, if_pos ⟨Nat.le_add_right start n, h⟩, List.drop_take, Nat.add_sub_cancel_left]

theorem take_checksum {bytes : List UInt8} {n : Nat} (h : n + 1 < bytes.length) :
    (bytes.drop n).take checksumLength = [bytes[n], bytes[n + 1]] := by
  rw [List.drop_eq_getElem_cons (Nat.lt_of_succ_lt h), List.drop_eq_getElem_cons h]
  rfl

section Positions

variable {version : FrameVersion} {first : UInt8} {rest body : List UInt8} {head : Packet}
  {length : Nat}

theorem headerAt?_of_readHeader (h : readHeader version rest = some (head, length, body)) :
    headerAt? (first :: rest) version = some (head, length) := by
  unfold readHeader at h
  split at h
  · cases h; rfl
  · cases h; rfl
  · cases h

theorem signatureAt?_of_readHeader (hbody : (first :: rest).drop head.version.headerLength = body)
    (hle : head.announced length ≤ (first :: rest).length) :
    signatureAt? (first :: rest) head (head.version.headerLength + length + checksumLength) =
      some (if head.isSigned then
        Signature.ofBytes? ((body.drop (length + checksumLength)).take signatureLength)
      else none) := by
  unfold signatureAt?
  by_cases hs : head.isSigned
  · have hbytes : head.signatureBytes = signatureLength := if_pos hs
    rw [announced, hbytes] at hle
    have hslice : slice? (first :: rest) (head.version.headerLength + length + checksumLength)
        (head.version.headerLength + length + checksumLength + signatureLength) =
          some ((body.drop (length + checksumLength)).take signatureLength) := by
      rw [slice?_add hle, Nat.add_assoc head.version.headerLength, ← List.drop_drop, hbody]
    have hblock : ((body.drop (length + checksumLength)).take signatureLength).length =
        signatureLength := by
      rw [← hbody, List.length_take, List.length_drop, List.length_drop]
      omega
    rw [if_pos hs, if_pos hs, hbytes, hslice, Signature.ofBytes?, dif_pos hblock,
      Option.bind_eq_bind, Option.bind_some, Signature.ofBytes?, dif_pos hblock]
    rfl
  · rw [if_neg hs, if_neg hs]

/-- The parts of a frame that is all there are found at their positions. -/
theorem partsAt?_of_readHeader (h : readHeader version rest = some (head, length, body))
    (hle : head.announced length ≤ (first :: rest).length) :
    partsAt? (first :: rest) head length = some
      { payload := body.take length
        content := rest.take (version.headerLength - 1 + length)
        checksum := UInt16.ofNat (ByteOrder.little.word ((body.drop length).take checksumLength))
        signature :=
          if head.isSigned then
            Signature.ofBytes? ((body.drop (length + checksumLength)).take signatureLength)
          else none } := by
  obtain ⟨rfl, -, hrest, hdrop⟩ := readHeader_eq_some h
  have hpos := head.version.headerLength_pos
  have hbody : (first :: rest).drop head.version.headerLength = body := by
    obtain ⟨n, hn⟩ := Nat.exists_eq_succ_of_ne_zero (Nat.ne_of_gt hpos)
    rw [← hdrop, hn]
    rfl
  have hsignature := signatureAt?_of_readHeader hbody hle
  unfold announced checksumLength at hle
  have hpayload : slice? (first :: rest) head.version.headerLength
      (head.version.headerLength + length) = some (body.take length) := by
    rw [slice?_add (by omega), hbody]
  have hcontent : slice? (first :: rest) 1 (head.version.headerLength + length) =
      some (rest.take (head.version.headerLength - 1 + length)) := by
    have hone : head.version.headerLength + length =
        1 + (head.version.headerLength - 1 + length) := by omega
    rw [hone, slice?_add (by omega)]
    rfl
  have hlength : length + 1 < body.length := by
    rw [List.length_cons] at hle
    omega
  have hat : ∀ n, (first :: rest)[head.version.headerLength + n]? = body[n]? := by
    intro n
    rw [← hbody, List.getElem?_drop]
  have hlow : (first :: rest)[head.version.headerLength + length]? = some body[length] := by
    rw [hat, List.getElem?_eq_getElem (Nat.lt_of_succ_lt hlength)]
  have hhigh : (first :: rest)[head.version.headerLength + length + 1]? =
      some body[length + 1] := by
    rw [Nat.add_assoc, hat, List.getElem?_eq_getElem hlength]
  simp only [partsAt?, hpayload, hsignature, hlow, hhigh, hcontent, Option.bind_eq_bind,
    Option.bind_some, Option.pure_def, take_checksum hlength]

end Positions

/-- **No position is out of range**: reading by position always has a result, and it is that of
`Packet.parse`. -/
theorem parseAt?_eq (bytes : List UInt8) (table : FingerprintTable) :
    parseAt? bytes table = some (parse bytes table) := by
  cases bytes with
  | nil => rfl
  | cons first rest =>
    unfold parseAt? parse
    rw [List.getElem?_cons_zero]
    cases hv : FrameVersion.ofStartByte? first with
    | none => simp only [hv]
    | some version =>
      simp only [hv]
      cases hh : readHeader version rest with
      | none =>
        have hshort : (first :: rest).length < version.headerLength :=
          length_of_readHeader_eq_none hh
        rw [if_pos hshort]
      | some read =>
        obtain ⟨head, length, body⟩ := read
        obtain ⟨hversion, -, hrest, -⟩ := readHeader_eq_some hh
        have hheader : ¬ (first :: rest).length < version.headerLength := by
          have hpos := version.headerLength_pos
          rw [List.length_cons]
          omega
        rw [if_neg hheader, headerAt?_of_readHeader hh]
        simp only [Option.bind_eq_bind, Option.bind_some, frameAt?, announced, hversion]
        split
        · rfl
        split
        · rfl
        · rename_i htotal
          rw [partsAt?_of_readHeader hh (by
            rw [announced, hversion]
            exact Nat.le_of_not_lt htotal)]
          rfl

end Packet

/-- **A frame tells by itself where it ends.** A verdict other than that bytes are missing stays the
same whatever follows. Of a frame that is read, every part is reported as too short, with more bytes
asked for than there are and never more than the frame has. When bytes are missing, at most 280 are
asked for in all, and as long as they are not there the same number is asked for again. None of this
ever looks for a byte where there is none. -/
theorem parse_delimits (table : FingerprintTable) (bytes rest : List UInt8) :
    ((∀ needed available, Packet.parse bytes table ≠ .error (.truncated needed available)) →
      Packet.parse (bytes ++ rest) table = Packet.parse bytes table) ∧
    (∀ f used, Packet.parse bytes table = .ok (f, used) → ∀ k < used, ∃ needed,
      Packet.parse (bytes.take k) table = .error (.truncated needed k) ∧ k < needed ∧
        needed ≤ used) ∧
    (∀ needed available, Packet.parse bytes table = .error (.truncated needed available) →
      available = bytes.length ∧ bytes.length < needed ∧ needed ≤ 280 ∧
        ((bytes ++ rest).length < needed →
          Packet.parse (bytes ++ rest) table =
            .error (.truncated needed (bytes ++ rest).length))) ∧
    Packet.parseAt? bytes table = some (Packet.parse bytes table) := by
  refine ⟨fun h => Packet.parse_append h rest, fun f used h k hk => ?_,
    fun needed available h => ?_, Packet.parseAt?_eq bytes table⟩
  · exact Packet.parse_take_eq_truncated h hk
  · obtain ⟨havailable, hawaits⟩ := Packet.parse_eq_truncated_iff.1 h
    exact ⟨havailable, hawaits.length_lt, hawaits.needed_le,
      fun hlt => Packet.parse_eq_truncated_iff.2 ⟨rfl, hawaits.append hlt⟩⟩

/-- A signed frame with one byte of payload: whole, without its last byte, and cut behind the
payload. -/
theorem parse_delimits_signed :
    let start : List UInt8 := [0xFD, 1, 1, 0, 9, 1, 1, 7, 0, 0, 42]
    let sum : List UInt8 := [3, 4]
    let signature : List UInt8 := List.replicate 13 5
    let frame := start ++ sum ++ signature
    (∃ f, Packet.parse frame {} = .ok (f, 26)) ∧
      Packet.parse (frame ++ [7]) {} = Packet.parse frame {} ∧
      (∃ needed, Packet.parse (frame.take 25) {} = .error (.truncated needed 25) ∧ 25 < needed ∧
        needed ≤ 26) ∧
      Packet.parse start {} = .error (.truncated 26 11) ∧
      Packet.parse (start ++ sum) {} = .error (.truncated 26 13) := by
  intro start sum signature frame
  obtain ⟨f, hread⟩ : ∃ f, Packet.parse frame {} = .ok (f, 26) := ⟨_, rfl⟩
  have hstart : Packet.parse start {} = .error (.truncated 26 11) := rfl
  have hdecided : ∀ needed available,
      Packet.parse frame {} ≠ .error (.truncated needed available) := by
    intro needed available hmissing
    cases hread.symm.trans hmissing
  obtain ⟨hmore, hparts, -⟩ := parse_delimits {} frame [7]
  obtain ⟨-, -, hmissing, -⟩ := parse_delimits {} start sum
  obtain ⟨-, -, -, hagain⟩ := hmissing 26 11 hstart
  exact ⟨⟨f, hread⟩, hmore hdecided, hparts f 26 hread 25 (by decide), hstart, hagain (by decide)⟩

end Telemetry
