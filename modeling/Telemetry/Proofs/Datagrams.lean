import Telemetry.Capture.Datagram
import Telemetry.Proofs.Prefixes

/-!
# Datagrams in frames

A captured frame has lengths at several places: its own, those of the tags of its link layer, of the
IPv4 header and packet, and of the datagram. None of them can be relied on. Where they fit together,
the datagram is found as it was sent, without the padding behind it; where they do not, no byte is
looked for outside the frame, and what is taken as a payload lies in the IPv4 packet.

* `UdpPacket.bytes`, `Carrier.head`: a datagram as it is carried.
* `afterTags_tags`, `ofPacket?_bytes`: what is carried is found, layer by layer.
* `Datagram.ofFrameAt?`: looking for a datagram by position, which has no result if a position is
  out of range; `Datagram.ofFrameAt?_eq` says that none ever is.
* `Datagram.ofFrame?_slice`: where a payload lies.
* `datagrams_recovered`: all of this together.
-/

namespace Telemetry

/-! ## Datagrams as they are carried -/

/-- What an IPv4 header holds besides the version, its lengths and the protocol. -/
structure Ipv4Header where
  service : UInt8
  identification : UInt16
  /-- Flags, and the place of a fragment. -/
  fragment : UInt16
  lifetime : UInt8
  checksum : UInt16
  source : UInt32
  target : UInt32
  options : List UInt8
  /-- Options are made of words of four bytes. -/
  options_whole : options.length % 4 = 0
  /-- A header has 15 words at most. -/
  options_le : options.length ≤ 40

/-- A datagram in an IPv4 packet. -/
structure UdpPacket where
  header : Ipv4Header
  sourcePort : UInt16
  targetPort : UInt16
  checksum : UInt16
  payload : List UInt8
  /-- The length of the packet is a 16-bit number. -/
  length_lt : 20 + header.options.length + 8 + payload.length < 65536

/-- A tag between the addresses and the protocol number of an Ethernet frame. -/
structure LinkTag where
  /-- Whether it is a tag of a provider. -/
  provider : Bool
  content : UInt16

/-- What a frame has in front of an IPv4 packet. -/
inductive Carrier where
  /-- Nothing. -/
  | ip
  /-- The header of captures on all interfaces, which ends with the protocol number. -/
  | cooked (head : Vector UInt8 14)
  /-- Two addresses, tags in any number, and the protocol number. -/
  | ethernet (addresses : Vector UInt8 12) (tags : List LinkTag)

namespace Ipv4Header

/-- The length of the header. -/
def length (h : Ipv4Header) : Nat := 20 + h.options.length

/-- The header of a packet of a given length. It starts with the version and its own length in
words. -/
def bytes (h : Ipv4Header) (totalLength : Nat) : List UInt8 :=
  [UInt8.ofNat (4 * 16 + h.length / 4), h.service] ++ ByteOrder.big.bytes 2 totalLength
    ++ ByteOrder.big.bytes 2 h.identification.toNat ++ ByteOrder.big.bytes 2 h.fragment.toNat
    ++ [h.lifetime, 17] ++ ByteOrder.big.bytes 2 h.checksum.toNat
    ++ ByteOrder.big.bytes 4 h.source.toNat ++ ByteOrder.big.bytes 4 h.target.toNat ++ h.options

end Ipv4Header

namespace UdpPacket

/-- The datagram with its own header, in which it says its length. -/
def udpPart (p : UdpPacket) : List UInt8 :=
  ByteOrder.big.bytes 2 p.sourcePort.toNat ++ ByteOrder.big.bytes 2 p.targetPort.toNat
    ++ ByteOrder.big.bytes 2 (8 + p.payload.length) ++ ByteOrder.big.bytes 2 p.checksum.toNat
    ++ p.payload

/-- The packet. -/
def bytes (p : UdpPacket) : List UInt8 :=
  p.header.bytes (p.header.length + p.udpPart.length) ++ p.udpPart

/-- The datagram that the packet is for. -/
def datagram (p : UdpPacket) : Datagram where
  sourcePort := p.sourcePort.toNat
  targetPort := p.targetPort.toNat
  payload := p.payload

end UdpPacket

/-- A tag starts with a protocol number of its own. -/
def LinkTag.bytes (t : LinkTag) : List UInt8 :=
  (if t.provider then [0x88, 0xA8] else [0x81, 0x00]) ++ ByteOrder.big.bytes 2 t.content.toNat

namespace Carrier

/-- The number of the link layer. -/
def number : Carrier → Nat
  | ip => 101
  | cooked _ => 113
  | ethernet .. => 1

/-- The bytes in front of the packet. -/
def head : Carrier → List UInt8
  | ip => []
  | cooked head => head.toList ++ [0x08, 0x00]
  | ethernet addresses tags => addresses.toList ++ tags.flatMap LinkTag.bytes ++ [0x08, 0x00]

end Carrier

/-! ## What is carried is found -/

theorem wordAt_append (front : List UInt8) {rest : List UInt8} {place n : Nat}
    (hplace : front.length = place) (hn : n < 65536) :
    wordAt (front ++ (ByteOrder.big.bytes 2 n ++ rest)) place = n := by
  rw [wordAt, List.drop_left' hplace, List.take_left' (ByteOrder.length_bytes _ _ _),
    ByteOrder.word_bytes]
  exact Nat.mod_eq_of_lt hn

theorem afterTags_ipv4 (packet : List UInt8) :
    afterTags ([0x08, 0x00] ++ packet) = some packet := by
  rw [List.cons_append, List.cons_append, afterTags]
  rfl

/-- A tag is passed over, whatever it contains. -/
theorem afterTags_tag (t : LinkTag) (rest : List UInt8) :
    afterTags (t.bytes ++ rest) = afterTags rest := by
  obtain ⟨provider, content⟩ := t
  cases provider <;> exact afterTags.eq_def _

theorem afterTags_tags (tags : List LinkTag) (packet : List UInt8) :
    afterTags (tags.flatMap LinkTag.bytes ++ [0x08, 0x00] ++ packet) = some packet := by
  induction tags with
  | nil => exact afterTags_ipv4 packet
  | cons t tags ih =>
    rw [List.flatMap_cons, List.append_assoc, List.append_assoc, afterTags_tag, ← List.append_assoc]
    exact ih

/-- The packet is found behind whatever the frame has in front of it. -/
theorem packet?_carried (c : Carrier) (packet : List UInt8) :
    ∃ layer, LinkLayer.ofNumber? c.number = some layer ∧
      layer.packet? (c.head ++ packet) = some packet := by
  cases c with
  | ip => exact ⟨.ip, rfl, rfl⟩
  | cooked head =>
    refine ⟨.cooked, rfl, ?_⟩
    have hhead : head.toList.length = 14 := head.length_toList
    have hlength : 16 ≤ (head.toList ++ [0x08, 0x00] ++ packet).length := by
      simp only [List.length_append, List.length_cons, List.length_nil, hhead]
      omega
    have hword : wordAt (head.toList ++ [0x08, 0x00] ++ packet) 14 = ipv4Protocol := by
      rw [List.append_assoc]
      exact wordAt_append _ hhead (show 0x0800 < 65536 by decide)
    have hdrop : (head.toList ++ [0x08, 0x00] ++ packet).drop 16 = packet :=
      List.drop_left' (by rw [List.length_append, hhead]; rfl)
    rw [LinkLayer.packet?, Carrier.head, if_pos ⟨hlength, hword⟩, hdrop]
  | ethernet addresses tags =>
    refine ⟨.ethernet, rfl, ?_⟩
    have hdrop : (Carrier.head (.ethernet addresses tags) ++ packet).drop 12 =
        tags.flatMap LinkTag.bytes ++ [0x08, 0x00] ++ packet := by
      simp only [Carrier.head, List.append_assoc]
      exact List.drop_left' addresses.length_toList
    rw [LinkLayer.packet?, hdrop, afterTags_tags]

theorem UdpPacket.length_udpPart (p : UdpPacket) : p.udpPart.length = 8 + p.payload.length := by
  simp only [udpPart, List.length_append, ByteOrder.length_bytes]

theorem Ipv4Header.length_bytes (h : Ipv4Header) (n : Nat) : (h.bytes n).length = h.length := by
  simp only [bytes, length, List.length_append, ByteOrder.length_bytes, List.length_cons,
    List.length_nil]

/-- The datagram is found in its own part of the packet. -/
theorem ofUdp?_udpPart (p : UdpPacket) : Datagram.ofUdp? p.udpPart = some p.datagram := by
  have hlt := p.length_lt
  have hsource : wordAt p.udpPart 0 = p.sourcePort.toNat := by
    simp only [UdpPacket.udpPart, List.append_assoc]
    exact wordAt_append [] rfl p.sourcePort.toNat_lt
  have htarget : wordAt p.udpPart 2 = p.targetPort.toNat := by
    simp only [UdpPacket.udpPart, List.append_assoc]
    exact wordAt_append _ rfl p.targetPort.toNat_lt
  have hlength : wordAt p.udpPart 4 = 8 + p.payload.length := by
    simp only [UdpPacket.udpPart, List.append_assoc]
    rw [← List.append_assoc]
    exact wordAt_append _ rfl (by omega)
  have hpayload : (p.udpPart.take (8 + p.payload.length)).drop 8 = p.payload := by
    rw [List.take_of_length_le (Nat.le_of_eq p.length_udpPart)]
    exact List.drop_left' rfl
  simp only [Datagram.ofUdp?, hlength, hsource, htarget, hpayload, p.length_udpPart]
  exact if_pos ⟨Nat.le_add_right 8 _, Nat.le_refl _⟩

/-- The length of its header that an IPv4 packet tells. -/
def headerLengthOf (packet : List UInt8) : Nat := (packet.headD 0).toNat % 16 * 4

/-- The length that an IPv4 packet tells. -/
def totalLengthOf (packet : List UInt8) : Nat := wordAt packet 2

/-- When a datagram is found in a packet: the version is 4, there is room for both headers within
the lengths, the protocol is UDP, and the part behind the header has a datagram. -/
theorem ofPacket?_eq_some_iff {packet : List UInt8} {d : Datagram} :
    Datagram.ofPacket? packet = some d ↔
      20 ≤ packet.length ∧ (packet.headD 0).toNat / 16 = 4 ∧
      20 ≤ headerLengthOf packet ∧ headerLengthOf packet ≤ totalLengthOf packet ∧
      headerLengthOf packet + 8 ≤ (packet.take (totalLengthOf packet)).length ∧
      (packet.take (totalLengthOf packet)).getD 9 0 = Datagram.udpProtocol ∧
      Datagram.ofUdp? ((packet.take (totalLengthOf packet)).drop (headerLengthOf packet)) =
        some d := by
  have htake : (packet.take (totalLengthOf packet)).length ≤ packet.length :=
    List.length_take_le' _ _
  unfold headerLengthOf totalLengthOf at *
  simp only [Datagram.ofPacket?]
  constructor
  · intro h
    split at h
    · cases h
    split at h
    · cases h
    split at h
    · cases h
    rename_i hversion hlengths hprotocol
    simp only [not_or, Nat.not_lt, Classical.not_not] at hversion hlengths hprotocol
    exact ⟨hversion.1, hversion.2, hlengths.1, hlengths.2.2, hprotocol.1, hprotocol.2, h⟩
  · rintro ⟨hlength, hversion, hheader, htotal, hroom, hprotocol, hudp⟩
    rw [if_neg (by omega), if_neg (by omega), if_neg]
    · exact hudp
    · rintro (h | h)
      · exact Nat.not_lt.2 hroom h
      · exact h hprotocol

/-- The datagram is found in the packet, and what follows the packet makes no difference. -/
theorem ofPacket?_bytes (p : UdpPacket) (padding : List UInt8) :
    Datagram.ofPacket? (p.bytes ++ padding) = some p.datagram := by
  have hwhole := p.header.options_whole
  have hle := p.header.options_le
  have hlt := p.length_lt
  have hpart := p.length_udpPart
  have hheader : p.header.length = 20 + p.header.options.length := rfl
  have hlength : p.bytes.length = p.header.length + p.udpPart.length := by
    rw [UdpPacket.bytes, List.length_append, p.header.length_bytes]
  have hfirst : ((p.bytes ++ padding).headD 0).toNat = 4 * 16 + p.header.length / 4 := by
    show (UInt8.ofNat (4 * 16 + p.header.length / 4)).toNat = _
    rw [UInt8.toNat_ofNat']
    omega
  -- The header is made of whole words, 15 at most, so their number gives its length back.
  have hwords : headerLengthOf (p.bytes ++ padding) = p.header.length := by
    rw [headerLengthOf, hfirst]
    omega
  have htotal : totalLengthOf (p.bytes ++ padding) = p.bytes.length := by
    rw [hlength]
    simp only [totalLengthOf, UdpPacket.bytes, Ipv4Header.bytes, List.append_assoc]
    exact wordAt_append [_, _] rfl (by omega)
  have htake : (p.bytes ++ padding).take p.bytes.length = p.bytes := List.take_left' rfl
  rw [ofPacket?_eq_some_iff, htotal, htake, hwords, hfirst, List.length_append]
  refine ⟨by omega, by omega, by omega, by omega, by omega, rfl, ?_⟩
  rw [UdpPacket.bytes, List.drop_left' (p.header.length_bytes _)]
  exact ofUdp?_udpPart p

theorem ofFrame?_eq_some_iff {linkType : Nat} {frame : List UInt8} {d : Datagram} :
    Datagram.ofFrame? linkType frame = some d ↔ ∃ layer packet,
      LinkLayer.ofNumber? linkType = some layer ∧ layer.packet? frame = some packet ∧
        Datagram.ofPacket? packet = some d := by
  simp only [Datagram.ofFrame?, Option.bind_eq_bind, Option.bind_eq_some_iff, exists_and_left]

theorem ofFrame?_carried (c : Carrier) (p : UdpPacket) (padding : List UInt8) :
    Datagram.ofFrame? c.number (c.head ++ p.bytes ++ padding) = some p.datagram := by
  obtain ⟨layer, hlayer, hpacket⟩ := packet?_carried c (p.bytes ++ padding)
  rw [List.append_assoc]
  exact ofFrame?_eq_some_iff.2 ⟨layer, _, hlayer, hpacket, ofPacket?_bytes p padding⟩

/-! ## Looking for a datagram by position

Here `none` is a position out of range, and `some none` a frame in which no datagram is found. -/

open Packet (slice?)

/-- The 16-bit word at a position. -/
def wordAt? (bytes : List UInt8) (place : Nat) : Option Nat := do
  let high ← bytes[place]?
  let low ← bytes[place + 1]?
  return ByteOrder.big.word [high, low]

/-- The packet behind tags, where a protocol number stands at `place`. -/
def afterTagsAt? (frame : List UInt8) (place : Nat) : Option (Option (List UInt8)) := do
  let protocol ← wordAt? frame place
  if isTagProtocol protocol then
    if frame.length < place + 6 then some none else afterTagsAt? frame (place + 4)
  else if protocol = ipv4Protocol then return some (← slice? frame (place + 2) frame.length)
  else some none
termination_by frame.length - place

/-- The packet of a frame. -/
def LinkLayer.packetAt? (layer : LinkLayer) (frame : List UInt8) : Option (Option (List UInt8)) :=
  match layer with
  | ethernet => if frame.length < 14 then some none else afterTagsAt? frame 12
  | ip => some (some frame)
  | cooked =>
    if frame.length < 16 then some none
    else do
      let protocol ← wordAt? frame 14
      if protocol = ipv4Protocol then return some (← slice? frame 16 frame.length) else some none

namespace Datagram

/-- The datagram of a UDP part. -/
def ofUdpAt? (part : List UInt8) : Option (Option Datagram) := do
  let length ← wordAt? part 4
  if length < 8 ∨ part.length < length then some none
  else
    let sourcePort ← wordAt? part 0
    let targetPort ← wordAt? part 2
    let payload ← slice? part 8 length
    return some { sourcePort, targetPort, payload }

/-- The datagram of an IPv4 packet that has been cut to its length. -/
def ofInnerAt? (packet : List UInt8) (headerLength : Nat) : Option (Option Datagram) :=
  if packet.length < headerLength + 8 then some none
  else do
    let protocol ← packet[9]?
    if protocol ≠ udpProtocol then some none
    else
      let part ← slice? packet headerLength packet.length
      ofUdpAt? part

/-- The datagram of an IPv4 packet. -/
def ofPacketAt? (packet : List UInt8) : Option (Option Datagram) :=
  if packet.length < 20 then some none
  else do
    let first ← packet[0]?
    if first.toNat / 16 ≠ 4 then some none
    else
      let headerLength := first.toNat % 16 * 4
      let totalLength ← wordAt? packet 2
      if headerLength < 20 ∨ packet.length < headerLength ∨ totalLength < headerLength then
        some none
      else if totalLength ≤ packet.length then
        let inner ← slice? packet 0 totalLength
        ofInnerAt? inner headerLength
      else ofInnerAt? packet headerLength

/-- The datagram in a captured frame. There is no result if a byte is looked for where there is
none. -/
def ofFrameAt? (linkType : Nat) (frame : List UInt8) : Option (Option Datagram) :=
  match LinkLayer.ofNumber? linkType with
  | none => some none
  | some layer => do
    match ← layer.packetAt? frame with
    | none => some none
    | some packet => ofPacketAt? packet

end Datagram

section Positions

variable {bytes : List UInt8}

/-- A word that is all there is read as `wordAt` does it. -/
theorem wordAt?_eq {place : Nat} (h : place + 2 ≤ bytes.length) :
    wordAt? bytes place = some (wordAt bytes place) := by
  have hdrop : (bytes.drop place).take 2 = [bytes[place], bytes[place + 1]] := by
    rw [List.drop_eq_getElem_cons (by omega), List.drop_eq_getElem_cons (by omega)]
    rfl
  rw [wordAt, hdrop, wordAt?, List.getElem?_eq_getElem (by omega),
    List.getElem?_eq_getElem (by omega)]
  rfl

theorem slice?_drop {start : Nat} (h : start ≤ bytes.length) :
    slice? bytes start bytes.length = some (bytes.drop start) := by
  rw [slice?, if_pos ⟨h, Nat.le_refl _⟩, List.take_length]

end Positions

theorem wordAt_drop (bytes : List UInt8) (place n : Nat) :
    wordAt (bytes.drop place) n = wordAt bytes (place + n) := by
  rw [wordAt, wordAt, List.drop_drop]

theorem afterTags_eq {bytes : List UInt8} (h : 2 ≤ bytes.length) :
    afterTags bytes =
      if wordAt bytes 0 = ipv4Protocol then some (bytes.drop 2)
      else if isTagProtocol (wordAt bytes 0) then afterTags (bytes.drop 4)
      else none := by
  match bytes, h with
  | a :: b :: rest, _ => exact afterTags.eq_def _

theorem afterTags_eq_none {bytes : List UInt8} (h : bytes.length < 2) : afterTags bytes = none := by
  match bytes, h with
  | [], _ => exact afterTags.eq_def _
  | [_], _ => exact afterTags.eq_def _

/-- The loop over the tags has room for the protocol number that it reads next. -/
theorem afterTagsAt?_eq {frame : List UInt8} {place : Nat} (h : place + 2 ≤ frame.length) :
    afterTagsAt? frame place = some (afterTags (frame.drop place)) := by
  have hroom : 2 ≤ (frame.drop place).length := by
    rw [List.length_drop]
    omega
  have hword : wordAt (frame.drop place) 0 = wordAt frame place := wordAt_drop frame place 0
  rw [afterTagsAt?, wordAt?_eq h, afterTags_eq hroom, hword, Option.bind_eq_bind, Option.bind_some,
    List.drop_drop, List.drop_drop]
  by_cases htag : isTagProtocol (wordAt frame place)
  · have hother : wordAt frame place ≠ ipv4Protocol := by
      intro hipv4
      rw [hipv4] at htag
      cases htag
    rw [if_pos htag, if_neg hother, if_pos htag]
    by_cases hend : frame.length < place + 6
    · rw [if_pos hend, afterTags_eq_none]
      rw [List.length_drop]
      omega
    · -- The check for room is what the next round relies on.
      rw [if_neg hend]
      exact afterTagsAt?_eq (by omega)
  · rw [if_neg htag, if_neg htag, slice?_drop h]
    by_cases hipv4 : wordAt frame place = ipv4Protocol
    · rw [if_pos hipv4, if_pos hipv4]
      rfl
    · rw [if_neg hipv4, if_neg hipv4]
termination_by frame.length - place

theorem LinkLayer.packetAt?_eq (layer : LinkLayer) (frame : List UInt8) :
    layer.packetAt? frame = some (layer.packet? frame) := by
  cases layer with
  | ip => rfl
  | ethernet =>
    by_cases h : frame.length < 14
    · rw [packetAt?, if_pos h, packet?, afterTags_eq_none]
      rw [List.length_drop]
      omega
    · rw [packetAt?, if_neg h, packet?]
      exact afterTagsAt?_eq (by omega)
  | cooked =>
    by_cases h : frame.length < 16
    · rw [packetAt?, if_pos h, packet?, if_neg]
      exact fun hle => Nat.not_lt.2 hle.1 h
    · rw [packetAt?, if_neg h, packet?, wordAt?_eq (by omega), Option.bind_eq_bind,
        Option.bind_some, slice?_drop (by omega)]
      by_cases hipv4 : wordAt frame 14 = ipv4Protocol
      · rw [if_pos hipv4, if_pos ⟨by omega, hipv4⟩]
        rfl
      · rw [if_neg hipv4, if_neg fun hle => hipv4 hle.2]

namespace Datagram

/-- The header of the datagram is there, so that its length can be compared with what follows. -/
theorem ofUdpAt?_eq {part : List UInt8} (h : 8 ≤ part.length) :
    ofUdpAt? part = some (ofUdp? part) := by
  simp only [ofUdpAt?, ofUdp?, wordAt?_eq (show 4 + 2 ≤ part.length by omega),
    wordAt?_eq (show 0 + 2 ≤ part.length by omega), wordAt?_eq (show 2 + 2 ≤ part.length by omega),
    Option.bind_eq_bind, Option.bind_some]
  by_cases hlength : wordAt part 4 < 8 ∨ part.length < wordAt part 4
  · rw [if_pos hlength, if_neg (by omega)]
  · have hslice : slice? part 8 (wordAt part 4) = some ((part.take (wordAt part 4)).drop 8) := by
      rw [slice?, if_pos (by omega)]
    rw [if_neg hlength, if_pos (by omega), hslice]
    rfl

theorem ofInnerAt?_eq {packet : List UInt8} {headerLength : Nat} (h : 20 ≤ headerLength) :
    ofInnerAt? packet headerLength =
      some (if packet.length < headerLength + 8 ∨ packet.getD 9 0 ≠ udpProtocol then none
        else ofUdp? (packet.drop headerLength)) := by
  unfold ofInnerAt?
  by_cases hroom : packet.length < headerLength + 8
  · rw [if_pos hroom, if_pos (.inl hroom)]
  · have hbyte : packet[9]? = some (packet.getD 9 0) := by
      rw [List.getD_eq_getElem?_getD, List.getElem?_eq_getElem (by omega)]
      rfl
    rw [if_neg hroom, hbyte, slice?_drop (by omega)]
    simp only [Option.bind_eq_bind, Option.bind_some, hroom, false_or]
    by_cases hudp : packet.getD 9 0 ≠ udpProtocol
    · rw [if_pos hudp, if_pos hudp]
    · rw [if_neg hudp, if_neg hudp]
      apply ofUdpAt?_eq
      rw [List.length_drop]
      omega

theorem ofPacketAt?_eq (packet : List UInt8) : ofPacketAt? packet = some (ofPacket? packet) := by
  unfold ofPacketAt? ofPacket?
  by_cases hshort : packet.length < 20
  · rw [if_pos hshort, if_pos (.inl hshort)]
  have hfirst : packet[0]? = some (packet.headD 0) := by
    rw [List.headD_eq_head?_getD, List.head?_eq_getElem?, List.getElem?_eq_getElem (by omega)]
    rfl
  rw [if_neg hshort, hfirst, wordAt?_eq (by omega)]
  simp only [Option.bind_eq_bind, Option.bind_some, hshort, false_or]
  by_cases hversion : (packet.headD 0).toNat / 16 ≠ 4
  · rw [if_pos hversion, if_pos hversion]
  rw [if_neg hversion, if_neg hversion]
  by_cases hlengths : (packet.headD 0).toNat % 16 * 4 < 20 ∨
      packet.length < (packet.headD 0).toNat % 16 * 4 ∨
      wordAt packet 2 < (packet.headD 0).toNat % 16 * 4
  · rw [if_pos hlengths, if_pos hlengths]
  rw [if_neg hlengths, if_neg hlengths]
  have hheader : 20 ≤ (packet.headD 0).toNat % 16 * 4 := by omega
  by_cases htotal : wordAt packet 2 ≤ packet.length
  · have hslice : slice? packet 0 (wordAt packet 2) = some (packet.take (wordAt packet 2)) := by
      rw [slice?, if_pos ⟨Nat.zero_le _, htotal⟩, List.drop_zero]
    rw [if_pos htotal, hslice, Option.bind_some]
    exact ofInnerAt?_eq hheader
  · rw [if_neg htotal, List.take_of_length_le (Nat.le_of_not_le htotal)]
    exact ofInnerAt?_eq hheader

/-- **No position is out of range**: looking by position always has a result, and it is that of
`Datagram.ofFrame?`. -/
theorem ofFrameAt?_eq (linkType : Nat) (frame : List UInt8) :
    ofFrameAt? linkType frame = some (ofFrame? linkType frame) := by
  unfold ofFrameAt? ofFrame?
  cases LinkLayer.ofNumber? linkType with
  | none => rfl
  | some layer =>
    simp only [layer.packetAt?_eq, Option.bind_eq_bind, Option.bind_some]
    cases layer.packet? frame with
    | none => rfl
    | some packet => exact ofPacketAt?_eq packet

end Datagram

/-! ## Where a payload lies -/

theorem afterTags_eq_drop {bytes packet : List UInt8} (h : afterTags bytes = some packet) :
    ∃ n, packet = bytes.drop n := by
  fun_induction afterTags bytes with
  | case1 a b rest protocol hipv4 =>
    cases h
    exact ⟨2, rfl⟩
  | case2 a b rest protocol hother htag ih =>
    obtain ⟨n, rfl⟩ := ih h
    exact ⟨2 + n + 2, List.drop_drop⟩
  | case3 => cases h
  | case4 => cases h

theorem packet?_eq_drop {layer : LinkLayer} {frame packet : List UInt8}
    (h : layer.packet? frame = some packet) : ∃ n, packet = frame.drop n := by
  cases layer with
  | ethernet =>
    obtain ⟨n, rfl⟩ := afterTags_eq_drop h
    exact ⟨12 + n, List.drop_drop⟩
  | ip =>
    cases h
    exact ⟨0, rfl⟩
  | cooked =>
    rw [LinkLayer.packet?] at h
    split at h
    · cases h
      exact ⟨16, rfl⟩
    · cases h

namespace Datagram

theorem ofUdp?_eq_some {part : List UInt8} {d : Datagram} (h : ofUdp? part = some d) :
    8 ≤ wordAt part 4 ∧ wordAt part 4 ≤ part.length ∧
      d.payload = (part.take (wordAt part 4)).drop 8 := by
  simp only [ofUdp?] at h
  split at h
  · rename_i hlength
    cases h
    exact ⟨hlength.1, hlength.2, rfl⟩
  · cases h

/-- The payload lies in the packet, within the length that the packet tells and within the bytes
that are there. -/
theorem ofPacket?_slice {packet : List UInt8} {d : Datagram} (h : ofPacket? packet = some d) :
    ∃ start stop, start ≤ stop ∧ stop ≤ packet.length ∧ stop ≤ totalLengthOf packet ∧
      d.payload = packet.extract start stop := by
  obtain ⟨-, -, -, -, hroom, -, hudp⟩ := ofPacket?_eq_some_iff.1 h
  obtain ⟨hmin, hle, hpayload⟩ := ofUdp?_eq_some hudp
  generalize wordAt ((packet.take (totalLengthOf packet)).drop (headerLengthOf packet)) 4 = n at *
  rw [List.length_take] at hroom
  rw [List.length_drop, List.length_take] at hle
  refine ⟨headerLengthOf packet + 8, headerLengthOf packet + n, by omega, by omega, by omega, ?_⟩
  rw [hpayload, List.extract_eq_take_drop]
  simp only [List.drop_take, List.drop_drop, List.take_take]
  congr 1
  omega

theorem ofFrame?_slice {linkType : Nat} {frame : List UInt8} {d : Datagram}
    (h : ofFrame? linkType frame = some d) :
    ∃ layer place start stop, LinkLayer.ofNumber? linkType = some layer ∧
      layer.packet? frame = some (frame.drop place) ∧
      place ≤ start ∧ start ≤ stop ∧ stop ≤ frame.length ∧
      stop ≤ place + totalLengthOf (frame.drop place) ∧
      d.payload = frame.extract start stop := by
  obtain ⟨layer, packet, hlayer, hpacket, hdatagram⟩ := ofFrame?_eq_some_iff.1 h
  obtain ⟨place, rfl⟩ := packet?_eq_drop hpacket
  obtain ⟨start, stop, hle, hstop, htotal, hpayload⟩ := ofPacket?_slice hdatagram
  have hroom := (ofPacket?_eq_some_iff.1 hdatagram).1
  rw [List.length_drop] at hstop hroom
  refine ⟨layer, place, place + start, place + stop, hlayer, hpacket, by omega, by omega, by omega,
    by omega, ?_⟩
  rw [hpayload, List.extract_eq_take_drop, List.extract_eq_take_drop, List.drop_drop,
    Nat.add_sub_add_left]

end Datagram

/-- **A datagram is found as it was sent.** Whatever carries it, with tags in any number, whatever
the IPv4 header holds besides the lengths and the protocol, and whatever follows the packet, a frame
with a datagram gives its ports and its payload. And for any bytes with any number of a link layer,
no position outside them is looked at, and a payload that is found is what the frame has from one
position up to another: behind the start of the packet, within the frame, and within the length that
the packet tells, also if the capture has less of it. -/
theorem datagrams_recovered (c : Carrier) (p : UdpPacket) (padding : List UInt8) (linkType : Nat)
    (frame : List UInt8) :
    Datagram.ofFrame? c.number (c.head ++ p.bytes ++ padding) = some p.datagram ∧
    Datagram.ofFrameAt? linkType frame = some (Datagram.ofFrame? linkType frame) ∧
    ∀ d, Datagram.ofFrame? linkType frame = some d →
      ∃ layer place start stop, LinkLayer.ofNumber? linkType = some layer ∧
        layer.packet? frame = some (frame.drop place) ∧
        place ≤ start ∧ start ≤ stop ∧ stop ≤ frame.length ∧
        stop ≤ place + totalLengthOf (frame.drop place) ∧
        d.payload = frame.extract start stop :=
  ⟨ofFrame?_carried c p padding, Datagram.ofFrameAt?_eq linkType frame,
    fun _ h => Datagram.ofFrame?_slice h⟩

/-- A frame with two tags, an option and padding. -/
theorem datagrams_recovered_tagged :
    let link : List UInt8 :=
      [1, 2, 3, 4, 5, 6, 7, 8, 9, 10, 11, 12, 0x88, 0xA8, 0, 5, 0x81, 0x00, 0x81, 0x00, 0x08, 0x00]
    let header : List UInt8 :=
      [0x46, 0, 0, 35, 0, 1, 0x40, 0, 64, 17, 0, 0, 10, 0, 0, 1, 10, 0, 0, 2, 1, 1, 1, 0]
    let udp : List UInt8 := [0x38, 0xD6, 0x38, 0xD7, 0, 11, 0, 0, 0xFD, 0xFE, 0]
    let frame := link ++ (header ++ udp) ++ [0, 0]
    Datagram.ofFrame? 1 frame = some ⟨14550, 14551, [0xFD, 0xFE, 0]⟩ ∧
      ∃ layer place start stop, LinkLayer.ofNumber? 1 = some layer ∧
        layer.packet? frame = some (frame.drop place) ∧
        place ≤ start ∧ start ≤ stop ∧ stop ≤ frame.length ∧
        stop ≤ place + totalLengthOf (frame.drop place) ∧
        [0xFD, 0xFE, 0] = frame.extract start stop := by
  intro link header udp frame
  let carrier : Carrier :=
    .ethernet #v[1, 2, 3, 4, 5, 6, 7, 8, 9, 10, 11, 12] [⟨true, 5⟩, ⟨false, 0x8100⟩]
  let ipv4 : Ipv4Header :=
    { service := 0, identification := 1, fragment := 0x4000, lifetime := 64, checksum := 0
      source := 0x0A000001, target := 0x0A000002, options := [1, 1, 1, 0], options_whole := rfl
      options_le := Nat.le_of_ble_eq_true rfl }
  let packet : UdpPacket :=
    { header := ipv4, sourcePort := 14550, targetPort := 14551, checksum := 0
      payload := [0xFD, 0xFE, 0], length_lt := Nat.le_of_ble_eq_true rfl }
  have hframe : carrier.head ++ packet.bytes ++ [0, 0] = frame := by decide +kernel
  obtain ⟨hfound, -, hslice⟩ := datagrams_recovered carrier packet [0, 0] 1 frame
  rw [hframe] at hfound
  exact ⟨hfound, hslice _ hfound⟩

end Telemetry
