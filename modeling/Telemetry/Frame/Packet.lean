import Telemetry.ByteOrder
import Telemetry.Fingerprint
import Telemetry.Frame.Version
import Telemetry.Number.Hex
import Telemetry.Payload

/-!
# Packets

A packet is what a frame carries: routing bytes, a message id, a payload and perhaps a signature.
The checksum of a frame covers the header behind the start byte, the payload and the fingerprint
of the message.

* `Packet.encode`: the frame of a packet.
* `Packet.parse`: the packet of the frame at the start of some bytes, and the frame's length.
-/

namespace Telemetry

/-- A signature block as it was received. -/
structure Signature where
  bytes : List UInt8
  /-- A signature has a fixed length. -/
  length_eq : bytes.length = signatureLength
deriving DecidableEq

/-- The signature of given bytes, if there are as many as a signature has. -/
def Signature.ofBytes? (bytes : List UInt8) : Option Signature :=
  if h : bytes.length = signatureLength then some ⟨bytes, h⟩ else none

/-- The content of a frame. -/
structure Packet where
  version : FrameVersion
  /-- Flags that a receiver must understand; extended frames only. -/
  incompatFlags : UInt8 := 0
  /-- Flags that a receiver may ignore; extended frames only. -/
  compatFlags : UInt8 := 0
  sequence : UInt8 := 0
  systemId : UInt8 := 0
  componentId : UInt8 := 0
  messageId : Nat
  payload : List UInt8
  /-- The signature as received; none is ever made. -/
  signature : Option Signature := none
deriving DecidableEq

/-- A fault of building or reading a frame. -/
inductive FrameError where
  /-- The first byte starts no frame. -/
  | badStart (byte : UInt8)
  /-- An extended frame has flags set that are not understood. -/
  | unsupportedFlags (flags : UInt8)
  /-- Bytes are missing. -/
  | truncated (needed available : Nat)
  /-- The checksum is not that of the content. -/
  | badChecksum (messageId : Nat) (expected found : UInt16)
  /-- The table has no fingerprint of the message. -/
  | unknownFingerprint (messageId : Nat)
  /-- The message id is too great for a frame of the version. -/
  | idOutOfRange (id : Nat) (version : FrameVersion)
  /-- The payload is too long for a frame. -/
  | payloadTooLarge (length : Nat)
  /-- A signature would have to be made. -/
  | signingUnsupported
  /-- The payload has a fault. -/
  | codec (error : CodecError)
deriving DecidableEq

/-- How a fault of a frame is reported. -/
def FrameError.message : FrameError → String
  | badStart byte => s!"bad start byte 0x{Hex.lower 2 byte.toNat}"
  | unsupportedFlags flags => s!"unsupported incompat flags 0x{Hex.lower 2 flags.toNat}"
  | truncated needed available =>
    s!"frame truncated: needed {needed} bytes, {available} available"
  | badChecksum id expected found =>
    s!"message {id}: checksum 0x{Hex.lower 4 found.toNat}, expected 0x{Hex.lower 4 expected.toNat}"
  | unknownFingerprint id => missingFingerprintMessage id
  | idOutOfRange id version => s!"message id {id} does not fit a {version.name} frame"
  | payloadTooLarge length => s!"payload of {length} bytes exceeds 255"
  | signingUnsupported => "packet signing is not implemented"
  | codec error => error.message

/-- Whether the checksum of a frame could be compared. -/
inductive ChecksumStatus where
  /-- The checksum is right. -/
  | valid
  /-- The message has no fingerprint, so the checksum was not compared. -/
  | unverified
deriving DecidableEq

/-- A packet read from a frame. -/
structure ParsedFrame where
  packet : Packet
  status : ChecksumStatus
deriving DecidableEq

namespace Packet

/-- The packet with its routing bytes set. -/
def withRoute (p : Packet) (sequence systemId componentId : UInt8) : Packet :=
  { p with sequence, systemId, componentId }

/-- Whether a signature follows the checksum. -/
def isSigned (p : Packet) : Bool := p.version = .extended && p.incompatFlags &&& signedFlag ≠ 0

/-- The number of signature bytes of the frame. -/
def signatureBytes (p : Packet) : Nat := if p.isSigned then signatureLength else 0

/-- The length of the frame. -/
def wireLength (p : Packet) : Nat :=
  p.version.headerLength + p.payload.length + checksumLength + p.signatureBytes

/-- The header behind the start byte. -/
def headerBytes (p : Packet) : List UInt8 :=
  let length := UInt8.ofNat p.payload.length
  match p.version with
  | .legacy => [length, p.sequence, p.systemId, p.componentId, UInt8.ofNat p.messageId]
  | .extended =>
    [length, p.incompatFlags, p.compatFlags, p.sequence, p.systemId, p.componentId]
      ++ ByteOrder.little.bytes 3 p.messageId

/-- The header behind the start byte, if id and payload fit a frame. -/
def header (p : Packet) : Except FrameError (List UInt8) :=
  if p.version.maxId < p.messageId then .error (.idOutOfRange p.messageId p.version)
  else if maxPayloadLength < p.payload.length then .error (.payloadTooLarge p.payload.length)
  else .ok p.headerBytes

/-- The checksum of header and payload, which are fed one after the other, for a message. The table
has to have its fingerprint. -/
def checksumOf (table : FingerprintTable) (id : Nat) (header payload : List UInt8) :
    Except FrameError UInt16 :=
  match table.finish? (Checksum.updateBytes (Checksum.ofBytes header) payload) id with
  | some sum => .ok sum
  | none => .error (.unknownFingerprint id)

/-- The checksum of the packet's frame. -/
def checksum (p : Packet) (table : FingerprintTable) : Except FrameError UInt16 := do
  let header ← p.header
  checksumOf table p.messageId header p.payload

/-- The signature that the frame ends with. A signed packet needs a received one. -/
def trailer (p : Packet) : Except FrameError (List UInt8) :=
  if p.isSigned then
    match p.signature with
    | some signature => .ok signature.bytes
    | none => .error .signingUnsupported
  else .ok []

/-- The frame of a packet. -/
def encode (p : Packet) (table : FingerprintTable) : Except FrameError (List UInt8) := do
  let header ← p.header
  let trailer ← p.trailer
  let sum ← checksumOf table p.messageId header p.payload
  return p.version.startByte :: header ++ p.payload
    ++ ByteOrder.little.bytes checksumLength sum.toNat ++ trailer

/-- Signing a packet always fails: no signature is ever made. -/
def sign (_ : Packet) : Except FrameError Packet := .error .signingUnsupported

/-- A packet without its payload, as the header behind the start byte tells it, the length of the
payload, and the bytes behind the header. -/
def readHeader (version : FrameVersion) (bytes : List UInt8) :
    Option (Packet × Nat × List UInt8) :=
  match version, bytes with
  | .legacy, length :: sequence :: systemId :: componentId :: id :: rest =>
    some ({ version, sequence, systemId, componentId, messageId := id.toNat, payload := [] },
      length.toNat, rest)
  | .extended, length :: incompatFlags :: compatFlags :: sequence :: systemId :: componentId
      :: a :: b :: c :: rest =>
    some ({ version, incompatFlags, compatFlags, sequence, systemId, componentId
            messageId := ByteOrder.little.word [a, b, c], payload := [] },
      length.toNat, rest)
  | _, _ => none

/-- Compares the checksum of content with the one found. -/
def verify (table : FingerprintTable) (id : Nat) (content : List UInt8) (found : UInt16) :
    Except FrameError ChecksumStatus :=
  match table.finish? (Checksum.ofBytes content) id with
  | none => .ok .unverified
  | some expected =>
    if expected = found then .ok .valid else .error (.badChecksum id expected found)

/-- The packet of the frame at the start of `bytes`, and the length of that frame. -/
def parse (bytes : List UInt8) (table : FingerprintTable) :
    Except FrameError (ParsedFrame × Nat) :=
  match bytes with
  | [] => .error (.truncated 1 0)
  | first :: rest =>
    match FrameVersion.ofStartByte? first with
    | none => .error (.badStart first)
    | some version =>
      match readHeader version rest with
      | none => .error (.truncated version.headerLength bytes.length)
      | some (head, length, body) =>
        let unknown := head.incompatFlags &&& ~~~signedFlag
        if unknown ≠ 0 then .error (.unsupportedFlags unknown)
        else
          let total := version.headerLength + length + checksumLength + head.signatureBytes
          if bytes.length < total then .error (.truncated total bytes.length)
          else do
            let content := rest.take (version.headerLength - 1 + length)
            let found := UInt16.ofNat
              (ByteOrder.little.word ((body.drop length).take checksumLength))
            let status ← verify table head.messageId content found
            let signature :=
              if head.isSigned then
                Signature.ofBytes? ((body.drop (length + checksumLength)).take signatureLength)
              else none
            return ({ packet := { head with payload := body.take length, signature }, status },
              total)

/-- A frame that is read takes some bytes. -/
theorem parse_used_pos {bytes : List UInt8} {table : FingerprintTable} {f : ParsedFrame}
    {used : Nat} (h : parse bytes table = .ok (f, used)) : 0 < used := by
  unfold parse at h
  split at h
  · cases h
  split at h
  · cases h
  split at h
  · cases h
  dsimp only at h
  split at h
  · cases h
  split at h
  · cases h
  simp only [bind, Except.bind] at h
  split at h
  · cases h
  · cases h
    simp only [checksumLength]
    omega

/-- One line on a packet. -/
def summary (p : Packet) (status : ChecksumStatus) : String :=
  let version := match p.version with
    | .legacy => "v1"
    | .extended => "v2"
  let route := s!"seq={p.sequence} sys={p.systemId} comp={p.componentId}"
  let signed := if p.isSigned then " signed" else ""
  let unverified := if status = .unverified then " unverified" else ""
  s!"{version} {route} id={p.messageId} len={p.payload.length}{signed}{unverified}"

end Packet

end Telemetry
