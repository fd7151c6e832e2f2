import Telemetry.ByteOrder

/-!
# Capture files

Captured frames are stored in one of two formats: a classic one, a header and records, and one of
blocks. The bytes at the front of a file tell which. A file that ends too early still gives the
frames before its end. A reader holds a limited number of bytes at once, and a record or block that
needs more is not read.

* `readCapture`: the frames of a capture, and what is wrong with it.
-/

namespace Telemetry

/-- A captured frame. -/
structure CapturedFrame where
  /-- The number of the link layer. -/
  linkType : Nat
  bytes : List UInt8
deriving DecidableEq

/-- What is wrong with a capture. -/
inductive CaptureFault where
  /-- The header lacks bytes. -/
  | headerCut (missing : Nat)
  /-- The file begins like no capture. -/
  | unrecognized
  /-- The first block is malformed from some bytes on. -/
  | headerMalformed (bytes : List UInt8)
  /-- The last record of a classic capture lacks bytes. -/
  | recordCut
  /-- A record of a classic capture needs more bytes than a reader holds. -/
  | recordTooLarge
  /-- The last block lacks bytes. -/
  | blockCut
  /-- A block needs more bytes than a reader holds. -/
  | blockTooLarge
  /-- A section has an unknown byte order. -/
  | sectionUnrecognized
  /-- A block is malformed from some bytes on. -/
  | blockMalformed (bytes : List UInt8)
deriving DecidableEq

/-- Bytes as a list of numbers. -/
def byteList (bytes : List UInt8) : String :=
  "[" ++ String.intercalate ", " (bytes.map fun b => toString b.toNat) ++ "]"

/-- How a fault of a capture is reported. -/
def CaptureFault.message : CaptureFault → String
  | headerCut missing => s!"Incomplete read: {missing}"
  | unrecognized => "Header not recognized as PCAP or PCAPNG"
  | headerMalformed bytes => s!"Internal parser error Verify, input {byteList bytes}"
  | recordCut => "pcap read error: UnexpectedEof"
  | recordTooLarge => "pcap read error: BufferTooSmall"
  | blockCut => "pcapng read error: UnexpectedEof"
  | blockTooLarge => "pcapng read error: BufferTooSmall"
  | sectionUnrecognized => "pcapng read error: HeaderNotRecognized"
  | blockMalformed bytes => s!"pcapng read error: NomError({byteList bytes}, Verify)"

/-- The bytes that a reader holds. What is read at once has to be shorter. -/
def bufferSize : Nat := 0x100000

/-- The frames of a capture up to its end or to a fault. -/
abbrev CaptureContent := List CapturedFrame × Option CaptureFault

/-- Puts a frame in front. -/
def CaptureContent.cons (frame : CapturedFrame) (content : CaptureContent) : CaptureContent :=
  (frame :: content.1, content.2)

/-- The number in the four bytes at a place. -/
def ByteOrder.longAt (order : ByteOrder) (bytes : List UInt8) (place : Nat) : Nat :=
  order.word ((bytes.drop place).take 4)

/-- The number in the two bytes at a place. -/
def ByteOrder.shortAt (order : ByteOrder) (bytes : List UInt8) (place : Nat) : Nat :=
  order.word ((bytes.drop place).take 2)

/-! ## The classic format -/

/-- How a classic capture is written. -/
structure ClassicFormat where
  order : ByteOrder
  /-- The bytes of a record before those of its frame. -/
  recordHeader : Nat := 16
deriving DecidableEq

/-- The bytes that classic captures begin with: for time in microseconds and in nanoseconds in
either byte order, and for records that name an interface too. -/
def classicFormats : List (List UInt8 × ClassicFormat) :=
  [([0xD4, 0xC3, 0xB2, 0xA1], { order := .little }),
    ([0x4D, 0x3C, 0xB2, 0xA1], { order := .little }),
    ([0x34, 0xCD, 0xB2, 0xA1], { order := .little, recordHeader := 24 }),
    ([0xA1, 0xB2, 0xC3, 0xD4], { order := .big }),
    ([0xA1, 0xB2, 0x3C, 0x4D], { order := .big })]

/-- The widths of the fields of a classic header. -/
def classicFields : List Nat := [4, 2, 2, 4, 4, 4, 4]

/-- How many bytes are missing from the first of some fields that `available` bytes do not fill. -/
def missingBytes? (available : Nat) : List Nat → Option Nat
  | [] => none
  | width :: rest =>
    if available < width then some (width - available) else missingBytes? (available - width) rest

/-- The records of a classic capture. -/
def readRecords (format : ClassicFormat) (linkType : Nat) (bytes : List UInt8) : CaptureContent :=
  match bytes with
  | [] => ([], none)
  | b :: rest =>
    let bytes := b :: rest
    if bytes.length < format.recordHeader then ([], some .recordCut)
    else
      let length := format.order.longAt bytes 8
      let total := format.recordHeader + length
      if bufferSize ≤ total then ([], some .recordTooLarge)
      else if bytes.length < total then ([], some .recordCut)
      else
        CaptureContent.cons ⟨linkType, (bytes.drop format.recordHeader).take length⟩
          (readRecords format linkType (rest.drop (total - 1)))
termination_by bytes.length
decreasing_by simp only [List.length_drop, List.length_cons]; omega

/-- The frames of a classic capture. -/
def readClassic (bytes : List UInt8) : CaptureContent :=
  match classicFormats.lookup (bytes.take 4) with
  | none => ([], some .unrecognized)
  | some format =>
    match missingBytes? bytes.length classicFields with
    | some missing => ([], some (.headerCut missing))
    | none => readRecords format (format.order.longAt bytes 20) (bytes.drop 24)

/-! ## The format of blocks -/

/-- What is wrong with a block. -/
inductive BlockFault where
  /-- It lacks bytes. -/
  | cut (missing : Nat)
  /-- It is malformed from some bytes on. -/
  | malformed (bytes : List UInt8)
  /-- It is a section with an unknown byte order. -/
  | unrecognized
deriving DecidableEq

/-- A block, as far as frames depend on it. -/
inductive Block where
  /-- What follows has a byte order. -/
  | section (order : ByteOrder)
  /-- A further interface. -/
  | interface (linkType : Nat)
  /-- A frame that was captured on an interface. -/
  | frame (interface : Nat) (bytes : List UInt8)
  | other
deriving DecidableEq

/-- The type of blocks that begin a section. It reads the same in both byte orders. -/
def sectionType : Nat := 0x0A0D0D0A

/-- The number by which a section shows its byte order. -/
def sectionMark : Nat := 0x1A2B3C4D

/-- The least length of a block of some type. -/
def leastLength (type : Nat) : Nat :=
  if type = sectionType then 28
  else
    match type with
    | 1 => 20
    | 3 => 16
    | 5 => 24
    | 6 => 32
    | 10 => 20
    | 0xBAD | 0x40000BAD => 16
    | _ => 12

/-- The types of blocks whose length behind the content has to be the one before it. -/
def checkedTypes : List Nat := [1, 4, 5, 6, 10, 0xBAD, 0x40000BAD, 0x80000001]

/-- What is left of the content of a block when its length is checked: the data of the types that
anyone may define. -/
def contentLeft (type : Nat) (content : List UInt8) : List UInt8 :=
  if type = 0xBAD ∨ type = 0x40000BAD then content.drop 4 else []

/-- A length made up to a multiple of four. -/
def padded (n : Nat) : Nat := (n + 3) / 4 * 4

/-- Checks that a padded part of a given length fits in the rest of a block. -/
def checkPart (available length : Nat) : Except BlockFault Unit :=
  if available < padded length then .error (.cut (padded length - available)) else .ok ()

/-- Checks a list of records of names, which a zero ends. -/
def checkNames (order : ByteOrder) (content : List UInt8) : Except BlockFault Unit :=
  match content with
  | a :: b :: c :: d :: rest =>
    if [a, b, c, d] = [0, 0, 0, 0] then .ok ()
    else
      let length := padded (order.shortAt [c, d] 0)
      if rest.length < length then .error (.cut (length - rest.length))
      else checkNames order (rest.drop length)
  | content => .error (.cut (4 - content.length))
termination_by content.length
decreasing_by simp only [List.length_drop, List.length_cons]; omega

/-- The greatest length of a part that can be made up to a multiple of four in 32 bits. -/
def maxPartLength : Nat := 0xFFFFFFFA

/-- The block of some type with some content. -/
def readContent (order : ByteOrder) (type : Nat) (content : List UInt8) :
    Except BlockFault Block := do
  match type with
  | 1 => return .interface (order.shortAt content 0)
  | 3 => return .frame 0 ((content.drop 4).take (order.longAt content 0))
  | 4 =>
    checkNames order content
    return .other
  | 6 =>
    let length := order.longAt content 12
    if maxPartLength < length then throw (.malformed content)
    checkPart (content.length - 20) length
    return .frame (order.longAt content 0) ((content.drop 20).take length)
  | 10 =>
    let length := order.longAt content 4
    if maxPartLength < length then throw (.malformed (content.drop 8))
    checkPart (content.length - 8) length
    return .other
  | 0x80000001 =>
    if content.length < 4 then throw (.cut (4 - content.length))
    return .other
  | _ => return if type = sectionType then .section order else .other

/-- Takes the block of some type from the front. Its length stands before and behind its content;
not for every type are the two compared. -/
def takeBlock (order : ByteOrder) (type : Nat) (bytes : List UInt8) :
    Except BlockFault (Block × List UInt8) := do
  let least := leastLength type
  if bytes.length < least then throw (.cut (least - bytes.length))
  let length := order.longAt bytes 4
  if length < least then throw (.malformed (bytes.drop 8))
  if bytes.length + 4 < length then throw (.cut (length - 4 - bytes.length))
  if bytes.length < length then throw (.cut (length - bytes.length))
  let content := (bytes.drop 8).take (length - 12)
  let block ← readContent order type content
  if type ∈ checkedTypes ∧ order.longAt bytes (length - 4) ≠ length then
    throw (.malformed (contentLeft type content))
  return (block, bytes.drop length)

/-- The byte order of a section. -/
def sectionOrder (bytes : List UInt8) : Except BlockFault ByteOrder :=
  if bytes.length < 12 then .error (.cut (12 - bytes.length))
  else
    match [ByteOrder.little, .big].find? fun order => order.longAt bytes 8 = sectionMark with
    | some order => .ok order
    | none => .error .unrecognized

/-- Takes a block from the front. A section is read in its own byte order. -/
def nextBlock (order : ByteOrder) (bytes : List UInt8) :
    Except BlockFault (Block × List UInt8) := do
  if bytes.length < 4 then throw (.cut (4 - bytes.length))
  let type := order.longAt bytes 0
  if type = sectionType then takeBlock (← sectionOrder bytes) type bytes
  else takeBlock order type bytes

theorem leastLength_pos (type : Nat) : 0 < leastLength type := by
  unfold leastLength
  split
  · decide
  · split <;> decide

theorem length_takeBlock {order : ByteOrder} {type : Nat} {bytes rest : List UInt8} {block : Block}
    (h : takeBlock order type bytes = .ok (block, rest)) : rest.length < bytes.length := by
  have hpos := leastLength_pos type
  unfold takeBlock at h
  simp only [bind, Except.bind, pure, Except.pure, throw, throwThe, MonadExceptOf.throw] at h
  repeat' split at h
  all_goals cases h
  simp only [List.length_drop]
  omega

theorem length_nextBlock {order : ByteOrder} {bytes rest : List UInt8} {block : Block}
    (h : nextBlock order bytes = .ok (block, rest)) : rest.length < bytes.length := by
  unfold nextBlock at h
  simp only [bind, Except.bind, throw, throwThe, MonadExceptOf.throw] at h
  repeat' split at h
  all_goals first | cases h | exact length_takeBlock h

/-- A fault of a block as one of the capture, with the number of bytes from the block on. -/
def BlockFault.fault (available : Nat) : BlockFault → CaptureFault
  | cut missing => if bufferSize ≤ available + missing then .blockTooLarge else .blockCut
  | malformed bytes => .blockMalformed bytes
  | unrecognized => .sectionUnrecognized

/-- The link layer of frames from interfaces that the capture does not describe. -/
def defaultLinkType : Nat := 1

/-- The frames in blocks. `interfaces` are the link layers of the interfaces so far. -/
def readBlocks (order : ByteOrder) (interfaces : List Nat) (bytes : List UInt8) : CaptureContent :=
  if bytes.isEmpty then ([], none)
  else
    match _h : nextBlock order bytes with
    | .error fault => ([], some (fault.fault bytes.length))
    | .ok (block, rest) =>
      match block with
      | .section order => readBlocks order interfaces rest
      | .interface linkType => readBlocks order (interfaces ++ [linkType]) rest
      | .frame interface frame =>
        CaptureContent.cons ⟨interfaces.getD interface defaultLinkType, frame⟩
          (readBlocks order interfaces rest)
      | .other => readBlocks order interfaces rest
termination_by bytes.length
decreasing_by all_goals exact length_nextBlock _h

/-- A fault of the first block as one of the capture. -/
def BlockFault.headerFault : BlockFault → CaptureFault
  | cut missing => .headerCut missing
  | malformed bytes => .headerMalformed bytes
  | unrecognized => .unrecognized

/-- The frames of a capture in blocks. -/
def readSections (bytes : List UInt8) : CaptureContent :=
  match sectionOrder bytes with
  | .error fault => ([], some fault.headerFault)
  | .ok order =>
    match takeBlock order sectionType bytes with
    | .error fault => ([], some fault.headerFault)
    | .ok _ => readBlocks order [] bytes

/-- The frames of a capture. -/
def readCapture (bytes : List UInt8) : CaptureContent :=
  if ByteOrder.big.longAt bytes 0 = sectionType then readSections bytes else readClassic bytes

end Telemetry
