/-!
# Frame versions

The two generations of frames and their fixed sizes. A legacy frame is

`FE length sequence system component id | payload | checksum`

and an extended one

`FD length incompat compat sequence system component id id id | payload | checksum [signature]`.
-/

namespace Telemetry

/-- The generations of frames. -/
inductive FrameVersion where
  /-- One byte of message id; base fields only. -/
  | legacy
  /-- Three bytes of message id, flags, and an optional signature; base and extension fields. -/
  | extended
deriving DecidableEq, Inhabited

/-- The number of checksum bytes of a frame. -/
def checksumLength : Nat := 2

/-- The number of bytes of a signature: link, timestamp and shortened hash. -/
def signatureLength : Nat := 13

/-- The longest payload of a frame. -/
def maxPayloadLength : Nat := 255

/-- The flag of an extended frame that a signature follows the checksum. -/
def signedFlag : UInt8 := 1

namespace FrameVersion

/-- The first byte of a frame. -/
def startByte : FrameVersion → UInt8
  | legacy => 0xFE
  | extended => 0xFD

/-- The version that a first byte announces. -/
def ofStartByte? (b : UInt8) : Option FrameVersion :=
  if b = startByte legacy then some legacy
  else if b = startByte extended then some extended
  else none

/-- The number of header bytes, the start byte included. -/
def headerLength : FrameVersion → Nat
  | legacy => 6
  | extended => 10

/-- The greatest message id. -/
def maxId : FrameVersion → Nat
  | legacy => 0xFF
  | extended => 0xFFFFFF

/-- The name of a version. -/
def name : FrameVersion → String
  | legacy => "Legacy"
  | extended => "Extended"

end FrameVersion

end Telemetry
