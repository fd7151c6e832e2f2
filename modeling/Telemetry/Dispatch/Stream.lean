import Telemetry.Dispatch.Table
import Telemetry.Frame.Receiver

/-!
# Decoding a stream

Every frame of a complete stream, decoded by a dispatch table. A frame whose payload cannot be
decoded is left out and reported.
-/

namespace Telemetry

/-- A frame of a stream with its message. -/
structure StreamMessage where
  packet : Packet
  status : ChecksumStatus
  /-- The message, unless the table does not know its id. -/
  message : Option DecodedMessage
  /-- The position of the frame's first byte. -/
  start : Nat
  /-- The position behind its last byte. -/
  stop : Nat

/-- A frame whose payload could not be decoded. -/
structure RemovedFrame where
  messageId : Nat
  /-- The position of the frame's first byte. -/
  start : Nat
  /-- The position behind its last byte. -/
  stop : Nat
  reason : CodecError

/-- What a stream holds. -/
structure StreamContent where
  messages : List StreamMessage
  removed : List RemovedFrame
  stats : ReceiveStats

/-- A frame with its message, or the report that it has none. -/
def ReadFrame.decode (f : ReadFrame) (table : DispatchTable) :
    Except RemovedFrame StreamMessage :=
  match table.decode f.frame.packet with
  | .ok message =>
    .ok { packet := f.frame.packet, status := f.frame.status, message, start := f.start
          stop := f.stop }
  | .error reason =>
    .error { messageId := f.frame.packet.messageId, start := f.start, stop := f.stop, reason }

/-- The results that are values. -/
def values {ε α : Type} (results : List (Except ε α)) : List α := results.filterMap (·.toOption)

/-- The results that are errors. -/
def errors {ε α : Type} (results : List (Except ε α)) : List ε :=
  results.filterMap fun
    | .ok _ => none
    | .error e => some e

/-- What the stream of the given bytes holds. -/
def DispatchTable.decodeStream (table : DispatchTable) (bytes : List UInt8) : StreamContent :=
  let (frames, receiver) :=
    (({ table := table.fingerprints } : Receiver).push bytes).close.drain
  let results := frames.map (·.decode table)
  { messages := values results, removed := errors results, stats := receiver.stats }

end Telemetry
