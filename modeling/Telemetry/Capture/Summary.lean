import Telemetry.Capture.Datagram
import Telemetry.Capture.File
import Telemetry.Dispatch.Dump
import Telemetry.Dispatch.Stream

/-!
# Summaries of captures

Every datagram of a capture is decoded as a stream of its own. The summary counts what was found.

* `CaptureSummary.addFrame`: a further captured frame, with what is dumped of it.
* `CaptureSummary.report`: the text of a summary.
-/

namespace Telemetry

/-- What was found in a capture. -/
structure CaptureSummary where
  /-- The captured frames. -/
  packets : Nat := 0
  /-- The datagrams that were looked into. -/
  datagrams : Nat := 0
  /-- The messages that were decoded. -/
  decoded : Nat := 0
  /-- The frames with an id that is not in the dispatch table. -/
  unknown : Nat := 0
  /-- The frames whose payload could not be decoded. -/
  removed : Nat := 0
  stats : ReceiveStats := {}
  /-- How often each message was decoded. -/
  perMessage : SortedMap String Nat := {}
  /-- How often each unknown id was met. -/
  unknownIds : SortedMap Nat Nat := {}
  /-- The first reason for which a payload could not be decoded. -/
  firstError : Option String := none

/-- Counts one more under a key. -/
def countUp {κ : Type} [Ord κ] [Std.TransOrd κ] (counts : SortedMap κ Nat) (key : κ) :
    SortedMap κ Nat :=
  counts.insert key ((counts.get? key).getD 0 + 1)

namespace CaptureSummary

/-- Counts a message of a stream. -/
def addMessage (s : CaptureSummary) (m : StreamMessage) : CaptureSummary :=
  match m.message with
  | some message =>
    { s with
      decoded := s.decoded + 1
      perMessage := countUp s.perMessage s!"{message.dialect}::{message.name}" }
  | none =>
    { s with
      unknown := s.unknown + 1
      unknownIds := countUp s.unknownIds m.packet.messageId }

/-- Counts a frame whose payload could not be decoded. -/
def addRemoved (s : CaptureSummary) (r : RemovedFrame) : CaptureSummary :=
  { s with
    removed := s.removed + 1
    firstError := s.firstError <|> some s!"id {r.messageId}: {r.reason.message}" }

/-- Counts a datagram with its content. -/
def addDatagram (s : CaptureSummary) (content : StreamContent) : CaptureSummary :=
  let s := { s with datagrams := s.datagrams + 1, stats := s.stats.add content.stats }
  content.removed.foldl addRemoved (content.messages.foldl addMessage s)

end CaptureSummary

/-- Whether a datagram comes from or goes to a port, if there is one to look for. -/
def Datagram.hasPort (d : Datagram) (port : Option Nat) : Bool :=
  port.all fun port => d.sourcePort == port || d.targetPort == port

/-- The lines that are dumped of a message of the captured frame with a number. -/
def StreamMessage.dump (table : DispatchTable) (number : Nat) (m : StreamMessage) : String :=
  let head := s!"#{number} {m.packet.summary m.status}\n"
  match m.message with
  | some message => s!"{head}{table.dump message}\n"
  | none => s!"{head}  payload: {Hex.spaced m.packet.payload}\n"

namespace CaptureSummary

/-- Counts a captured frame, and gives what is dumped of it. -/
def addFrame (table : DispatchTable) (port : Option Nat) (s : CaptureSummary) (f : CapturedFrame) :
    CaptureSummary × String :=
  let s := { s with packets := s.packets + 1 }
  match (Datagram.ofFrame? f.linkType f.bytes).filter (·.hasPort port) with
  | none => (s, "")
  | some datagram =>
    let content := table.decodeStream datagram.payload
    (s.addDatagram content,
      String.join (content.messages.map fun m => m.dump table s.packets))

/-- Counts captured frames, and gives what is dumped of them. -/
def ofFrames (table : DispatchTable) (port : Option Nat) (frames : List CapturedFrame) :
    CaptureSummary × String :=
  frames.foldl (fun (s, dumped) f =>
    let (s, more) := s.addFrame table port f
    (s, dumped ++ more)) ({}, "")

/-- A text with blanks behind it up to a width. -/
def fillRight (width : Nat) (s : String) : String :=
  String.ofList (s.toList ++ List.replicate (width - s.length) ' ')

/-- A text with blanks before it up to a width. -/
def fillLeft (width : Nat) (s : String) : String :=
  String.ofList (List.replicate (width - s.length) ' ' ++ s.toList)

/-- A line that names a count. -/
def line (label content : String) : String := fillRight 16 s!"{label}:" ++ content ++ "\n"

/-- The text of the summary of a capture, decoded with some dialects. -/
def report (s : CaptureSummary) (capture : String) (dialects : List String) : String :=
  let counts :=
    [("packets", s.packets), ("udp datagrams", s.datagrams), ("frames", s.stats.frames),
      ("decoded", s.decoded), ("unknown id", s.unknown), ("removed", s.removed),
      ("bad checksum", s.stats.badChecksum), ("unverified", s.stats.unverified),
      ("skipped bytes", s.stats.skippedBytes), ("sequence lost", s.stats.lost)]
  let messages := s.perMessage.entries.map fun (name, n) => s!"  {fillRight 32 name} {n}\n"
  let ids := s.unknownIds.entries.map fun (id, n) => s!"  {fillLeft 8 (toString id)}: {n}\n"
  let titled (title : String) (lines : List String) : String :=
    if lines.isEmpty then "" else title ++ String.join lines
  line "capture" capture ++ line "dialects" (String.intercalate ", " dialects)
    ++ String.join (counts.map fun (label, n) => line label (toString n))
    ++ (s.firstError.map (line "first error")).getD ""
    ++ titled "messages:\n" messages
    ++ titled "unknown ids (skipped):\n" ids

end CaptureSummary

end Telemetry
