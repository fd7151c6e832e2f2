import Telemetry.ByteOrder

/-!
# Datagrams in captured frames

Captured network frames carry UDP datagrams inside IPv4 packets, which are found by way of the
link layer that the capture names.

* `Datagram.ofFrame?`: the datagram in a captured frame.
-/

namespace Telemetry

/-- A UDP datagram. -/
structure Datagram where
  sourcePort : Nat
  targetPort : Nat
  payload : List UInt8
deriving DecidableEq

/-- The link layers that captures may have. -/
inductive LinkLayer where
  | ethernet
  /-- No link layer: frames are IP packets. -/
  | ip
  /-- The general layer of captures on all interfaces at once. -/
  | cooked
deriving DecidableEq

/-- The link layer with a number, if it is one that is looked into. -/
def LinkLayer.ofNumber? : Nat → Option LinkLayer
  | 1 => some ethernet
  | 101 => some ip
  | 113 => some cooked
  | _ => none

/-- The 16-bit word at a place. -/
def wordAt (bytes : List UInt8) (place : Nat) : Nat :=
  ByteOrder.big.word ((bytes.drop place).take 2)

/-- The protocol number of IPv4 in link layers. -/
def ipv4Protocol : Nat := 0x0800

/-- The protocol numbers behind which a tag and another protocol number follow. -/
def isTagProtocol (n : Nat) : Bool := n == 0x8100 || n == 0x88A8

/-- The IPv4 packet behind a protocol number and any tags. -/
def afterTags (bytes : List UInt8) : Option (List UInt8) :=
  match bytes with
  | a :: b :: rest =>
    let protocol := wordAt [a, b] 0
    if protocol = ipv4Protocol then some rest
    else if isTagProtocol protocol then afterTags (rest.drop 2)
    else none
  | _ => none
termination_by bytes.length
decreasing_by simp only [List.length_drop, List.length_cons]; omega

/-- The IPv4 packet of a frame. -/
def LinkLayer.packet? (layer : LinkLayer) (frame : List UInt8) : Option (List UInt8) :=
  match layer with
  | ethernet => afterTags (frame.drop 12)
  | ip => some frame
  | cooked =>
    if 16 ≤ frame.length ∧ wordAt frame 14 = ipv4Protocol then some (frame.drop 16) else none

namespace Datagram

/-- The number of UDP among the protocols of IPv4. -/
def udpProtocol : UInt8 := 17

/-- The datagram of a UDP part, as long as its header says. -/
def ofUdp? (part : List UInt8) : Option Datagram :=
  let length := wordAt part 4
  if 8 ≤ length ∧ length ≤ part.length then
    some { sourcePort := wordAt part 0, targetPort := wordAt part 2
           payload := (part.take length).drop 8 }
  else none

/-- The datagram of an IPv4 packet. What the frame has behind the packet does not belong to it. -/
def ofPacket? (packet : List UInt8) : Option Datagram :=
  let first := packet.headD 0
  let headerLength := first.toNat % 16 * 4
  let totalLength := wordAt packet 2
  if packet.length < 20 ∨ first.toNat / 16 ≠ 4 then none
  else if headerLength < 20 ∨ packet.length < headerLength ∨ totalLength < headerLength then none
  else
    let packet := packet.take totalLength
    if packet.length < headerLength + 8 ∨ packet.getD 9 0 ≠ udpProtocol then none
    else ofUdp? (packet.drop headerLength)

/-- The datagram in a captured frame whose link layer has a number. -/
def ofFrame? (linkType : Nat) (frame : List UInt8) : Option Datagram := do
  let layer ← LinkLayer.ofNumber? linkType
  let packet ← layer.packet? frame
  ofPacket? packet

end Datagram

end Telemetry
