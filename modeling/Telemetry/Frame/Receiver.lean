import Telemetry.Frame.Packet

/-!
# Receiving a byte stream

A receiver is given the bytes of a stream in pieces and finds the frames among them. Bytes that
start no frame are skipped; a frame that does not hold what it announces is a false start, of which
only the first byte is skipped. While more bytes may come, an incomplete frame is held back.

* `Receiver.push`, `Receiver.close`: more bytes, or the word that none will follow.
* `Receiver.advance`: one move: a frame, a rest until more bytes come, or some bytes skipped.
* `Receiver.next`, `Receiver.drain`: the next frame, and all frames up to the next rest.
-/

namespace Telemetry

/-- What a receiver has counted. -/
structure ReceiveStats where
  /-- Frames returned. -/
  frames : Nat := 0
  /-- Frames dropped for their checksum. -/
  badChecksum : Nat := 0
  /-- Bytes skipped in search of a frame. -/
  skippedBytes : Nat := 0
  /-- Frames returned whose checksum could not be compared. -/
  unverified : Nat := 0
  /-- Sequence numbers missed, over all senders. -/
  lost : Nat := 0
deriving DecidableEq, Inhabited

/-- The counts of two receivers together. -/
def ReceiveStats.add (a b : ReceiveStats) : ReceiveStats where
  frames := a.frames + b.frames
  badChecksum := a.badChecksum + b.badChecksum
  skippedBytes := a.skippedBytes + b.skippedBytes
  unverified := a.unverified + b.unverified
  lost := a.lost + b.lost

/-- A frame and the place of its bytes in the stream. -/
structure ReadFrame where
  frame : ParsedFrame
  /-- The position of its first byte. -/
  start : Nat
  /-- The position behind its last byte. -/
  stop : Nat
deriving DecidableEq

/-- A sender: a component of a system. -/
structure Sender where
  systemId : UInt8
  componentId : UInt8
deriving DecidableEq

/-- The sender of a packet. -/
def Packet.sender (p : Packet) : Sender := ⟨p.systemId, p.componentId⟩

/-- The state of a receiver. -/
structure Receiver where
  table : FingerprintTable
  /-- Bytes neither skipped nor returned yet. -/
  buffer : List UInt8 := []
  /-- The position of the first of them in the stream. -/
  offset : Nat := 0
  stats : ReceiveStats := {}
  /-- The sequence numbers returned by sender, the latest first. -/
  heard : List (Sender × UInt8) := []
  /-- Whether no more bytes will come. -/
  closed : Bool := false

/-- Whether a byte starts a frame of some version. -/
def isStartByte (b : UInt8) : Bool := (FrameVersion.ofStartByte? b).isSome

/-- How many sequence numbers lie between two that follow each other. -/
def sequenceGap (last next : UInt8) : Nat := (next - (last + 1)).toNat

/-- What a receiver does in one move. -/
inductive Move where
  /-- It waits for more bytes, or has none left. -/
  | rest (r : Receiver)
  /-- It returns a frame. -/
  | frame (f : ReadFrame) (r : Receiver)
  /-- It skips bytes and goes on. -/
  | skip (r : Receiver)

namespace Receiver

/-- Adds bytes to the stream. -/
def push (r : Receiver) (bytes : List UInt8) : Receiver := { r with buffer := r.buffer ++ bytes }

/-- Ends the stream. -/
def close (r : Receiver) : Receiver := { r with closed := true }

/-- The number of bytes held back. -/
def buffered (r : Receiver) : Nat := r.buffer.length

/-- Removes the first `n` bytes. -/
def discard (r : Receiver) (n : Nat) : Receiver :=
  { r with buffer := r.buffer.drop n, offset := r.offset + n }

/-- Removes the first `n` bytes as skipped. -/
def skip (r : Receiver) (n : Nat) : Receiver :=
  { r.discard n with stats := { r.stats with skippedBytes := r.stats.skippedBytes + n } }

/-- Skips a false start. -/
def reject (r : Receiver) (error : FrameError) : Receiver :=
  let bad := match error with
    | .badChecksum .. => 1
    | _ => 0
  { r with stats := { r.stats with badChecksum := r.stats.badChecksum + bad } }.skip 1

/-- Counts a frame. -/
def account (r : Receiver) (f : ParsedFrame) : Receiver :=
  let lost := match r.heard.lookup f.packet.sender with
    | some last => sequenceGap last f.packet.sequence
    | none => 0
  { r with
    stats := { r.stats with
      frames := r.stats.frames + 1
      unverified := r.stats.unverified + if f.status = .unverified then 1 else 0
      lost := r.stats.lost + lost }
    heard := (f.packet.sender, f.packet.sequence) :: r.heard }

/-- Returns the frame that takes the first `used` bytes. -/
def accept (r : Receiver) (f : ParsedFrame) (used : Nat) : Move :=
  .frame ⟨f, r.offset, r.offset + used⟩ ((r.discard used).account f)

/-- What follows a frame whose checksum could not be compared decides on it: a start byte or the
end of the stream confirms it, any other byte refutes it. -/
def confirm (r : Receiver) (f : ParsedFrame) (used : Nat) : Move :=
  match r.buffer.drop used with
  | b :: _ => if isStartByte b then r.accept f used else .skip (r.skip 1)
  | [] => if r.closed then r.accept f used else .rest r

/-- The move of a receiver whose first byte starts a frame. -/
def readFrame (r : Receiver) : Move :=
  match Packet.parse r.buffer r.table with
  | .ok (f, used) => if f.status = .valid then r.accept f used else r.confirm f used
  | .error (.truncated needed available) =>
    if r.closed then .skip (r.reject (.truncated needed available)) else .rest r
  | .error e => .skip (r.reject e)

/-- One move of a receiver. -/
def advance (r : Receiver) : Move :=
  match r.buffer.findIdx? isStartByte with
  | none => .rest (r.skip r.buffer.length)
  | some 0 => r.readFrame
  | some n => .skip (r.skip n)

theorem length_skip_lt {r : Receiver} {n : Nat} (hn : 0 < n) (hr : 0 < r.buffer.length) :
    (r.skip n).buffer.length < r.buffer.length := by
  simp only [skip, discard, List.length_drop]
  omega

theorem length_reject_lt {r : Receiver} {e : FrameError} (hr : 0 < r.buffer.length) :
    (r.reject e).buffer.length < r.buffer.length := by
  simp only [reject, skip, discard, List.length_drop]
  omega

theorem length_accept_lt {r r' : Receiver} {f : ParsedFrame} {g : ReadFrame} {used : Nat}
    (hr : 0 < r.buffer.length) (hu : 0 < used) (h : r.accept f used = .frame g r') :
    r'.buffer.length < r.buffer.length := by
  simp only [accept] at h
  cases h
  simp only [account, discard, List.length_drop]
  omega

theorem readFrame_skip {r r' : Receiver} (hr : 0 < r.buffer.length) (h : r.readFrame = .skip r') :
    r'.buffer.length < r.buffer.length := by
  simp only [readFrame, accept, confirm] at h
  split at h
  · split at h
    · cases h
    · split at h
      · split at h
        · cases h
        · cases h; exact length_skip_lt (by decide) hr
      · split at h <;> cases h
  · split at h
    · cases h; exact length_reject_lt hr
    · cases h
  · cases h; exact length_reject_lt hr

theorem advance_skip {r r' : Receiver} (h : r.advance = .skip r') :
    r'.buffer.length < r.buffer.length := by
  have hlen : ∀ {n}, r.buffer.findIdx? isStartByte = some n → 0 < r.buffer.length := by
    intro n hn
    cases hb : r.buffer with
    | nil => simp [hb] at hn
    | cons => simp
  simp only [advance] at h
  split at h
  · cases h
  · rename_i h0; exact readFrame_skip (hlen h0) h
  · rename_i n hn hi
    cases h
    exact length_skip_lt (Nat.pos_of_ne_zero hn) (hlen hi)

theorem readFrame_frame {r r' : Receiver} {g : ReadFrame} (hr : 0 < r.buffer.length)
    (h : r.readFrame = .frame g r') : r'.buffer.length < r.buffer.length := by
  simp only [readFrame, confirm] at h
  split at h
  · rename_i f used hp
    have hu := Packet.parse_used_pos hp
    split at h
    · exact length_accept_lt hr hu h
    · split at h
      · split at h
        · exact length_accept_lt hr hu h
        · cases h
      · split at h
        · exact length_accept_lt hr hu h
        · cases h
  · split at h <;> cases h
  · cases h

theorem advance_frame {r r' : Receiver} {g : ReadFrame} (h : r.advance = .frame g r') :
    r'.buffer.length < r.buffer.length := by
  simp only [advance] at h
  split at h
  · cases h
  · rename_i h0
    refine readFrame_frame ?_ h
    cases hb : r.buffer with
    | nil => simp [hb] at h0
    | cons => simp
  · cases h

/-- The next frame, or `none` if more bytes are needed. -/
def next (r : Receiver) : Option ReadFrame × Receiver :=
  match _h : r.advance with
  | .rest r' => (none, r')
  | .frame f r' => (some f, r')
  | .skip r' => r'.next
termination_by r.buffer.length
decreasing_by exact advance_skip _h

theorem next_frame {r r' : Receiver} {f : ReadFrame} (h : r.next = (some f, r')) :
    r'.buffer.length < r.buffer.length := by
  fun_induction next r with
  | case1 r s hs => cases h
  | case2 r g s hs => cases h; exact advance_frame hs
  | case3 r s hs ih => exact Nat.lt_trans (ih h) (advance_skip hs)

/-- All frames up to the point where more bytes are needed. -/
def drain (r : Receiver) : List ReadFrame × Receiver :=
  match _h : r.next with
  | (none, r') => ([], r')
  | (some f, r') => (f :: r'.drain.1, r'.drain.2)
termination_by r.buffer.length
decreasing_by all_goals exact next_frame _h

end Receiver

end Telemetry
