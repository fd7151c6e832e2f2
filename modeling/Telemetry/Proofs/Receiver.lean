import Telemetry.Frame.Receiver
import Telemetry.Proofs.Parse

/-!
# Runs of a receiver

A receiver is used by calls: bytes are pushed, the next frame is asked for, the stream is closed.

* `Call`, `Receiver.run`: any calls in any order, and the frames that they return.
* `Receiver.complete`: a receiver whose stream has come to its end.
* `drain_eq_of_next`: a receiver goes on as its next answer says.
* `readFrame_of_ok`, `readFrame_of_error`, `readFrame_of_truncated`: what it does at a start byte.
* `advance_of_none`, `advance_of_zero`, `advance_of_pos`: where it looks for one.
-/

namespace Telemetry

/-- A use of a receiver. -/
inductive Call where
  /-- More bytes of the stream. -/
  | push (bytes : List UInt8)
  /-- The end of the stream. -/
  | close
  /-- The question for the next frame. -/
  | next
deriving DecidableEq

/-- The bytes that calls push, in order. -/
def pushed : List Call → List UInt8
  | [] => []
  | .push bytes :: calls => bytes ++ pushed calls
  | .close :: calls => pushed calls
  | .next :: calls => pushed calls

theorem pushed_append (a b : List Call) : pushed (a ++ b) = pushed a ++ pushed b := by
  induction a with
  | nil => rfl
  | cons c a ih => cases c <;> simp [pushed, ih]

theorem pushed_replicate_next (n : Nat) : pushed (List.replicate n .next) = [] := by
  induction n with
  | zero => rfl
  | succ n ih => rw [List.replicate_succ, pushed, ih]

theorem isStartByte_iff {b : UInt8} : isStartByte b ↔ b = 0xFE ∨ b = 0xFD := by
  unfold isStartByte FrameVersion.ofStartByte?
  by_cases hl : b = FrameVersion.legacy.startByte
  · simp [hl, FrameVersion.startByte]
  by_cases he : b = FrameVersion.extended.startByte
  · simp [he, FrameVersion.startByte]
  · simp_all [FrameVersion.startByte]

/-- No byte before the first start byte is one. -/
theorem not_start_of_findIdx? {bytes : List UInt8} {n : Nat}
    (h : bytes.findIdx? isStartByte = some n) :
    n < bytes.length ∧ ∀ b ∈ bytes.take n, isStartByte b = false := by
  obtain ⟨hlt, -, hbefore⟩ := List.findIdx?_eq_some_iff_getElem.1 h
  refine ⟨hlt, fun b hb => ?_⟩
  obtain ⟨j, hj, rfl⟩ := List.getElem_of_mem hb
  rw [List.length_take] at hj
  rw [List.getElem_take]
  exact Bool.eq_false_iff.2 (hbefore j (by omega))

theorem isStartByte_startByte (v : FrameVersion) : isStartByte v.startByte := by
  simp [isStartByte]

namespace Receiver

/-- One call: the frame it returns, if any, and the receiver after it. -/
def call (r : Receiver) : Call → Option ReadFrame × Receiver
  | .push bytes => (none, r.push bytes)
  | .close => (none, r.close)
  | .next => r.next

/-- Calls one after the other: all frames that they return, and the receiver after them. -/
def run (r : Receiver) : List Call → List ReadFrame × Receiver
  | [] => ([], r)
  | c :: calls =>
    let (f?, r') := r.call c
    let (frames, r'') := r'.run calls
    (f?.toList ++ frames, r'')

/-- The receiver after the rest of its stream has come. -/
def complete (r : Receiver) (rest : List UInt8) : Receiver := (r.push rest).close

section Fields

variable (r : Receiver) (n : Nat) (f : ParsedFrame) (e : FrameError) (bytes rest : List UInt8)

@[simp] theorem buffer_skip : (r.skip n).buffer = r.buffer.drop n := rfl
@[simp] theorem table_skip : (r.skip n).table = r.table := rfl
@[simp] theorem buffer_account : ((r.discard n).account f).buffer = r.buffer.drop n := rfl
@[simp] theorem offset_account : ((r.discard n).account f).offset = r.offset + n := rfl
@[simp] theorem buffer_complete : (r.complete rest).buffer = r.buffer ++ rest := rfl

theorem complete_push : (r.push bytes).complete rest = r.complete (bytes ++ rest) := by
  simp [complete, push, close, List.append_assoc]

theorem skip_complete (h : n ≤ r.buffer.length) :
    (r.complete rest).skip n = (r.skip n).complete rest := by
  simp [complete, push, close, skip, discard, List.drop_append_of_le_length h]

theorem reject_complete (h : 1 ≤ r.buffer.length) :
    (r.complete rest).reject e = (r.reject e).complete rest := by
  simp [complete, push, close, reject, skip, discard, List.drop_append_of_le_length h]

theorem accept_complete (h : n ≤ r.buffer.length) :
    (r.complete rest).accept f n =
      .frame ⟨f, r.offset, r.offset + n⟩ (((r.discard n).account f).complete rest) := by
  simp [complete, push, close, accept, account, discard, List.drop_append_of_le_length h]

theorem skip_skip (m : Nat) : (r.skip m).skip n = r.skip (m + n) := by
  simp [skip, discard, List.drop_drop, Nat.add_assoc]

end Fields

/-! ## Unfolding a run -/

theorem next_of_rest {r r' : Receiver} (h : r.advance = .rest r') : r.next = (none, r') := by
  rw [next]
  split <;> simp_all

theorem next_of_frame {r r' : Receiver} {g : ReadFrame} (h : r.advance = .frame g r') :
    r.next = (some g, r') := by
  rw [next]
  split <;> simp_all

theorem next_of_skip {r r' : Receiver} (h : r.advance = .skip r') : r.next = r'.next := by
  rw [next]
  split <;> simp_all

theorem drain_of_none {r r' : Receiver} (h : r.next = (none, r')) : r.drain = ([], r') := by
  rw [drain]
  split <;> simp_all

theorem drain_of_some {r r' : Receiver} {g : ReadFrame} (h : r.next = (some g, r')) :
    r.drain = (g :: r'.drain.1, r'.drain.2) := by
  rw [drain]
  split <;> simp_all

/-- Receivers with the same next answer are drained alike. -/
theorem drain_eq_of_next {r r' : Receiver} (h : r.next = r'.next) : r.drain = r'.drain := by
  rcases hr : r.next with ⟨_ | g, s⟩
  · rw [drain_of_none hr, drain_of_none (h.symm.trans hr)]
  · rw [drain_of_some hr]
    exact (drain_of_some (h.symm.trans hr)).symm

/-! ## Moves -/

/-- What a receiver does with the frame it has read at a start byte. -/
theorem readFrame_of_ok {r : Receiver} {f : ParsedFrame} {used : Nat}
    (hp : Packet.parse r.buffer r.table = .ok (f, used)) :
    r.readFrame = if f.status = .valid then r.accept f used else r.confirm f used := by
  simp only [readFrame, hp]

/-- A closed receiver skips every start byte at which no frame can be read. -/
theorem readFrame_of_error {r : Receiver} {e : FrameError} (hc : r.closed = true)
    (hp : Packet.parse r.buffer r.table = .error e) : r.readFrame = .skip (r.reject e) := by
  cases e <;> simp only [readFrame, hp, hc, if_true]

/-- Before a receiver closed, an incomplete frame makes it wait. -/
theorem readFrame_of_truncated {r : Receiver} {needed available : Nat} (ho : r.closed = false)
    (hp : Packet.parse r.buffer r.table = .error (.truncated needed available)) :
    r.readFrame = .rest r := by
  simp only [readFrame, hp, ho, Bool.false_eq_true, if_false]

theorem advance_of_none {r : Receiver} (h : r.buffer.findIdx? isStartByte = none) :
    r.advance = .rest (r.skip r.buffer.length) := by
  simp only [advance, h]

theorem advance_of_zero {r : Receiver} (h : r.buffer.findIdx? isStartByte = some 0) :
    r.advance = r.readFrame := by
  simp only [advance, h]

theorem advance_of_pos {r : Receiver} {n : Nat} (hn : 0 < n)
    (h : r.buffer.findIdx? isStartByte = some n) : r.advance = .skip (r.skip n) := by
  obtain ⟨k, rfl⟩ := Nat.exists_eq_succ_of_ne_zero (Nat.ne_of_gt hn)
  simp only [advance, h]

/-- The buffer of a receiver that finds a start byte in front is not empty. -/
theorem buffer_pos_of_findIdx? {r : Receiver} {n : Nat}
    (h : r.buffer.findIdx? isStartByte = some n) : 0 < r.buffer.length := by
  obtain ⟨hn, -⟩ := List.findIdx?_eq_some_iff_getElem.1 h
  exact Nat.lt_of_le_of_lt (Nat.zero_le n) hn

end Receiver

end Telemetry
