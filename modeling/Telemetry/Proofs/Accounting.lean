import Telemetry.Proofs.Chunking
import Telemetry.Proofs.Framing

/-!
# Where the bytes of a stream go

Each byte that is pushed is held back, skipped, or belongs to one frame that was returned. This
holds after every call, in whatever order bytes are pushed, frames are asked for and the stream is
closed; bytes may even be pushed behind the end of the stream.

* `Receiver.Permits`, `Receiver.next_cases`: all that a move and an answer can be.
* `Accounted`: what holds between the bytes pushed, the frames returned and the receiver.
* `Accounted.run`: calls keep it.
* `run_accounts_bytes`: so it holds of every run.
-/

namespace Telemetry

/-- The number of bytes that frames take. -/
def frameBytes : List ReadFrame → Nat
  | [] => 0
  | g :: gs => (g.stop - g.start) + frameBytes gs

theorem frameBytes_append (gs gs' : List ReadFrame) :
    frameBytes (gs ++ gs') = frameBytes gs + frameBytes gs' := by
  induction gs with
  | nil => simp [frameBytes]
  | cons g gs ih => simp [frameBytes, ih, Nat.add_assoc]

namespace Receiver

/-! ## What a receiver can do -/

/-- All that a move of `r` can be: it passes over bytes, or returns the frame at its front. -/
def Permits (r : Receiver) : Move → Prop
  | .rest r' => ∃ n, n ≤ r.buffer.length ∧ r' = r.pass n
  | .skip r' => ∃ n, n ≤ r.buffer.length ∧ r' = r.pass n
  | .frame g r' => ∃ f used, Packet.parse r.buffer r.table = .ok (f, used) ∧
      g = ⟨f, r.offset, r.offset + used⟩ ∧ r' = (r.discard used).account f

theorem permits_rest (r : Receiver) : r.Permits (.rest r) := ⟨0, Nat.zero_le _, rfl⟩

theorem permits_accept {r : Receiver} {f : ParsedFrame} {used : Nat}
    (hp : Packet.parse r.buffer r.table = .ok (f, used)) : r.Permits (r.accept f used) :=
  ⟨f, used, hp, rfl, rfl⟩

theorem permits_readFrame {r : Receiver} (hb : 0 < r.buffer.length) : r.Permits r.readFrame := by
  cases hp : Packet.parse r.buffer r.table with
  | error e =>
    have hskip : r.Permits (.skip (r.reject e)) := ⟨1, hb, (pass_eq_reject r hp).symm⟩
    cases e with
    | truncated needed available =>
      by_cases hc : r.closed
      · rwa [readFrame_of_error hc hp]
      · rw [readFrame_of_truncated (Bool.eq_false_iff.2 hc) hp]
        exact permits_rest r
    | _ => simpa only [readFrame, hp] using hskip
  | ok read =>
    obtain ⟨f, used⟩ := read
    have hpass : r.pass 1 = r.skip 1 := pass_eq_skip r 1 (by simp [failures, failsChecksum, hp])
    have hskip : r.Permits (.skip (r.skip 1)) := ⟨1, hb, hpass.symm⟩
    rw [readFrame_of_ok hp]
    split
    · exact permits_accept hp
    · unfold confirm
      split
      · split
        · exact permits_accept hp
        · exact hskip
      · split
        · exact permits_accept hp
        · exact permits_rest r

theorem permits_advance (r : Receiver) : r.Permits r.advance := by
  rcases hidx : r.buffer.findIdx? isStartByte with _ | n
  · have hno : ∀ b ∈ r.buffer.take r.buffer.length, isStartByte b = false := by
      rw [List.take_length]
      exact List.findIdx?_eq_none_iff.1 hidx
    rw [advance_of_none hidx]
    exact ⟨_, Nat.le_refl _, (pass_eq_skip _ _ (failures_of_not_start hno)).symm⟩
  rcases Nat.eq_zero_or_pos n with rfl | hn
  · rw [advance_of_zero hidx]
    exact permits_readFrame (buffer_pos_of_findIdx? hidx)
  · obtain ⟨hlt, hno⟩ := not_start_of_findIdx? hidx
    rw [advance_of_pos hn hidx]
    exact ⟨n, Nat.le_of_lt hlt, (pass_eq_skip _ _ (failures_of_not_start hno)).symm⟩

/-- The next answer: bytes are passed over, and perhaps the frame behind them is returned. -/
theorem next_cases (r : Receiver) :
    ∃ n, n ≤ r.buffer.length ∧ (r.next = (none, r.pass n) ∨
      ∃ f used, Packet.parse (r.pass n).buffer r.table = .ok (f, used) ∧
        r.next = (some ⟨f, (r.pass n).offset, (r.pass n).offset + used⟩,
          ((r.pass n).discard used).account f)) := by
  -- Each move passes over some bytes more, so by induction on the moves.
  fun_induction next r with
  | case1 r r' hrest =>
    have h := permits_advance r
    rw [hrest] at h
    obtain ⟨n, hn, rfl⟩ := h
    exact ⟨n, hn, .inl rfl⟩
  | case2 r g r' hframe =>
    have h := permits_advance r
    rw [hframe] at h
    obtain ⟨f, used, hp, rfl, rfl⟩ := h
    exact ⟨0, Nat.zero_le _, .inr ⟨f, used, hp, rfl⟩⟩
  | case3 r r' hskip ih =>
    have h := permits_advance r
    rw [hskip] at h
    obtain ⟨n, hn, rfl⟩ := h
    obtain ⟨k, hk, hnext⟩ := ih
    rw [pass_pass] at hnext
    rw [buffer_pass, List.length_drop] at hk
    exact ⟨n + k, by omega, hnext⟩

/-- Once closed, a receiver stays so. -/
theorem closed_next (r : Receiver) : r.next.2.closed = r.closed := by
  obtain ⟨n, -, h | ⟨f, used, -, h⟩⟩ := next_cases r
  · rw [h]; rfl
  · rw [h]; rfl

theorem closed_run {r : Receiver} {calls : List Call} (h : r.closed = true ∨ Call.close ∈ calls) :
    (r.run calls).2.closed = true := by
  induction calls generalizing r with
  | nil => simpa [run] using h
  | cons c calls ih =>
    refine ih ?_
    cases c with
    | push bytes => exact h.imp id (by simp)
    | close => exact .inl rfl
    | next => exact h.imp (fun hc => (closed_next r).trans hc) (by simp)

end Receiver

/-! ## The account -/

/-- The account of a receiver that was pushed the bytes of `stream` and has returned `frames`. It
stands at some position of the stream, and what lies before was skipped or is part of a frame. -/
structure Accounted (table : FingerprintTable) (stream : List UInt8) (frames : List ReadFrame)
    (r : Receiver) : Prop where
  table_eq : r.table = table
  offset_le : r.offset ≤ stream.length
  buffer_eq : r.buffer = stream.drop r.offset
  offset_eq : r.offset = r.stats.skippedBytes + frameBytes frames
  ordered : frames.Pairwise fun g g' => g.stop ≤ g'.start
  reads : ∀ g ∈ frames, g.start < g.stop ∧ g.stop ≤ r.offset ∧
    Packet.parse ((stream.drop g.start).take (g.stop - g.start)) table =
      .ok (g.frame, g.stop - g.start)

namespace Accounted

variable {table : FingerprintTable} {stream : List UInt8} {frames : List ReadFrame} {r : Receiver}

theorem start (table : FingerprintTable) : Accounted table [] [] { table } where
  table_eq := rfl
  offset_le := Nat.le_refl _
  buffer_eq := rfl
  offset_eq := rfl
  ordered := .nil
  reads := by simp

theorem push (h : Accounted table stream frames r) (bytes : List UInt8) :
    Accounted table (stream ++ bytes) frames (r.push bytes) where
  table_eq := h.table_eq
  offset_le := by
    have := h.offset_le
    rw [List.length_append]
    exact Nat.le_add_right_of_le this
  buffer_eq := by
    show r.buffer ++ bytes = (stream ++ bytes).drop r.offset
    rw [List.drop_append_of_le_length h.offset_le, h.buffer_eq]
  offset_eq := h.offset_eq
  ordered := h.ordered
  reads := by
    intro g hg
    obtain ⟨hlt, hle, hp⟩ := h.reads g hg
    have hoff := h.offset_le
    refine ⟨hlt, hle, ?_⟩
    rw [List.drop_append_of_le_length (by omega), List.take_append_of_le_length]
    · exact hp
    · rw [List.length_drop]
      omega

theorem close (h : Accounted table stream frames r) : Accounted table stream frames r.close :=
  ⟨h.table_eq, h.offset_le, h.buffer_eq, h.offset_eq, h.ordered, h.reads⟩

theorem pass (h : Accounted table stream frames r) {n : Nat} (hn : n ≤ r.buffer.length) :
    Accounted table stream frames (r.pass n) where
  table_eq := h.table_eq
  offset_le := by
    have := h.offset_le
    rw [h.buffer_eq, List.length_drop] at hn
    rw [Receiver.offset_pass]
    omega
  buffer_eq := by
    rw [Receiver.buffer_pass, Receiver.offset_pass, h.buffer_eq, List.drop_drop]
  offset_eq := by
    have := h.offset_eq
    show r.offset + n = r.stats.skippedBytes + n + frameBytes frames
    omega
  ordered := h.ordered
  reads := by
    intro g hg
    obtain ⟨hlt, hle, hp⟩ := h.reads g hg
    exact ⟨hlt, Nat.le_add_right_of_le hle, hp⟩

theorem frame (h : Accounted table stream frames r) {f : ParsedFrame} {used : Nat}
    (hp : Packet.parse r.buffer r.table = .ok (f, used)) :
    Accounted table stream (frames ++ [⟨f, r.offset, r.offset + used⟩])
      ((r.discard used).account f) where
  table_eq := h.table_eq
  offset_le := by
    have hoff := h.offset_le
    have hle := Packet.used_le_of_parse hp
    rw [h.buffer_eq, List.length_drop] at hle
    rw [Receiver.offset_account]
    omega
  buffer_eq := by
    rw [Receiver.buffer_account, Receiver.offset_account, h.buffer_eq, List.drop_drop]
  offset_eq := by
    have := h.offset_eq
    rw [Receiver.offset_account, frameBytes_append]
    show r.offset + used = r.stats.skippedBytes +
      (frameBytes frames + (r.offset + used - r.offset + 0))
    omega
  ordered := by
    refine List.pairwise_append.2 ⟨h.ordered, List.pairwise_singleton _ _, ?_⟩
    intro g hg g' hg'
    obtain ⟨-, hle, -⟩ := h.reads g hg
    cases List.mem_singleton.1 hg'
    exact hle
  reads := by
    intro g hg
    rw [Receiver.offset_account]
    rcases List.mem_append.1 hg with hg | hg
    · obtain ⟨hlt, hle, hread⟩ := h.reads g hg
      exact ⟨hlt, Nat.le_add_right_of_le hle, hread⟩
    · cases List.mem_singleton.1 hg
      have hpos := Packet.parse_used_pos hp
      refine ⟨Nat.lt_add_of_pos_right hpos, Nat.le_refl _, ?_⟩
      rw [Nat.add_sub_cancel_left, ← h.buffer_eq, ← h.table_eq]
      exact Packet.parse_take hp

/-- What holds before a call, holds after it. -/
theorem call (h : Accounted table stream frames r) (c : Call) :
    Accounted table (stream ++ pushed [c]) (frames ++ (r.call c).1.toList) (r.call c).2 := by
  cases c with
  | push bytes => simpa [pushed, Receiver.call] using h.push bytes
  | close => simpa [pushed, Receiver.call] using h.close
  | next =>
    simp only [pushed, Receiver.call, List.append_nil]
    obtain ⟨n, hn, hnext | ⟨f, used, hp, hnext⟩⟩ := Receiver.next_cases r
    · rw [hnext]
      simpa using h.pass hn
    · rw [hnext]
      exact (h.pass hn).frame hp

theorem run (h : Accounted table stream frames r) (calls : List Call) :
    Accounted table (stream ++ pushed calls) (frames ++ (r.run calls).1) (r.run calls).2 := by
  induction calls generalizing stream frames r with
  | nil => simpa [pushed, Receiver.run] using h
  | cons c calls ih =>
    have hpushed : pushed (c :: calls) = pushed [c] ++ pushed calls := pushed_append [c] calls
    have hrun := ih (h.call c)
    rw [List.append_assoc, List.append_assoc, ← hpushed] at hrun
    exact hrun

end Accounted

/-- **Every byte is accounted for.** After any calls in any order, each byte pushed is held back,
skipped, or in the range of one frame that was returned. These ranges follow each other without
overlap inside the stream, and each holds the frame that was returned for it. When a closed receiver
has no frame left, it holds nothing back. -/
theorem run_accounts_bytes (table : FingerprintTable) (calls : List Call) :
    let stream := pushed calls
    let frames := (({ table } : Receiver).run calls).1
    let r := (({ table } : Receiver).run calls).2
    stream.length = r.buffered + r.stats.skippedBytes + frameBytes frames ∧
    frames.Pairwise (fun g g' => g.stop ≤ g'.start) ∧
    (∀ g ∈ frames, g.start < g.stop ∧ g.stop ≤ stream.length ∧
      Packet.parse ((stream.drop g.start).take (g.stop - g.start)) table =
        .ok (g.frame, g.stop - g.start)) ∧
    (Call.close ∈ calls → r.next.1 = none → r.next.2.buffered = 0) := by
  intro stream frames r
  have h : Accounted table stream frames r := (Accounted.start table).run calls
  refine ⟨?_, h.ordered, fun g hg => ?_, fun hclose hnone => ?_⟩
  · have hoff := h.offset_le
    have hsum := h.offset_eq
    rw [Receiver.buffered, h.buffer_eq, List.length_drop]
    omega
  · obtain ⟨hlt, hle, hp⟩ := h.reads g hg
    exact ⟨hlt, Nat.le_trans hle h.offset_le, hp⟩
  · have hclosed : r.closed = true := Receiver.closed_run (.inr hclose)
    rcases Receiver.next_closed hclosed with ⟨-, hnext⟩ | ⟨n, f, used, -, -, -, hnext⟩
    · rw [hnext]
      simp [Receiver.buffered]
    · rw [hnext] at hnone
      cases hnone

/-- Noise, a frame, and the start of another that the end of the stream cuts off. -/
theorem run_accounts_bytes_noise :
    let bytes := [7, 0xFE, 9, 7, 1, 2, 0, 4, 0, 0, 0, 2, 3, 81, 4, 3, 136, 154, 0xFD, 0]
    let calls := [.push bytes, .next, Call.close]
    let frames := (({ table := .sample } : Receiver).run calls).1
    let r := (({ table := .sample } : Receiver).run calls).2
    frames.length = 1 ∧ r.buffered = 2 ∧
      bytes.length = r.buffered + r.stats.skippedBytes + frameBytes frames ∧
      Call.close ∈ calls ∧ r.next.1 = none ∧ r.next.2.buffered = 0 := by
  intro bytes calls frames r
  obtain ⟨hsum, -, -, hend⟩ := run_accounts_bytes .sample calls
  let f : ParsedFrame :=
    ⟨{ version := .legacy, sequence := 7, systemId := 1, componentId := 2, messageId := 0,
       payload := [4, 0, 0, 0, 2, 3, 81, 4, 3] }, .valid⟩
  let found : Receiver := (({ table := .sample } : Receiver).push bytes).skip 1
  let left : Receiver := ((found.discard 17).account f).close
  have hnext : (({ table := .sample } : Receiver).push bytes).next =
      (some ⟨f, 1, 18⟩, (found.discard 17).account f) :=
    (Receiver.next_of_skip rfl).trans (Receiver.next_of_frame rfl)
  have hrun : ({ table := .sample } : Receiver).run calls = ([⟨f, 1, 18⟩], left) := by
    simp only [calls, Receiver.run, Receiver.call, hnext]
    rfl
  have hlast : r.next = (none, left.skip 2) := by
    show (({ table := .sample } : Receiver).run calls).2.next = _
    rw [hrun]
    exact (Receiver.next_of_skip rfl).trans (Receiver.next_of_rest rfl)
  have hnone : r.next.1 = none := by rw [hlast]
  refine ⟨?_, ?_, hsum, by decide, hnone, hend (by decide) hnone⟩
  · show (({ table := .sample } : Receiver).run calls).1.length = 1
    rw [hrun]
    rfl
  · show (({ table := .sample } : Receiver).run calls).2.buffered = 2
    rw [hrun]
    rfl

end Telemetry
