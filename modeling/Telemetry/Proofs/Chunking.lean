import Telemetry.Proofs.Resync

/-!
# A stream in chunks

How a stream is cut into chunks, and when frames are asked for, makes no difference to what a
receiver returns. While its stream is open, a receiver decides only what it would decide with the
whole stream at hand, and waits with the rest.

* `advance_complete`: a move of an open receiver is one of the receiver of the whole stream.
* `next_complete`: so is the next answer.
* `run_complete`: and so are the answers to any calls.
* `drain_chunks`: all frames and counts are those of the stream in one chunk.
-/

namespace Telemetry

namespace Receiver

/-- An open receiver that reads a frame does with it what the receiver of the whole stream does, or
waits. -/
theorem readFrame_complete {r : Receiver} (ho : r.closed = false) (hb : 0 < r.buffer.length)
    (rest : List UInt8) :
    r.readFrame = .rest r ∨
    (∃ g r', r'.closed = false ∧ r.readFrame = .frame g r' ∧
      (r.complete rest).readFrame = .frame g (r'.complete rest)) ∨
    (∃ r', r'.closed = false ∧ r.readFrame = .skip r' ∧
      (r.complete rest).readFrame = .skip (r'.complete rest)) := by
  by_cases htrunc : ∃ needed available,
      Packet.parse r.buffer r.table = .error (.truncated needed available)
  · obtain ⟨needed, available, hp⟩ := htrunc
    exact .inl (readFrame_of_truncated ho hp)
  have happ : Packet.parse (r.complete rest).buffer (r.complete rest).table =
      Packet.parse r.buffer r.table :=
    Packet.parse_append (fun needed available h => htrunc ⟨needed, available, h⟩) rest
  cases hp : Packet.parse r.buffer r.table with
  | error e =>
    refine .inr (.inr ⟨r.reject e, ho, ?_, ?_⟩)
    · cases e with
      | truncated needed available => exact absurd ⟨needed, available, hp⟩ htrunc
      | _ => simp only [readFrame, hp]
    · rw [readFrame_of_error rfl (happ.trans hp), reject_complete r e rest hb]
  | ok read =>
    obtain ⟨f, used⟩ := read
    have hle := Packet.used_le_of_parse hp
    rw [readFrame_of_ok hp, readFrame_of_ok (happ.trans hp)]
    by_cases hs : f.status = .valid
    · rw [if_pos hs, if_pos hs, accept_complete r used f rest hle]
      exact .inr (.inl ⟨_, (r.discard used).account f, ho, rfl, rfl⟩)
    · rw [if_neg hs, if_neg hs, confirm, confirm, buffer_complete,
        List.drop_append_of_le_length hle]
      cases hd : r.buffer.drop used with
      | nil =>
        -- What follows the frame has not come yet.
        exact .inl (by simp [ho])
      | cons b more =>
        simp only [List.cons_append]
        by_cases hstart : isStartByte b
        · rw [if_pos hstart, if_pos hstart, accept_complete r used f rest hle]
          exact .inr (.inl ⟨_, (r.discard used).account f, ho, rfl, rfl⟩)
        · rw [if_neg hstart, if_neg hstart, skip_complete r 1 rest hb]
          exact .inr (.inr ⟨r.skip 1, ho, rfl, rfl⟩)

theorem skip_zero (r : Receiver) : r.skip 0 = r := rfl

/-- Bytes that start no frame may be skipped before the search for the next frame. -/
theorem next_skip {r : Receiver} {n : Nat} (hn : n ≤ r.buffer.length)
    (h : ∀ b ∈ r.buffer.take n, isStartByte b = false) : r.next = (r.skip n).next := by
  rcases Nat.eq_zero_or_pos n with rfl | hpos
  · rw [skip_zero]
  have hidx : r.buffer.findIdx? isStartByte =
      ((r.skip n).buffer.findIdx? isStartByte).map (· + n) := by
    conv => lhs; rw [← List.take_append_drop n r.buffer]
    rw [List.findIdx?_append, List.findIdx?_eq_none_iff.2 h, Option.none_or, buffer_skip,
      List.length_take, Nat.min_eq_left hn]
  rcases hrest : (r.skip n).buffer.findIdx? isStartByte with _ | k
  · rw [hrest, Option.map_none] at hidx
    rw [next_of_rest (advance_of_none hidx), next_of_rest (advance_of_none hrest), skip_skip,
      buffer_skip, List.length_drop, Nat.add_sub_cancel' hn]
  · rw [hrest, Option.map_some] at hidx
    rw [next_of_skip (advance_of_pos (Nat.add_pos_right k hpos) hidx)]
    rcases Nat.eq_zero_or_pos k with rfl | hk
    · rw [Nat.zero_add]
    · rw [next_of_skip (advance_of_pos hk hrest), skip_skip, Nat.add_comm]

/-- A move of an open receiver is a move of the receiver of the whole stream, but that it may rest
where the latter goes on. -/
theorem advance_complete {r : Receiver} (ho : r.closed = false) (rest : List UInt8) :
    (∃ r', r'.closed = false ∧ r.advance = .rest r' ∧
      (r.complete rest).next = (r'.complete rest).next) ∨
    (∃ g r', r'.closed = false ∧ r.advance = .frame g r' ∧
      (r.complete rest).advance = .frame g (r'.complete rest)) ∨
    (∃ r', r'.closed = false ∧ r.advance = .skip r' ∧
      (r.complete rest).advance = .skip (r'.complete rest)) := by
  rcases hidx : r.buffer.findIdx? isStartByte with _ | n
  · refine .inl ⟨r.skip r.buffer.length, ho, advance_of_none hidx, ?_⟩
    rw [← skip_complete r _ rest (Nat.le_refl _)]
    refine next_skip (by simp) ?_
    rw [buffer_complete, List.take_left]
    exact List.findIdx?_eq_none_iff.1 hidx
  have hidx' : (r.complete rest).buffer.findIdx? isStartByte = some n := by
    rw [buffer_complete, List.findIdx?_append, hidx, Option.some_or]
  rcases Nat.eq_zero_or_pos n with rfl | hn
  · rw [advance_of_zero hidx, advance_of_zero hidx']
    rcases readFrame_complete ho (buffer_pos_of_findIdx? hidx) rest with h | h | h
    · exact .inl ⟨r, ho, h, rfl⟩
    · exact .inr (.inl h)
    · exact .inr (.inr h)
  · obtain ⟨hlt, -⟩ := List.findIdx?_eq_some_iff_getElem.1 hidx
    refine .inr (.inr ⟨r.skip n, ho, advance_of_pos hn hidx, ?_⟩)
    rw [advance_of_pos hn hidx', skip_complete r n rest (Nat.le_of_lt hlt)]

/-- The next answer of an open receiver is the next of the receiver of the whole stream, if it is a
frame. Else the whole stream goes on as before. -/
theorem next_complete {r : Receiver} (ho : r.closed = false) (rest : List UInt8) :
    (∃ r', r'.closed = false ∧ r.next = (none, r') ∧
      (r.complete rest).next = (r'.complete rest).next) ∨
    (∃ g r', r'.closed = false ∧ r.next = (some g, r') ∧
      (r.complete rest).next = (some g, r'.complete rest)) := by
  fun_induction next r with
  | case1 r r' hrest =>
    rcases advance_complete ho rest with ⟨s, hs, h, hnext⟩ | ⟨g, s, -, h, -⟩ | ⟨s, -, h, -⟩
    · rw [hrest] at h
      cases h
      exact .inl ⟨_, hs, rfl, hnext⟩
    · rw [hrest] at h; cases h
    · rw [hrest] at h; cases h
  | case2 r g r' hframe =>
    rcases advance_complete ho rest with ⟨s, -, h, -⟩ | ⟨g, s, hs, h, hnext⟩ | ⟨s, -, h, -⟩
    · rw [hframe] at h; cases h
    · rw [hframe] at h
      cases h
      exact .inr ⟨_, _, hs, rfl, next_of_frame hnext⟩
    · rw [hframe] at h; cases h
  | case3 r r' hskip ih =>
    rcases advance_complete ho rest with ⟨s, -, h, -⟩ | ⟨g, s, -, h, -⟩ | ⟨s, hs, h, hnext⟩
    · rw [hskip] at h; cases h
    · rw [hskip] at h; cases h
    · rw [hskip] at h
      cases h
      rw [next_of_skip hnext]
      exact ih hs

/-- What calls before the end of the stream return, together with what comes behind them when the
stream has ended, is what the whole stream gives. -/
theorem run_complete {r : Receiver} {calls : List Call} (ho : r.closed = false)
    (hopen : Call.close ∉ calls) :
    (r.complete (pushed calls)).drain =
      ((r.run calls).1 ++ (r.run calls).2.close.drain.1, (r.run calls).2.close.drain.2) := by
  induction calls generalizing r with
  | nil => simp [pushed, run, complete, push]
  | cons c calls ih =>
    have hopen' : Call.close ∉ calls := fun h => hopen (List.mem_cons_of_mem _ h)
    cases c with
    | close => exact absurd List.mem_cons_self hopen
    | push bytes =>
      rw [pushed, ← complete_push, ih (r := r.push bytes) ho hopen']
      rfl
    | next =>
      rw [pushed]
      rcases next_complete ho (pushed calls) with ⟨s, hs, hr, h⟩ | ⟨g, s, hs, hr, h⟩
      · rw [drain_eq_of_next h, ih hs hopen']
        simp [run, call, hr]
      · rw [drain_of_some h, ih hs hopen']
        simp [run, call, hr]

/-- A closed receiver that is drained holds no byte back. -/
theorem buffered_drain {r : Receiver} (hc : r.closed = true) : r.drain.2.buffered = 0 := by
  fun_induction drain r with
  | case1 r r' hnext =>
    rcases next_closed hc with ⟨-, h⟩ | ⟨n, f, used, -, -, -, h⟩
    · rw [hnext] at h
      cases h
      simp [buffered]
    · rw [hnext] at h; cases h
  | case2 r g r' hnext ih =>
    rcases next_closed hc with ⟨-, h⟩ | ⟨n, f, used, -, -, -, h⟩
    · rw [hnext] at h; cases h
    · rw [hnext] at h
      cases h
      exact ih hc

end Receiver

/-- The calls that push chunks one after the other, each followed by so many questions for the next
frame. -/
def chunkCalls (chunks : List (List UInt8 × Nat)) : List Call :=
  chunks.flatMap fun (bytes, questions) => .push bytes :: List.replicate questions .next

theorem close_notMem_chunkCalls (chunks : List (List UInt8 × Nat)) :
    Call.close ∉ chunkCalls chunks := by
  simp [chunkCalls]

theorem pushed_chunkCalls (chunks : List (List UInt8 × Nat)) :
    pushed (chunkCalls chunks) = chunks.flatMap (·.1) := by
  induction chunks with
  | nil => rfl
  | cons c chunks ih =>
    have hcons : chunkCalls (c :: chunks) =
        .push c.1 :: (List.replicate c.2 .next ++ chunkCalls chunks) := by
      simp [chunkCalls]
    rw [hcons, pushed, pushed_append, pushed_replicate_next, List.nil_append, ih,
      List.flatMap_cons]

/-- **Chunking independence.** However a stream is cut into chunks, and however often frames are
asked for in between, the frames returned before and behind the end of the stream are those of the
stream in one chunk, and so are the final counts. Nothing is held back. -/
theorem drain_chunks (table : FingerprintTable) (chunks : List (List UInt8 × Nat)) :
    let whole := (({ table } : Receiver).push (chunks.flatMap (·.1))).close.drain
    let early := ({ table } : Receiver).run (chunkCalls chunks)
    let late := early.2.close.drain
    early.1 ++ late.1 = whole.1 ∧ late.2.stats = whole.2.stats ∧ late.2.buffered = 0 := by
  intro whole early late
  have hwhole : whole = (early.1 ++ late.1, late.2) := by
    have h := Receiver.run_complete (r := { table }) rfl (close_notMem_chunkCalls chunks)
    rwa [pushed_chunkCalls] at h
  refine ⟨by rw [hwhole], by rw [hwhole], ?_⟩
  exact Receiver.buffered_drain rfl

end Telemetry
