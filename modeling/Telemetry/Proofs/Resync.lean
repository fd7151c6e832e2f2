import Telemetry.Proofs.Receiver

/-!
# Finding the frames of a complete stream

A stream that has come to its end holds a frame wherever one can be read whose checksum is right,
or could not be compared but is followed by a start byte or the end of the stream. Frames may lie
within each other; a receiver returns those that it comes to first from the left.

* `Acceptable`: where a complete stream holds a frame.
* `GreedyChain`: the frames from the left, each next one behind the one before.
* `Receiver.next_closed`: what a closed receiver returns next, and what it passes over.
* `drain_greedy`: a closed receiver returns the greedy chain of its stream and counts the rest.
-/

namespace Telemetry

/-- Whether `bytes`, as a complete stream, holds a frame at position `i`. -/
def Acceptable (table : FingerprintTable) (bytes : List UInt8) (i : Nat) : Prop :=
  ∃ f used, Packet.parse (bytes.drop i) table = .ok (f, used) ∧
    (f.status = .valid ∨ i + used = bytes.length ∨
      ∃ b, bytes[i + used]? = some b ∧ (b = 0xFE ∨ b = 0xFD))

/-- Whether the frame at the start of `bytes` has a wrong checksum. -/
def failsChecksum (table : FingerprintTable) (bytes : List UInt8) : Bool :=
  match Packet.parse bytes table with
  | .error (.badChecksum ..) => true
  | _ => false

/-- The frames of a stream from position `pos` on, taken from the left: each starts at the least
acceptable position at or behind the end of the one before. -/
inductive GreedyChain (table : FingerprintTable) (bytes : List UInt8) :
    Nat → List ReadFrame → Prop where
  | done {pos : Nat} (none : ∀ i, pos ≤ i → ¬ Acceptable table bytes i) :
      GreedyChain table bytes pos []
  | frame {pos used : Nat} {g : ReadFrame} {gs : List ReadFrame} (behind : pos ≤ g.start)
      (least : ∀ i, pos ≤ i → i < g.start → ¬ Acceptable table bytes i)
      (holds : Acceptable table bytes g.start)
      (reads : Packet.parse (bytes.drop g.start) table = .ok (g.frame, used))
      (stops : g.stop = g.start + used) (rest : GreedyChain table bytes g.stop gs) :
      GreedyChain table bytes pos (g :: gs)

/-- Whether position `i` belongs to one of the frames. -/
def covered (frames : List ReadFrame) (i : Nat) : Bool :=
  frames.any fun g => g.start ≤ i && i < g.stop

/-! ## Acceptable positions -/

theorem parse_of_not_start {table : FingerprintTable} {b : UInt8} {rest : List UInt8}
    (h : isStartByte b = false) : Packet.parse (b :: rest) table = .error (.badStart b) := by
  have hv : FrameVersion.ofStartByte? b = none := by
    simpa [isStartByte] using h
  simp only [Packet.parse, hv]

theorem Acceptable.lt_length {table : FingerprintTable} {bytes : List UInt8} {i : Nat}
    (h : Acceptable table bytes i) : i < bytes.length := by
  obtain ⟨f, used, hp, -⟩ := h
  have hpos := Packet.parse_used_pos hp
  have hle := Packet.used_le_of_parse hp
  rw [List.length_drop] at hle
  omega

/-- A stream without its first bytes holds the frames that it held behind them. -/
theorem acceptable_drop {table : FingerprintTable} {bytes : List UInt8} {n i : Nat} :
    Acceptable table (bytes.drop n) i ↔ Acceptable table bytes (n + i) := by
  unfold Acceptable
  refine exists_congr fun f => exists_congr fun used => ?_
  rw [List.drop_drop]
  refine and_congr_right fun hp => ?_
  have hle := Packet.used_le_of_parse hp
  have hpos := Packet.parse_used_pos hp
  rw [List.length_drop] at hle
  have hend : i + used = (bytes.drop n).length ↔ n + i + used = bytes.length := by
    rw [List.length_drop]; omega
  rw [hend, List.getElem?_drop, Nat.add_assoc]

theorem not_acceptable_add {table : FingerprintTable} {bytes : List UInt8} {m n i : Nat}
    (hm : ∀ i, i < m → ¬ Acceptable table bytes i)
    (hn : ∀ i, i < n → ¬ Acceptable table (bytes.drop m) i) (hi : i < m + n) :
    ¬ Acceptable table bytes i := by
  intro ha
  rcases Nat.lt_or_ge i m with h | h
  · exact hm i h ha
  · refine hn (i - m) (by omega) (acceptable_drop.2 ?_)
    rwa [Nat.add_sub_cancel' h]

/-- The frame at the front of a stream is held if and only if a closed receiver accepts it. -/
theorem acceptable_zero_iff {table : FingerprintTable} {bytes : List UInt8} {f : ParsedFrame}
    {used : Nat} (hp : Packet.parse bytes table = .ok (f, used)) :
    Acceptable table bytes 0 ↔
      f.status = .valid ∨ ∀ b, (bytes.drop used).head? = some b → isStartByte b := by
  have hle := Packet.used_le_of_parse hp
  have hhead : (bytes.drop used).head? = bytes[used]? := by
    rw [List.head?_drop]
  constructor
  · rintro ⟨f', used', hp', h⟩
    rw [List.drop_zero, hp] at hp'
    cases hp'
    rcases h with h | h | ⟨b, hb, h⟩
    · exact .inl h
    · refine .inr fun b hb => ?_
      rw [hhead, List.getElem?_eq_none (by omega)] at hb
      cases hb
    · refine .inr fun c hc => ?_
      rw [hhead, ← Nat.zero_add used, hb] at hc
      cases hc
      exact isStartByte_iff.2 h
  · intro h
    refine ⟨f, used, hp, h.imp_right fun h => ?_⟩
    rw [Nat.zero_add]
    rcases Nat.lt_or_eq_of_le hle with hlt | heq
    · refine .inr ⟨bytes[used], List.getElem?_eq_getElem hlt, isStartByte_iff.1 (h _ ?_)⟩
      rw [hhead, List.getElem?_eq_getElem hlt]
    · exact .inl heq

theorem not_acceptable_zero_of_error {table : FingerprintTable} {bytes : List UInt8}
    {e : FrameError} (hp : Packet.parse bytes table = .error e) : ¬ Acceptable table bytes 0 := by
  rintro ⟨f, used, hp', -⟩
  rw [List.drop_zero, hp] at hp'
  cases hp'

/-! ## What a closed receiver passes over -/

/-- How many of the first `n` positions have a frame with a wrong checksum. -/
def failures (table : FingerprintTable) (bytes : List UInt8) (n : Nat) : Nat :=
  (List.range n).countP fun i => failsChecksum table (bytes.drop i)

theorem failures_add (table : FingerprintTable) (bytes : List UInt8) (m n : Nat) :
    failures table bytes (m + n) = failures table bytes m + failures table (bytes.drop m) n := by
  simp only [failures, List.range_add, List.countP_append, List.countP_map, Function.comp_def,
    List.drop_drop]

theorem failures_of_not_start {table : FingerprintTable} {bytes : List UInt8} {n : Nat}
    (h : ∀ b ∈ bytes.take n, isStartByte b = false) : failures table bytes n = 0 := by
  refine List.countP_eq_zero.2 fun i hi => ?_
  rw [List.mem_range] at hi
  cases hb : bytes.drop i with
  | nil => simp [failsChecksum, Packet.parse]
  | cons b rest =>
    have hmem : b ∈ bytes.take n := by
      have hi' : bytes[i]? = some b := by rw [← List.head?_drop, hb]; rfl
      exact List.mem_of_getElem? ((List.getElem?_take_of_lt hi).trans hi')
    simp [failsChecksum, parse_of_not_start (h b hmem)]

theorem not_acceptable_of_not_start {table : FingerprintTable} {bytes : List UInt8} {n i : Nat}
    (h : ∀ b ∈ bytes.take n, isStartByte b = false) (hi : i < n) : ¬ Acceptable table bytes i := by
  intro ha
  have hlt := ha.lt_length
  rw [← Nat.add_zero i, ← acceptable_drop, List.drop_eq_getElem_cons hlt] at ha
  have hmem : bytes[i] ∈ bytes.take n :=
    List.mem_of_getElem? ((List.getElem?_take_of_lt hi).trans (List.getElem?_eq_getElem hlt))
  exact not_acceptable_zero_of_error (parse_of_not_start (h _ hmem)) ha

namespace Receiver

/-- The receiver after it has skipped its first `n` bytes as holding no frame, with the frames of
wrong checksums among them counted. -/
def pass (r : Receiver) (n : Nat) : Receiver :=
  { r.skip n with
    stats := { (r.skip n).stats with
      badChecksum := r.stats.badChecksum + failures r.table r.buffer n } }

section Fields

variable (r : Receiver) (n : Nat)

@[simp] theorem buffer_pass : (r.pass n).buffer = r.buffer.drop n := rfl
@[simp] theorem offset_pass : (r.pass n).offset = r.offset + n := rfl

theorem pass_pass (m : Nat) : (r.pass m).pass n = r.pass (m + n) := by
  simp [pass, skip, discard, failures_add, List.drop_drop, Nat.add_assoc]

theorem pass_eq_skip (h : failures r.table r.buffer n = 0) : r.pass n = r.skip n := by
  simp [pass, skip, discard, h]

theorem pass_eq_reject {e : FrameError} (hp : Packet.parse r.buffer r.table = .error e) :
    r.pass 1 = r.reject e := by
  cases e <;> simp [pass, reject, skip, discard, failures, failsChecksum, hp]

end Fields

/-- A closed receiver looks at a frame that it has read as the stream does. -/
theorem readFrame_closed {r : Receiver} {f : ParsedFrame} {used : Nat} (hc : r.closed = true)
    (hp : Packet.parse r.buffer r.table = .ok (f, used)) :
    (Acceptable r.table r.buffer 0 ∧ r.readFrame = r.accept f used) ∨
      (¬ Acceptable r.table r.buffer 0 ∧ r.readFrame = .skip (r.pass 1)) := by
  have hfail : failures r.table r.buffer 1 = 0 := by simp [failures, failsChecksum, hp]
  rw [readFrame_of_ok hp, acceptable_zero_iff hp, pass_eq_skip r 1 hfail]
  by_cases hs : f.status = .valid
  · rw [if_pos hs]
    exact .inl ⟨.inl hs, rfl⟩
  · rw [if_neg hs, confirm]
    cases hb : r.buffer.drop used with
    | nil =>
      refine .inl ⟨.inr fun b h => ?_, by simp [hc]⟩
      cases h
    | cons b rest =>
      by_cases hstart : isStartByte b
      · refine .inl ⟨.inr fun c h => ?_, by simp [hstart]⟩
        cases h
        exact hstart
      · refine .inr ⟨?_, by simp [hstart]⟩
        rintro (h | h)
        · exact hs h
        · exact hstart (h b rfl)

/-- One move of a closed receiver: it passes over positions that hold no frame, or over all that
are left, or returns the frame at its front. -/
theorem advance_closed {r : Receiver} (hc : r.closed = true) :
    (∃ n, n ≤ r.buffer.length ∧ (∀ i, i < n → ¬ Acceptable r.table r.buffer i) ∧
      r.advance = .skip (r.pass n)) ∨
    ((∀ i, ¬ Acceptable r.table r.buffer i) ∧ r.advance = .rest (r.pass r.buffer.length)) ∨
    (∃ f used, Packet.parse r.buffer r.table = .ok (f, used) ∧ Acceptable r.table r.buffer 0 ∧
      r.advance = r.accept f used) := by
  rcases hidx : r.buffer.findIdx? isStartByte with _ | n
  · -- No byte starts a frame.
    have hno : ∀ b ∈ r.buffer.take r.buffer.length, isStartByte b = false := by
      rw [List.take_length]
      exact List.findIdx?_eq_none_iff.1 hidx
    refine .inr (.inl ⟨fun i ha => ?_, ?_⟩)
    · exact not_acceptable_of_not_start hno ha.lt_length ha
    · rw [advance_of_none hidx, pass_eq_skip _ _ (failures_of_not_start hno)]
  have hlen := buffer_pos_of_findIdx? hidx
  rcases Nat.eq_zero_or_pos n with rfl | hn
  · -- The first byte does: whether it holds a frame is seen from its own bytes and the next one.
    rw [advance_of_zero hidx]
    cases hp : Packet.parse r.buffer r.table with
    | error e =>
      refine .inl ⟨1, hlen, fun i hi => ?_, ?_⟩
      · obtain rfl : i = 0 := by omega
        exact not_acceptable_zero_of_error hp
      · rw [readFrame_of_error hc hp, pass_eq_reject r hp]
    | ok read =>
      obtain ⟨f, used⟩ := read
      rcases readFrame_closed hc hp with ⟨ha, h⟩ | ⟨ha, h⟩
      · exact .inr (.inr ⟨f, used, rfl, ha, h⟩)
      · refine .inl ⟨1, hlen, fun i hi => ?_, h⟩
        obtain rfl : i = 0 := by omega
        exact ha
  · -- The bytes before the first start byte are passed over at once.
    obtain ⟨hlt, hno⟩ := not_start_of_findIdx? hidx
    refine .inl ⟨n, Nat.le_of_lt hlt, fun i hi => not_acceptable_of_not_start hno hi, ?_⟩
    rw [advance_of_pos hn hidx, pass_eq_skip _ _ (failures_of_not_start hno)]

/-- The next answer of a closed receiver: the frame at the least position that holds one, and what
lies before it passed over; or everything passed over. -/
theorem next_closed {r : Receiver} (hc : r.closed = true) :
    ((∀ i, ¬ Acceptable r.table r.buffer i) ∧ r.next = (none, r.pass r.buffer.length)) ∨
    (∃ n f used, (∀ i, i < n → ¬ Acceptable r.table r.buffer i) ∧
      Acceptable r.table r.buffer n ∧
      Packet.parse (r.buffer.drop n) r.table = .ok (f, used) ∧
      r.next = (some ⟨f, r.offset + n, r.offset + n + used⟩,
        ((r.pass n).discard used).account f)) := by
  -- Moves pass over positions until one of them ends the search, so by induction on the moves.
  fun_induction next r with
  | case1 r r' hrest =>
    rcases advance_closed hc with ⟨n, -, -, h⟩ | ⟨hno, h⟩ | ⟨f, used, -, -, h⟩
    · rw [h] at hrest; cases hrest
    · rw [h] at hrest; cases hrest
      exact .inl ⟨hno, rfl⟩
    · rw [h] at hrest; cases hrest
  | case2 r g r' hframe =>
    rcases advance_closed hc with ⟨n, -, -, h⟩ | ⟨hno, h⟩ | ⟨f, used, hp, ha, h⟩
    · rw [h] at hframe; cases hframe
    · rw [h] at hframe; cases hframe
    · rw [h] at hframe; cases hframe
      refine .inr ⟨0, f, used, fun i hi => absurd hi (Nat.not_lt_zero i), ha, hp, ?_⟩
      rw [pass_eq_skip r 0 rfl]
      rfl
  | case3 r r' hskip ih =>
    rcases advance_closed hc with ⟨n, hn, hno, h⟩ | ⟨hno, h⟩ | ⟨f, used, -, -, h⟩
    · rw [h] at hskip; cases hskip
      rcases ih hc with ⟨hrest, h⟩ | ⟨k, f, used, hk, ha, hp, h⟩
      · refine .inl ⟨fun i ha => ?_, ?_⟩
        · have hi : i < n + r.buffer.length := Nat.lt_of_lt_of_le ha.lt_length (Nat.le_add_left ..)
          exact not_acceptable_add hno (fun i _ => hrest i) hi ha
        · rw [h, pass_pass, buffer_pass, List.length_drop, Nat.add_sub_cancel' hn]
      · refine .inr ⟨n + k, f, used, fun i => not_acceptable_add hno hk, acceptable_drop.1 ha,
          by rw [← List.drop_drop]; exact hp, ?_⟩
        rw [h, pass_pass, offset_pass, Nat.add_assoc r.offset]
    · rw [h] at hskip; cases hskip
    · rw [h] at hskip; cases hskip

end Receiver

/-! ## Greedy chains -/

namespace GreedyChain

variable {table : FingerprintTable} {bytes : List UInt8} {pos : Nat} {gs gs' : List ReadFrame}

theorem le_start (h : GreedyChain table bytes pos gs) : ∀ g ∈ gs, pos ≤ g.start := by
  induction h with
  | done => simp
  | frame behind _ _ _ stops _ ih =>
    intro g hg
    rcases List.mem_cons.1 hg with rfl | hg
    · exact behind
    · have := ih g hg
      omega

/-- A stream has one greedy chain from each position. -/
theorem unique (h : GreedyChain table bytes pos gs) (h' : GreedyChain table bytes pos gs') :
    gs = gs' := by
  induction h generalizing gs' with
  | done none =>
    cases h' with
    | done => rfl
    | frame behind _ holds => exact absurd holds (none _ behind)
  | @frame pos used g gs behind least holds reads stops rest ih =>
    cases h' with
    | done none => exact absurd holds (none _ behind)
    | @frame _ used' g' gs' behind' least' holds' reads' stops' rest' =>
      have hstart : g.start = g'.start := by
        rcases Nat.lt_trichotomy g.start g'.start with hlt | heq | hlt
        · exact absurd holds (least' _ behind hlt)
        · exact heq
        · exact absurd holds' (least _ behind' hlt)
      rw [← hstart, reads] at reads'
      obtain ⟨hframe, rfl⟩ := Prod.mk.inj (Except.ok.inj reads')
      have hg : g = g' := by
        obtain ⟨f, start, stop⟩ := g
        obtain ⟨f', start', stop'⟩ := g'
        simp_all
      subst hg
      rw [ih rest']

/-- A position that holds a frame is the start of one of the chain or lies within one. -/
theorem mem_or_within (h : GreedyChain table bytes pos gs) {i : Nat} (hi : pos ≤ i)
    (ha : Acceptable table bytes i) :
    ∃ g ∈ gs, g.start = i ∨ (g.start < i ∧ i < g.stop) := by
  induction h with
  | done none => exact absurd ha (none i hi)
  | @frame pos used g gs behind least holds reads stops rest ih =>
    rcases Nat.lt_trichotomy i g.start with hlt | heq | hlt
    · exact absurd ha (least i hi hlt)
    · exact ⟨g, List.mem_cons_self, .inl heq.symm⟩
    · rcases Nat.lt_or_ge i g.stop with hstop | hstop
      · exact ⟨g, List.mem_cons_self, .inr ⟨hlt, hstop⟩⟩
      · obtain ⟨g', hg', h'⟩ := ih hstop
        exact ⟨g', List.mem_cons_of_mem _ hg', h'⟩

theorem reads_of_mem (h : GreedyChain table bytes pos gs) : ∀ g ∈ gs,
    ∃ used, Packet.parse (bytes.drop g.start) table = .ok (g.frame, used) ∧
      g.stop = g.start + used := by
  induction h with
  | done => simp
  | frame _ _ _ reads stops _ ih =>
    intro g hg
    rcases List.mem_cons.1 hg with rfl | hg
    · exact ⟨_, reads, stops⟩
    · exact ih g hg

end GreedyChain

/-- How many positions of a stream from `pos` on have a property and belong to no frame. -/
def uncovered (frames : List ReadFrame) (p : Nat → Bool) (pos length : Nat) : Nat :=
  (List.range' pos (length - pos)).countP fun i => !covered frames i && p i

theorem uncovered_nil (p : Nat → Bool) (pos length : Nat) :
    uncovered [] p pos length = (List.range' pos (length - pos)).countP p := by
  simp [uncovered, covered]

/-- The positions before the first frame of a chain are uncovered, those of the frame are not, and
behind it the rest of the chain decides. -/
theorem uncovered_cons {table : FingerprintTable} {bytes : List UInt8} {g : ReadFrame}
    {gs : List ReadFrame} {pos length : Nat} (hpos : pos ≤ g.start) (hstop : g.start ≤ g.stop)
    (hlen : g.stop ≤ length) (hrest : GreedyChain table bytes g.stop gs) (p : Nat → Bool) :
    uncovered (g :: gs) p pos length =
      (List.range' pos (g.start - pos)).countP p + uncovered gs p g.stop length := by
  have hsplit : List.range' pos (length - pos) = List.range' pos (g.start - pos) ++
      (List.range' g.start (g.stop - g.start) ++ List.range' g.stop (length - g.stop)) := by
    have h1 := List.range'_append_1 (s := g.start) (m := g.stop - g.start) (n := length - g.stop)
    have h2 := List.range'_append_1 (s := pos) (m := g.start - pos) (n := length - g.start)
    rw [show g.start + (g.stop - g.start) = g.stop by omega,
      show g.stop - g.start + (length - g.stop) = length - g.start by omega] at h1
    rw [show pos + (g.start - pos) = g.start by omega,
      show g.start - pos + (length - g.start) = length - pos by omega] at h2
    rw [h1, h2]
  have hbehind := hrest.le_start
  rw [uncovered, hsplit, List.countP_append, List.countP_append, uncovered]
  have hbefore : (List.range' pos (g.start - pos)).countP (fun i => !covered (g :: gs) i && p i) =
      (List.range' pos (g.start - pos)).countP p := by
    refine List.countP_congr fun i hi => ?_
    rw [List.mem_range'_1] at hi
    have hfree : covered (g :: gs) i = false := by
      refine List.any_eq_false.2 fun g' hg' => ?_
      rcases List.mem_cons.1 hg' with rfl | hg'
      · simp; omega
      · have := hbehind g' hg'
        simp; omega
    simp [hfree]
  have hwithin : (List.range' g.start (g.stop - g.start)).countP
      (fun i => !covered (g :: gs) i && p i) = 0 := by
    refine List.countP_eq_zero.2 fun i hi => ?_
    rw [List.mem_range'_1] at hi
    have hcov : covered (g :: gs) i = true :=
      List.any_eq_true.2 ⟨g, List.mem_cons_self, by simp; omega⟩
    simp [hcov]
  have hafter : (List.range' g.stop (length - g.stop)).countP
      (fun i => !covered (g :: gs) i && p i) =
      (List.range' g.stop (length - g.stop)).countP (fun i => !covered gs i && p i) := by
    refine List.countP_congr fun i hi => ?_
    rw [List.mem_range'_1] at hi
    have hg : (decide (g.start ≤ i) && decide (i < g.stop)) = false := by simp; omega
    simp [covered, hg]
  rw [hbefore, hwithin, hafter, Nat.zero_add]

/-- What the first `n` bytes of a receiver at position `pos` of a stream add to its counts. -/
theorem failures_eq_countP (table : FingerprintTable) (bytes : List UInt8) (pos n : Nat) :
    failures table (bytes.drop pos) n =
      (List.range' pos n).countP fun i => failsChecksum table (bytes.drop i) := by
  rw [failures, List.range'_eq_map_range, List.countP_map]
  simp only [List.drop_drop, Function.comp_def]

/-- A closed receiver that stands at position `r.offset` of a stream returns the greedy chain from
there on, and counts the positions that the chain leaves out. -/
theorem drain_chain (r : Receiver) (bytes : List UInt8) (hc : r.closed = true)
    (hle : r.offset ≤ bytes.length) (hb : r.buffer = bytes.drop r.offset) :
    GreedyChain r.table bytes r.offset r.drain.1 ∧
      r.drain.2.stats.skippedBytes = r.stats.skippedBytes +
        uncovered r.drain.1 (fun _ => true) r.offset bytes.length ∧
      r.drain.2.stats.badChecksum = r.stats.badChecksum +
        uncovered r.drain.1 (fun i => failsChecksum r.table (bytes.drop i)) r.offset
          bytes.length := by
  have hlen : ∀ {r : Receiver}, r.buffer = bytes.drop r.offset →
      r.buffer.length = bytes.length - r.offset := by
    intro r hb
    rw [hb, List.length_drop]
  -- By induction on the frames returned: each starts where the positions passed over end.
  fun_induction Receiver.drain r with
  | case1 r r' hnext =>
    rcases Receiver.next_closed hc with ⟨hno, h⟩ | ⟨n, f, used, -, -, -, h⟩
    · rw [hnext] at h
      cases h
      refine ⟨.done fun i hi ha => ?_, ?_, ?_⟩
      · refine hno (i - r.offset) ?_
        rwa [hb, acceptable_drop, Nat.add_sub_cancel' hi]
      · rw [uncovered_nil, List.countP_true, List.length_range', ← hlen hb]
        rfl
      · rw [uncovered_nil, ← failures_eq_countP, ← hb, ← hlen hb]
        rfl
    · rw [hnext] at h
      cases h
  | case2 r g r' hnext ih =>
    rcases Receiver.next_closed hc with ⟨hno, h⟩ | ⟨n, f, used, hno, ha, hp, h⟩
    · rw [hnext] at h
      cases h
    · rw [hnext] at h
      cases h
      have hused := Packet.used_le_of_parse hp
      rw [List.length_drop, hlen hb] at hused
      have hlt := ha.lt_length
      rw [hlen hb] at hlt
      rw [hb, acceptable_drop] at ha
      rw [hb, List.drop_drop] at hp
      have hstop : r.offset + n + used ≤ bytes.length := by omega
      obtain ⟨hchain, hskip, hbad⟩ := ih hc hstop (by simp [hb, List.drop_drop, Nat.add_assoc])
      have hleast : ∀ i, r.offset ≤ i → i < r.offset + n → ¬ Acceptable r.table bytes i := by
        intro i hi hi' hacc
        refine hno (i - r.offset) (by omega) ?_
        rwa [hb, acceptable_drop, Nat.add_sub_cancel' hi]
      have hcons := uncovered_cons (g := ⟨f, r.offset + n, r.offset + n + used⟩)
        (Nat.le_add_right r.offset n) (Nat.le_add_right ..) hstop hchain
      refine ⟨.frame (Nat.le_add_right ..) hleast ha hp rfl hchain, ?_, ?_⟩
      · rw [hcons, hskip, List.countP_true, List.length_range', Nat.add_sub_cancel_left,
          ← Nat.add_assoc]
        rfl
      · rw [hcons, hbad, Nat.add_sub_cancel_left, ← failures_eq_countP, ← hb, ← Nat.add_assoc]
        rfl

/-- **Exact resynchronisation.** A receiver that is given a stream, closed and drained returns the
greedy chain of the stream and nothing else. So a frame with a right checksum is returned, unless it
starts within a returned frame that starts before it. The bytes of no returned frame are counted as
skipped, and those of them at which a frame fails its checksum as such. -/
theorem drain_greedy (table : FingerprintTable) (bytes : List UInt8) :
    let result := (({ table } : Receiver).push bytes).close.drain
    (∀ frames, GreedyChain table bytes 0 frames ↔ frames = result.1) ∧
    (∀ i f used, Packet.parse (bytes.drop i) table = .ok (f, used) → f.status = .valid →
      ∃ g ∈ result.1, g = ⟨f, i, i + used⟩ ∨ (g.start < i ∧ i < g.stop)) ∧
    result.2.stats.skippedBytes =
      (List.range bytes.length).countP (fun i => !covered result.1 i) ∧
    result.2.stats.badChecksum =
      (List.range bytes.length).countP
        (fun i => !covered result.1 i && failsChecksum table (bytes.drop i)) := by
  intro result
  obtain ⟨hchain, hskip, hbad⟩ : GreedyChain table bytes 0 result.1 ∧
      result.2.stats.skippedBytes = 0 + uncovered result.1 (fun _ => true) 0 bytes.length ∧
      result.2.stats.badChecksum = 0 +
        uncovered result.1 (fun i => failsChecksum table (bytes.drop i)) 0 bytes.length :=
    drain_chain (({ table } : Receiver).push bytes).close bytes rfl (Nat.zero_le _) rfl
  refine ⟨fun frames => ⟨fun h => h.unique hchain, ?_⟩, ?_, ?_, ?_⟩
  · rintro rfl
    exact hchain
  · intro i f used hp hvalid
    obtain ⟨g, hg, h⟩ := hchain.mem_or_within (Nat.zero_le i) ⟨f, used, hp, .inl hvalid⟩
    refine ⟨g, hg, h.imp_left fun hstart => ?_⟩
    obtain ⟨used', hp', hstop⟩ := hchain.reads_of_mem g hg
    rw [hstart, hp] at hp'
    obtain ⟨hframe, rfl⟩ := Prod.mk.inj (Except.ok.inj hp')
    rw [hframe, ← hstart, ← hstop]
  · simpa [uncovered, List.range_eq_range'] using hskip
  · simpa [uncovered, List.range_eq_range'] using hbad

end Telemetry
