import Telemetry.Proofs.Accounting
import Telemetry.Proofs.Delivery
import Telemetry.Proofs.Prefixes

/-!
# What a receiver holds back

While its stream is open, a receiver may have to wait. It then holds back what can still become a
frame and nothing else, so that however much was pushed, little is kept, and a frame is returned as
soon as its last byte is there.

* `Receiver.nextWithin`: the search for the next frame with a bound on its moves; by
  `Receiver.nextWithin_eq` the number of bytes at hand bounds them.
* `Withheld`: the bytes that an open receiver waits with. `Receiver.withheld_of_next` and
  `Receiver.next_of_withheld` say that it waits with these and no others.
* `Withheld.length_le`: how many they are.
* `Receiver.next_push_take`: a frame at the front is waited for until its last byte is there.
* `open_run_waits`: all of this of every run.
-/

namespace Telemetry

/-- The bytes that a receiver of an open stream waits with. -/
inductive Withheld (table : FingerprintTable) : List UInt8 → Prop where
  | nothing : Withheld table []
  /-- The start of a frame, on which more bytes decide. -/
  | part {bytes : List UInt8} {needed available : Nat}
    (h : Packet.parse bytes table = .error (.truncated needed available)) : Withheld table bytes
  /-- A whole frame whose checksum cannot be compared, so that the byte behind it decides. -/
  | frame {bytes : List UInt8} {f : ParsedFrame}
    (h : Packet.parse bytes table = .ok (f, bytes.length)) (hs : f.status = .unverified) :
    Withheld table bytes

theorem Packet.used_le_of_parse_eq_ok {bytes : List UInt8} {table : FingerprintTable}
    {f : ParsedFrame} {used : Nat} (h : Packet.parse bytes table = .ok (f, used)) : used ≤ 280 := by
  obtain ⟨_, _, _, _, _, -, hh, -, rfl, -⟩ := Packet.parse_eq_ok_iff.1 h
  obtain ⟨-, hlength, -⟩ := Packet.readHeader_eq_some hh
  exact Packet.announced_le hlength

/-- No more is held back than the longest frame has. -/
theorem Withheld.length_le {table : FingerprintTable} {bytes : List UInt8}
    (h : Withheld table bytes) : bytes.length ≤ 280 := by
  cases h with
  | nothing => exact Nat.zero_le _
  | part h =>
    obtain ⟨-, hawaits⟩ := Packet.parse_eq_truncated_iff.1 h
    exact Nat.le_of_lt (Nat.lt_of_lt_of_le hawaits.length_lt hawaits.needed_le)
  | frame h _ => exact Packet.used_le_of_parse_eq_ok h

-- A signed frame with the longest payload: the bound is reached.
example :
    (Packet.parse (0xFD :: 255 :: 1 :: List.replicate 277 0) {}).toOption.map
      (fun p => (p.1.status, p.2)) = some (.unverified, 280) := by
  decide +kernel

/-- Where a frame is read or begins, there is a start byte in front. -/
theorem findIdx?_eq_zero_of_parse {bytes : List UInt8} (hbytes : bytes ≠ [])
    (table : FingerprintTable) (h : ∀ b, Packet.parse bytes table ≠ .error (.badStart b)) :
    bytes.findIdx? isStartByte = some 0 := by
  obtain ⟨b, rest, rfl⟩ := List.exists_cons_of_ne_nil hbytes
  cases hb : isStartByte b with
  | true => simp [List.findIdx?_cons, hb]
  | false => exact absurd (parse_of_not_start hb) (h b)

namespace Receiver

/-! ## The end of the search -/

/-- The next answer of a receiver that makes at most `moves` moves for it. -/
def nextWithin (moves : Nat) (r : Receiver) : Option (Option ReadFrame × Receiver) :=
  match moves with
  | 0 => none
  | moves + 1 =>
    match r.advance with
    | .rest r' => some (none, r')
    | .frame f r' => some (some f, r')
    | .skip r' => r'.nextWithin moves

/-- **The search ends**: each move that does not answer takes a byte at least. -/
theorem nextWithin_eq {r : Receiver} {moves : Nat} (h : r.buffered < moves) :
    r.nextWithin moves = some r.next := by
  induction moves generalizing r with
  | zero => cases h
  | succ moves ih =>
    rw [nextWithin]
    cases hmove : r.advance with
    | rest r' => rw [next_of_rest hmove]
    | frame f r' => rw [next_of_frame hmove]
    | skip r' =>
      have hless : r'.buffered < r.buffered := advance_skip hmove
      rw [next_of_skip hmove]
      exact ih (by omega)

/-! ## Where it ends without a frame -/

theorem withheld_of_readFrame {r r' : Receiver} (h : r.readFrame = .rest r') :
    r' = r ∧ Withheld r.table r.buffer := by
  cases hp : Packet.parse r.buffer r.table with
  | error e =>
    cases e with
    | truncated needed available =>
      simp only [readFrame, hp] at h
      split at h
      · cases h
      · cases h
        exact ⟨rfl, .part hp⟩
    | _ => simp only [readFrame, hp, reduceCtorEq] at h
  | ok read =>
    obtain ⟨f, used⟩ := read
    rw [readFrame_of_ok hp] at h
    split at h
    · cases h
    rename_i hs
    unfold confirm at h
    split at h
    · split at h <;> cases h
    · rename_i hdrop
      split at h
      · cases h
      · cases h
        have hle := Packet.used_le_of_parse hp
        have hused : used = r.buffer.length :=
          Nat.le_antisymm hle (List.drop_eq_nil_iff.1 hdrop)
        refine ⟨rfl, .frame (hused ▸ hp) ?_⟩
        cases hstatus : f.status with
        | valid => exact absurd hstatus hs
        | unverified => rfl

theorem withheld_of_advance {r r' : Receiver} (h : r.advance = .rest r') :
    Withheld r.table r'.buffer := by
  rcases hidx : r.buffer.findIdx? isStartByte with _ | n
  · rw [advance_of_none hidx] at h
    cases h
    rw [buffer_skip, List.drop_length]
    exact .nothing
  rcases Nat.eq_zero_or_pos n with rfl | hn
  · rw [advance_of_zero hidx] at h
    obtain ⟨rfl, hwithheld⟩ := withheld_of_readFrame h
    exact hwithheld
  · rw [advance_of_pos hn hidx] at h
    cases h

/-- A receiver that has no frame to return waits with bytes that can still become one. -/
theorem withheld_of_next {r r' : Receiver} (h : r.next = (none, r')) :
    Withheld r.table r'.buffer := by
  fun_induction next r with
  | case1 r s hrest =>
    cases h
    exact withheld_of_advance hrest
  | case2 r g s hframe => cases h
  | case3 r s hskip ih =>
    have hpermits := permits_advance r
    rw [hskip] at hpermits
    obtain ⟨n, -, rfl⟩ := hpermits
    exact ih h

/-- With such bytes a receiver of an open stream does wait, and changes nothing. -/
theorem next_of_withheld {r : Receiver} (ho : r.closed = false) (h : Withheld r.table r.buffer) :
    r.next = (none, r) := by
  have hempty (hb : r.buffer = []) : r.next = (none, r) := by
    rw [next_of_rest (advance_of_none (by rw [hb]; rfl)), hb]
    rfl
  generalize hbytes : r.buffer = bytes at h
  cases h with
  | nothing => exact hempty hbytes
  | part hp =>
    by_cases hb : r.buffer = []
    · exact hempty hb
    subst hbytes
    have hidx := findIdx?_eq_zero_of_parse hb r.table (by simp [hp])
    exact next_of_rest ((advance_of_zero hidx).trans (readFrame_of_truncated ho hp))
  | frame hp hs =>
    subst hbytes
    have hpos := Packet.parse_used_pos hp
    have hidx := findIdx?_eq_zero_of_parse (List.ne_nil_of_length_pos hpos) r.table
      (by simp [hp])
    refine next_of_rest ((advance_of_zero hidx).trans ?_)
    rw [readFrame_of_ok hp, hs, if_neg (by decide), confirm, List.drop_length]
    simp [ho]

/-! ## A frame at the front -/

/-- A frame without its last bytes is waited for. -/
theorem next_push_take {r : Receiver} (ho : r.closed = false) {bytes : List UInt8} {f : ParsedFrame}
    {used k : Nat} (hp : Packet.parse (r.buffer ++ bytes) r.table = .ok (f, used))
    (hk : r.buffered + k < used) :
    (r.push (bytes.take k)).next = (none, r.push (bytes.take k)) := by
  obtain ⟨needed, ht, -⟩ := Packet.parse_take_eq_truncated hp hk
  rw [buffered, List.take_length_add_append] at ht
  exact next_of_withheld ho (.part ht)

/-- A stream stays open until it is closed. -/
theorem open_run {r : Receiver} {calls : List Call} (ho : r.closed = false)
    (hopen : Call.close ∉ calls) : (r.run calls).2.closed = false := by
  induction calls generalizing r with
  | nil => exact ho
  | cons c calls ih =>
    have hopen' : Call.close ∉ calls := fun h => hopen (List.mem_cons_of_mem c h)
    cases c with
    | push bytes => exact ih (r := r.push bytes) ho hopen'
    | close => exact absurd List.mem_cons_self hopen
    | next => exact ih ((closed_next r).trans ho) hopen'

end Receiver

/-- **Little is held back, and no frame for longer than it must be.** Take a receiver after any
pushes and questions for frames, with its stream still open. Its search for the next frame ends,
within one move more than it has bytes. If there is no frame, what it holds back is nothing, or the
start of a frame, or exactly one whole frame whose checksum cannot be compared, and never more than
280 bytes. When bytes then come that make a frame with a right checksum of what is held back, the
next answer is that frame; but as long as some of them are missing, the receiver waits and keeps
them all. -/
theorem open_run_waits (table : FingerprintTable) {calls : List Call}
    (hopen : Call.close ∉ calls) :
    let r := (({ table } : Receiver).run calls).2
    r.nextWithin (r.buffered + 1) = some r.next ∧
    ∀ r', r.next = (none, r') →
      (r'.buffer = [] ∨
        (∃ needed available,
          Packet.parse r'.buffer table = .error (.truncated needed available)) ∨
        ∃ f, Packet.parse r'.buffer table = .ok (f, r'.buffered) ∧ f.status = .unverified) ∧
      r'.buffered ≤ 280 ∧
      ∀ bytes f used, Packet.parse (r'.buffer ++ bytes) table = .ok (f, used) →
        f.status = .valid →
        (r'.push bytes).next = (some ⟨f, r'.offset, r'.offset + used⟩,
          ((r'.push bytes).discard used).account f) ∧
        ∀ k, r'.buffered + k < used →
          (r'.push (bytes.take k)).next = (none, r'.push (bytes.take k)) := by
  intro r
  refine ⟨Receiver.nextWithin_eq (Nat.lt_succ_self _), fun r' hnext => ?_⟩
  have haccounted := (Accounted.start table).run calls
  have htable : r.table = table := haccounted.table_eq
  have ho : r'.closed = false := by
    have hclosed := Receiver.closed_next r
    rw [hnext] at hclosed
    exact hclosed.trans (Receiver.open_run rfl hopen)
  have htable' : r'.table = table := by
    have h : r.next.2.table = table := (haccounted.call .next).table_eq
    rwa [hnext] at h
  have hwithheld : Withheld table r'.buffer := htable ▸ Receiver.withheld_of_next hnext
  refine ⟨?_, hwithheld.length_le, fun bytes f used hp hs => ⟨?_, fun k hk => ?_⟩⟩
  · generalize hbytes : r'.buffer = bytes at hwithheld
    cases hwithheld with
    | nothing => exact .inl rfl
    | part h => exact .inr (.inl ⟨_, _, h⟩)
    | frame h hs => exact .inr (.inr ⟨_, by rw [Receiver.buffered, hbytes]; exact h, hs⟩)
  · exact Receiver.next_of_valid (r := r'.push bytes) (htable' ▸ hp) hs
  · exact Receiver.next_push_take ho (htable' ▸ hp) hk

/-- Noise, a false start with unknown flags, and within it a frame that is cut. What is missing
comes in two pieces. -/
theorem open_run_waits_cut :
    let calls : List Call := [.push [7, 0xFD, 0xFE, 9, 7, 1, 2, 0, 4, 0, 0]]
    let start : List UInt8 := [0xFE, 9, 7, 1, 2, 0, 4, 0, 0]
    let missing : List UInt8 := [0, 2, 3, 81, 4, 3, 136, 154]
    Call.close ∉ calls ∧
      ∃ r' f, (({ table := .sample } : Receiver).run calls).2.next = (none, r') ∧
        r'.buffer = start ∧ r'.buffered ≤ 280 ∧
        Packet.parse (start ++ missing) .sample = .ok (f, 17) ∧ f.status = .valid ∧
        (r'.push (missing.take 7)).next = (none, r'.push (missing.take 7)) ∧
        (r'.push missing).next.1 = some ⟨f, 2, 19⟩ := by
  intro calls start missing
  let r := (({ table := .sample } : Receiver).run calls).2
  have hopen : Call.close ∉ calls := by decide
  have hnext : r.next = (none, ((r.skip 1).skip 1)) := by
    rw [Receiver.next_of_skip rfl, Receiver.next_of_skip rfl]
    exact Receiver.next_of_rest rfl
  let f : ParsedFrame :=
    ⟨{ version := .legacy, sequence := 7, systemId := 1, componentId := 2, messageId := 0,
       payload := [4, 0, 0, 0, 2, 3, 81, 4, 3] }, .valid⟩
  have hread : Packet.parse [0xFE, 9, 7, 1, 2, 0, 4, 0, 0, 0, 2, 3, 81, 4, 3, 136, 154] .sample =
      .ok (f, 17) := rfl
  obtain ⟨-, hrest⟩ := open_run_waits .sample hopen
  obtain ⟨-, hle, hcome⟩ := hrest _ hnext
  obtain ⟨hframe, hwait⟩ := hcome missing f 17 hread rfl
  refine ⟨hopen, _, f, hnext, rfl, hle, hread, rfl, hwait 7 (by decide), ?_⟩
  rw [hframe]
  rfl

end Telemetry
