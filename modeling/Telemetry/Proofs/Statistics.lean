import Mathlib.Algebra.BigOperators.Group.Finset.Piecewise
import Mathlib.Data.FinEnum
import Telemetry.Proofs.Accounting

/-!
# What a receiver has counted

A receiver keeps its counts as it goes, and of the senders only the last sequence number of each.
After any calls the counts are those of the frames that were returned, taken sender by sender.

* `sequencesOf`, `missed`: the sequence numbers of a sender, and how many are missing among them.
* `sum_missed_concat`: what a further frame adds, over all senders.
* `Tallied`: what holds between the frames returned and the receiver. `Tallied.frame` is what one
  frame does, `Tallied.run` what a row of calls does.
* `run_counts`: so the counts are right after every run.
-/

namespace Telemetry

/-- The sequence numbers of a sender's frames, in order. -/
def sequencesOf (sender : Sender) (frames : List ReadFrame) : List UInt8 :=
  (frames.filter fun g => g.frame.packet.sender = sender).map fun g => g.frame.packet.sequence

/-- How many sequence numbers are missing between each number of a list and the next, where 0 comes
behind 255. -/
def missed : List UInt8 → Nat
  | a :: b :: rest => (((b.toNat : Int) - a.toNat - 1) % 256).toNat + missed (b :: rest)
  | _ => 0

/-! ## One frame more -/

/-- The count of a gap by bytes that wrap around is the one by integers modulo 256. -/
theorem sequenceGap_eq (a b : UInt8) :
    sequenceGap a b = (((b.toNat : Int) - a.toNat - 1) % 256).toNat := by
  have ha := a.toNat_lt
  have hb := b.toNat_lt
  rw [sequenceGap, UInt8.toNat_sub, UInt8.toNat_add, UInt8.toNat_one]
  omega

/-- A further number adds the gap behind the last one; the first adds nothing. -/
theorem missed_concat (xs : List UInt8) (b : UInt8) :
    missed (xs ++ [b]) = missed xs + xs.getLast?.elim 0 (sequenceGap · b) := by
  induction xs with
  | nil => rfl
  | cons a xs ih =>
    cases xs with
    | nil =>
      show (((b.toNat : Int) - a.toNat - 1) % 256).toNat + 0 = 0 + sequenceGap a b
      rw [sequenceGap_eq, Nat.add_comm]
    | cons a' xs =>
      rw [List.cons_append] at ih
      rw [List.cons_append, List.cons_append, missed, ih, missed, List.getLast?_cons_cons,
        Nat.add_assoc]

section Concat

variable (frames : List ReadFrame) (g : ReadFrame)

theorem sequencesOf_concat (sender : Sender) :
    sequencesOf sender (frames ++ [g]) = sequencesOf sender frames ++
      if g.frame.packet.sender = sender then [g.frame.packet.sequence] else [] := by
  unfold sequencesOf
  rw [List.filter_append, List.map_append, List.filter_cons, List.filter_nil]
  by_cases h : g.frame.packet.sender = sender
  · simp [h]
  · simp [h]

/-- What a further frame of `sender` adds to the numbers that are missing. -/
def gapBefore (sender : Sender) (sequence : UInt8) : Nat :=
  (sequencesOf sender frames).getLast?.elim 0 (sequenceGap · sequence)

theorem missed_sequencesOf_concat (sender : Sender) :
    missed (sequencesOf sender (frames ++ [g])) = missed (sequencesOf sender frames) +
      if g.frame.packet.sender = sender then
        gapBefore frames g.frame.packet.sender g.frame.packet.sequence
      else 0 := by
  rw [sequencesOf_concat]
  by_cases h : g.frame.packet.sender = sender
  · subst h
    rw [if_pos rfl, if_pos rfl]
    exact missed_concat _ _
  · rw [if_neg h, if_neg h, List.append_nil, Nat.add_zero]

/-- Over all senders, a further frame adds the gap to the last frame of its own sender. -/
theorem sum_missed_concat :
    ∑ system : UInt8, ∑ component : UInt8,
        missed (sequencesOf ⟨system, component⟩ (frames ++ [g])) =
      ∑ system : UInt8, ∑ component : UInt8, missed (sequencesOf ⟨system, component⟩ frames) +
        gapBefore frames g.frame.packet.sender g.frame.packet.sequence := by
  have hsender : ∀ system component : UInt8, g.frame.packet.sender = ⟨system, component⟩ ↔
      g.frame.packet.systemId = system ∧ g.frame.packet.componentId = component := by
    intro system component
    rw [Packet.sender, Sender.mk.injEq]
  simp only [missed_sequencesOf_concat, hsender, Finset.sum_add_distrib, ite_and]
  -- One sender of all adds the gap, and the others nothing.
  simp only [Finset.sum_ite_irrel, Finset.sum_ite_eq, Finset.mem_univ, if_true,
    Finset.sum_const_zero]

end Concat

/-! ## The counts of a receiver -/

/-- The counts of a receiver that has returned `frames`. -/
structure Tallied (frames : List ReadFrame) (r : Receiver) : Prop where
  frames_eq : r.stats.frames = frames.length
  unverified_eq : r.stats.unverified = frames.countP fun g => g.frame.status = .unverified
  lost_eq : r.stats.lost =
    ∑ system : UInt8, ∑ component : UInt8, missed (sequencesOf ⟨system, component⟩ frames)
  /-- What was heard of a sender last is the number of its last frame. -/
  heard_eq (sender : Sender) : r.heard.lookup sender = (sequencesOf sender frames).getLast?

namespace Receiver

section Account

variable (r : Receiver) (f : ParsedFrame)

theorem lost_account : (r.account f).stats.lost =
    r.stats.lost + (r.heard.lookup f.packet.sender).elim 0 (sequenceGap · f.packet.sequence) := by
  unfold account
  cases r.heard.lookup f.packet.sender <;> rfl

theorem lookup_heard_account (sender : Sender) : (r.account f).heard.lookup sender =
    if f.packet.sender = sender then some f.packet.sequence else r.heard.lookup sender := by
  show List.lookup sender ((f.packet.sender, f.packet.sequence) :: r.heard) = _
  by_cases h : f.packet.sender = sender
  · subst h
    rw [if_pos rfl, List.lookup_cons_self]
  · have hne : (sender == f.packet.sender) = false := beq_eq_false_iff_ne.2 (Ne.symm h)
    rw [if_neg h, List.lookup_cons, hne]

end Account

end Receiver

namespace Tallied

variable {frames : List ReadFrame} {r : Receiver}

theorem start (table : FingerprintTable) : Tallied [] { table } where
  frames_eq := rfl
  unverified_eq := rfl
  lost_eq := by
    show 0 = ∑ system : UInt8, ∑ component : UInt8, missed (sequencesOf ⟨system, component⟩ [])
    exact (Finset.sum_eq_zero fun _ _ => Finset.sum_eq_zero fun _ _ => rfl).symm
  heard_eq _ := rfl

/-- Whatever leaves the counts of frames alone. -/
theorem of_eq (h : Tallied frames r) {r' : Receiver} (hframes : r'.stats.frames = r.stats.frames)
    (hunverified : r'.stats.unverified = r.stats.unverified) (hlost : r'.stats.lost = r.stats.lost)
    (hheard : r'.heard = r.heard) : Tallied frames r' where
  frames_eq := hframes.trans h.frames_eq
  unverified_eq := hunverified.trans h.unverified_eq
  lost_eq := hlost.trans h.lost_eq
  heard_eq sender := by rw [hheard, h.heard_eq]

theorem push (h : Tallied frames r) (bytes : List UInt8) : Tallied frames (r.push bytes) :=
  h.of_eq rfl rfl rfl rfl

theorem close (h : Tallied frames r) : Tallied frames r.close := h.of_eq rfl rfl rfl rfl

/-- Bytes that are passed over do not count, be they skipped or rejected. -/
theorem pass (h : Tallied frames r) (n : Nat) : Tallied frames (r.pass n) := h.of_eq rfl rfl rfl rfl

theorem frame (h : Tallied frames r) (f : ParsedFrame) (used start stop : Nat) :
    Tallied (frames ++ [⟨f, start, stop⟩]) ((r.discard used).account f) where
  frames_eq := by
    show r.stats.frames + 1 = _
    rw [h.frames_eq, List.length_append, List.length_singleton]
  unverified_eq := by
    show r.stats.unverified + (if f.status = .unverified then 1 else 0) = _
    rw [h.unverified_eq, List.countP_append, List.countP_singleton]
    simp only [decide_eq_true_eq]
  lost_eq := by
    rw [Receiver.lost_account, sum_missed_concat, gapBefore, ← h.heard_eq, ← h.lost_eq]
    rfl
  heard_eq sender := by
    rw [Receiver.lookup_heard_account, sequencesOf_concat]
    by_cases hsender : f.packet.sender = sender
    · rw [if_pos hsender, if_pos hsender, List.getLast?_concat]
    · rw [if_neg hsender, if_neg hsender, List.append_nil]
      exact h.heard_eq sender

/-- What holds before a call, holds after it. -/
theorem call (h : Tallied frames r) (c : Call) :
    Tallied (frames ++ (r.call c).1.toList) (r.call c).2 := by
  cases c with
  | push bytes => simpa [Receiver.call] using h.push bytes
  | close => simpa [Receiver.call] using h.close
  | next =>
    simp only [Receiver.call]
    obtain ⟨n, -, hnext | ⟨f, used, -, hnext⟩⟩ := Receiver.next_cases r
    · rw [hnext]
      simpa using h.pass n
    · rw [hnext]
      exact (h.pass n).frame f used _ _

theorem run (h : Tallied frames r) (calls : List Call) :
    Tallied (frames ++ (r.run calls).1) (r.run calls).2 := by
  induction calls generalizing frames r with
  | nil => simpa [Receiver.run] using h
  | cons c calls ih =>
    have hrun := ih (h.call c)
    rw [List.append_assoc] at hrun
    exact hrun

end Tallied

theorem tallied_run (table : FingerprintTable) (calls : List Call) :
    Tallied (({ table } : Receiver).run calls).1 (({ table } : Receiver).run calls).2 :=
  (Tallied.start table).run calls

/-- **The counts are those of the frames returned.** After any calls in any order, a receiver has
counted each frame that it returned, and as unverified those whose checksum could not be compared.
What it has counted as lost is the sum over all systems and components of the sequence numbers that
are missing between a frame of that sender and its next one. So it depends on the numbers of each
sender alone: neither the order in which frames of different senders came, nor bytes that were
skipped or rejected, nor what the receiver knows of the messages can make a difference. -/
theorem run_counts (table : FingerprintTable) (calls : List Call) :
    let frames := (({ table } : Receiver).run calls).1
    let stats := (({ table } : Receiver).run calls).2.stats
    stats.frames = frames.length ∧
    stats.unverified = frames.countP (fun g => g.frame.status = .unverified) ∧
    stats.lost =
      ∑ system : UInt8, ∑ component : UInt8, missed (sequencesOf ⟨system, component⟩ frames) ∧
    ∀ (table' : FingerprintTable) (calls' : List Call),
      (∀ sender, sequencesOf sender (({ table := table' } : Receiver).run calls').1 =
        sequencesOf sender frames) →
      (({ table := table' } : Receiver).run calls').2.stats.lost = stats.lost := by
  intro frames stats
  have h : Tallied frames (({ table } : Receiver).run calls).2 := tallied_run table calls
  refine ⟨h.frames_eq, h.unverified_eq, h.lost_eq, fun table' calls' hsequences => ?_⟩
  show _ = (({ table } : Receiver).run calls).2.stats.lost
  rw [h.lost_eq, (tallied_run table' calls').lost_eq]
  simp only [hsequences]

/-- A frame of an unknown message, without a payload. -/
def ParsedFrame.blank (sequence systemId : UInt8) : ParsedFrame :=
  ⟨{ version := .legacy, sequence, systemId, componentId := 1, messageId := 99, payload := [] },
    .unverified⟩

/-- Two senders, one of which misses 255 and 0. Noise and another order of the frames change
nothing. -/
theorem run_counts_interleaved :
    let bytes (sequence system : UInt8) : List UInt8 := [0xFE, 0, sequence, system, 1, 99, 0, 0]
    let calls : List Call :=
      [.push ([7, 9] ++ bytes 254 1 ++ bytes 7 2 ++ bytes 1 1), .next, .next, .close, .next]
    let calls' : List Call :=
      [.push (bytes 7 2 ++ bytes 254 1), .next, .push (bytes 1 1 ++ [0xFD]), .next, .next]
    let run := ({ table := {} } : Receiver).run calls
    let run' := ({ table := {} } : Receiver).run calls'
    run.1.map (·.frame) = [.blank 254 1, .blank 7 2, .blank 1 1] ∧
      run'.1.map (·.frame) = [.blank 7 2, .blank 254 1, .blank 1 1] ∧
      (∀ sender, sequencesOf sender run'.1 = sequencesOf sender run.1) ∧
      run.2.stats.lost = 2 ∧ run'.2.stats.lost = run.2.stats.lost := by
  intro bytes calls calls' run run'
  let r₀ : Receiver := ({ table := {} } : Receiver).push
    ([7, 9] ++ bytes 254 1 ++ bytes 7 2 ++ bytes 1 1)
  let r₁ := ((r₀.skip 2).discard 8).account (.blank 254 1)
  let r₂ := (r₁.discard 8).account (.blank 7 2)
  have h₁ : r₀.next = (some ⟨.blank 254 1, 2, 10⟩, r₁) :=
    (Receiver.next_of_skip rfl).trans (Receiver.next_of_frame rfl)
  have h₂ : r₁.next = (some ⟨.blank 7 2, 10, 18⟩, r₂) := Receiver.next_of_frame rfl
  have h₃ : r₂.close.next =
      (some ⟨.blank 1 1, 18, 26⟩, (r₂.close.discard 8).account (.blank 1 1)) :=
    Receiver.next_of_frame rfl
  have hrun : run = ([⟨.blank 254 1, 2, 10⟩, ⟨.blank 7 2, 10, 18⟩, ⟨.blank 1 1, 18, 26⟩],
      (r₂.close.discard 8).account (.blank 1 1)) := by
    simp only [run, calls, Receiver.run, Receiver.call]
    rw [h₁, h₂, h₃]
    rfl
  let s₀ : Receiver := ({ table := {} } : Receiver).push (bytes 7 2 ++ bytes 254 1)
  let s₁ := ((s₀.discard 8).account (.blank 7 2)).push (bytes 1 1 ++ [0xFD])
  let s₂ := (s₁.discard 8).account (.blank 254 1)
  have k₁ : s₀.next = (some ⟨.blank 7 2, 0, 8⟩, (s₀.discard 8).account (.blank 7 2)) :=
    Receiver.next_of_frame rfl
  have k₂ : s₁.next = (some ⟨.blank 254 1, 8, 16⟩, s₂) := Receiver.next_of_frame rfl
  have k₃ : s₂.next = (some ⟨.blank 1 1, 16, 24⟩, (s₂.discard 8).account (.blank 1 1)) :=
    Receiver.next_of_frame rfl
  have hrun' : run' = ([⟨.blank 7 2, 0, 8⟩, ⟨.blank 254 1, 8, 16⟩, ⟨.blank 1 1, 16, 24⟩],
      (s₂.discard 8).account (.blank 1 1)) := by
    simp only [run', calls', Receiver.run, Receiver.call]
    rw [k₁, k₂, k₃]
    rfl
  have hsequences : ∀ sender, sequencesOf sender run'.1 = sequencesOf sender run.1 := by
    intro sender
    rw [hrun, hrun']
    by_cases h : (⟨1, 1⟩ : Sender) = sender
    · subst h
      rfl
    by_cases h' : (⟨2, 1⟩ : Sender) = sender
    · subst h'
      rfl
    · simp [sequencesOf, ParsedFrame.blank, Packet.sender, h, h']
  refine ⟨by rw [hrun]; rfl, by rw [hrun']; rfl, hsequences, by rw [hrun]; rfl, ?_⟩
  exact (run_counts {} calls).2.2.2 {} calls' hsequences

end Telemetry
