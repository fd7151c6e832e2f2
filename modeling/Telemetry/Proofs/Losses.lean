import Telemetry.Capture.Summary
import Telemetry.Proofs.Statistics

/-!
# What a summary of a capture counts as lost

Every datagram of a capture is a stream of its own, with a receiver that has heard of no sender yet.
So a summary counts the sequence numbers that are missing within each datagram, and none of those
that are missing between one datagram and the next.

* `missedOf`: the numbers missing among frames, over all senders; `missedOf_append` takes frames
  apart, with the numbers missing at the seam.
* `lost_decodeStream`, `lost_addFrame_of_some`: what a datagram, and so a captured frame, adds to a
  summary.
* `lost_ofFrames`: what a summary counts; `missedOf_flatten`: how far this is from what is missing
  in the whole capture.
* `captured_lost_iff`: so it is right exactly if no sender's numbers have a gap between datagrams.
-/

namespace Telemetry

/-! ## Missing numbers of frames taken apart -/

/-- How many sequence numbers are missing among frames, summed over all senders. -/
def missedOf (frames : List ReadFrame) : Nat :=
  ∑ system : UInt8, ∑ component : UInt8, missed (sequencesOf ⟨system, component⟩ frames)

/-- How many numbers are missing between the last of some numbers and the first of others. -/
def seam (xs ys : List UInt8) : Nat :=
  xs.getLast?.elim 0 fun a => ys.head?.elim 0 (sequenceGap a)

/-- How many numbers are missing where frames meet others, summed over all senders. -/
def seamOf (frames more : List ReadFrame) : Nat :=
  ∑ system : UInt8, ∑ component : UInt8,
    seam (sequencesOf ⟨system, component⟩ frames) (sequencesOf ⟨system, component⟩ more)

theorem missed_append (xs ys : List UInt8) :
    missed (xs ++ ys) = missed xs + seam xs ys + missed ys := by
  induction xs with
  | nil => exact (Nat.zero_add _).symm
  | cons a xs ih =>
    cases xs with
    | nil =>
      cases ys with
      | nil => rfl
      | cons b ys =>
        show _ + missed (b :: ys) = 0 + sequenceGap a b + missed (b :: ys)
        rw [sequenceGap_eq, Nat.zero_add]
    | cons a' xs =>
      have hseam : seam (a :: a' :: xs) ys = seam (a' :: xs) ys := by
        rw [seam, List.getLast?_cons_cons, ← seam]
      rw [List.cons_append] at ih
      rw [List.cons_append, List.cons_append, missed, ih, missed, hseam]
      omega

theorem sequencesOf_append (sender : Sender) (frames more : List ReadFrame) :
    sequencesOf sender (frames ++ more) = sequencesOf sender frames ++ sequencesOf sender more := by
  rw [sequencesOf, List.filter_append, List.map_append]
  rfl

theorem missedOf_append (frames more : List ReadFrame) :
    missedOf (frames ++ more) = missedOf frames + seamOf frames more + missedOf more := by
  simp only [missedOf, seamOf, sequencesOf_append, missed_append, Finset.sum_add_distrib]

theorem missedOf_nil : missedOf [] = 0 :=
  Finset.sum_eq_zero fun _ _ => Finset.sum_eq_zero fun _ _ => rfl

theorem missedOf_concat (frames : List ReadFrame) (g : ReadFrame) :
    missedOf (frames ++ [g]) =
      missedOf frames + gapBefore frames g.frame.packet.sender g.frame.packet.sequence :=
  sum_missed_concat frames g

theorem missedOf_singleton (g : ReadFrame) : missedOf [g] = 0 := by
  refine (missedOf_concat [] g).trans ?_
  rw [missedOf_nil]
  rfl

theorem missedOf_pair (g g' : ReadFrame) :
    missedOf [g, g'] = gapBefore [g] g'.frame.packet.sender g'.frame.packet.sequence := by
  refine (missedOf_concat [g] g').trans ?_
  rw [missedOf_singleton, Nat.zero_add]

/-- Nothing is missing between two numbers exactly if the second is the next one, where 0 comes
behind 255. -/
theorem sequenceGap_eq_zero_iff {a b : UInt8} : sequenceGap a b = 0 ↔ b = a + 1 := by
  have ha := a.toNat_lt
  have hb := b.toNat_lt
  rw [sequenceGap_eq, ← UInt8.toNat_inj, UInt8.toNat_add, UInt8.toNat_one]
  omega

theorem seam_eq_zero_iff {xs ys : List UInt8} :
    seam xs ys = 0 ↔ ∀ a b, xs.getLast? = some a → ys.head? = some b → b = a + 1 := by
  unfold seam
  cases xs.getLast? with
  | none => simp
  | some a =>
    cases ys.head? with
    | none => simp
    | some b => simp [sequenceGap_eq_zero_iff]

theorem seamOf_eq_zero_iff {frames more : List ReadFrame} :
    seamOf frames more = 0 ↔ ∀ sender a b, (sequencesOf sender frames).getLast? = some a →
      (sequencesOf sender more).head? = some b → b = a + 1 := by
  simp only [seamOf, Finset.sum_eq_zero_iff, Finset.mem_univ, true_imp_iff, seam_eq_zero_iff]
  exact ⟨fun h sender => h sender.systemId sender.componentId,
    fun h system component => h ⟨system, component⟩⟩

/-! ## Frames in groups -/

/-- How many numbers are missing within groups of frames. -/
def missedWithin : List (List ReadFrame) → Nat
  | [] => 0
  | group :: groups => missedOf group + missedWithin groups

theorem missedWithin_append (groups more : List (List ReadFrame)) :
    missedWithin (groups ++ more) = missedWithin groups + missedWithin more := by
  induction groups with
  | nil => exact (Nat.zero_add _).symm
  | cons group groups ih => rw [List.cons_append, missedWithin, missedWithin, ih, Nat.add_assoc]

/-- How many numbers are missing between each of some groups and all the frames before it, of which
`before` come before the first group. -/
def missedBetween (before : List ReadFrame) : List (List ReadFrame) → Nat
  | [] => 0
  | group :: groups => seamOf before group + missedBetween (before ++ group) groups

/-- In each group, a sender's numbers go on where they ended in the groups before. -/
def Seamless (groups : List (List ReadFrame)) : Prop :=
  ∀ before group after, groups = before ++ group :: after →
    ∀ sender a b, (sequencesOf sender before.flatten).getLast? = some a →
      (sequencesOf sender group).head? = some b → b = a + 1

/-- What is missing is missing within a group or between two. -/
theorem missedOf_append_flatten (before : List ReadFrame) (groups : List (List ReadFrame)) :
    missedOf (before ++ groups.flatten) =
      missedOf before + missedWithin groups + missedBetween before groups := by
  induction groups generalizing before with
  | nil =>
    have hwithin : missedWithin [] = 0 := rfl
    have hbetween : missedBetween before [] = 0 := rfl
    rw [List.flatten_nil, List.append_nil]
    omega
  | cons group groups ih =>
    rw [List.flatten_cons, ← List.append_assoc, ih, missedOf_append, missedWithin, missedBetween]
    omega

theorem missedOf_flatten (groups : List (List ReadFrame)) :
    missedOf groups.flatten = missedWithin groups + missedBetween [] groups := by
  have h := missedOf_append_flatten [] groups
  rwa [List.nil_append, missedOf_nil, Nat.zero_add] at h

theorem missedBetween_eq_zero_iff {before : List ReadFrame} {groups : List (List ReadFrame)} :
    missedBetween before groups = 0 ↔ ∀ front group after, groups = front ++ group :: after →
      seamOf (before ++ front.flatten) group = 0 := by
  induction groups generalizing before with
  | nil => simp [missedBetween]
  | cons group groups ih =>
    rw [missedBetween, Nat.add_eq_zero_iff, ih]
    constructor
    · rintro ⟨hseam, hrest⟩ front g after h
      cases front with
      | nil =>
        cases h
        rwa [List.flatten_nil, List.append_nil]
      | cons first front =>
        cases h
        rw [List.flatten_cons, ← List.append_assoc]
        exact hrest front g after rfl
    · intro h
      refine ⟨?_, fun front g after hgroups => ?_⟩
      · simpa using h [] group groups rfl
      · subst hgroups
        have hcons := h (group :: front) g after rfl
        rwa [List.flatten_cons, ← List.append_assoc] at hcons

theorem seamless_iff {groups : List (List ReadFrame)} :
    Seamless groups ↔ missedBetween [] groups = 0 := by
  simp only [missedBetween_eq_zero_iff, List.nil_append, seamOf_eq_zero_iff]
  rfl

/-! ## Datagrams -/

/-- The frames that are found in a payload. -/
def DispatchTable.framesIn (table : DispatchTable) (payload : List UInt8) : List ReadFrame :=
  (({ table := table.fingerprints } : Receiver).push payload).close.drain.1

/-- The datagram of a captured frame, if it is looked into. -/
def CapturedFrame.datagram? (port : Option Nat) (f : CapturedFrame) : Option Datagram :=
  (Datagram.ofFrame? f.linkType f.bytes).filter (·.hasPort port)

/-- The frames that are found in a capture, datagram by datagram. -/
def DispatchTable.framesBy (table : DispatchTable) (port : Option Nat)
    (captured : List CapturedFrame) : List (List ReadFrame) :=
  (captured.filterMap (·.datagram? port)).map fun d => table.framesIn d.payload

theorem Tallied.drain {frames : List ReadFrame} {r : Receiver} (h : Tallied frames r) :
    Tallied (frames ++ r.drain.1) r.drain.2 := by
  fun_induction Receiver.drain r generalizing frames with
  | case1 r r' hnext =>
    have hcall := h.call .next
    rw [Receiver.call, hnext] at hcall
    exact hcall
  | case2 r g r' hnext ih =>
    have hcall := h.call .next
    rw [Receiver.call, hnext] at hcall
    have hrest := ih hcall
    rwa [Option.toList_some, List.append_assoc] at hrest

theorem lost_decodeStream (table : DispatchTable) (payload : List UInt8) :
    (table.decodeStream payload).stats.lost = missedOf (table.framesIn payload) :=
  ((Tallied.start table.fingerprints).push payload).close.drain.lost_eq

namespace CaptureSummary

variable (table : DispatchTable) (port : Option Nat) (s : CaptureSummary)

theorem stats_addMessage (m : StreamMessage) : (s.addMessage m).stats = s.stats := by
  unfold addMessage
  cases m.message <;> rfl

theorem stats_foldl {α : Type} {f : CaptureSummary → α → CaptureSummary}
    (h : ∀ s x, (f s x).stats = s.stats) (xs : List α) : (xs.foldl f s).stats = s.stats := by
  induction xs generalizing s with
  | nil => rfl
  | cons x xs ih => rw [List.foldl_cons, ih, h]

/-- Neither the messages nor the frames left out change the counts of the receivers. -/
theorem stats_addDatagram (content : StreamContent) :
    (s.addDatagram content).stats = s.stats.add content.stats := by
  have hremoved : ∀ (s : CaptureSummary) (r : RemovedFrame), (s.addRemoved r).stats = s.stats :=
    fun _ _ => rfl
  rw [addDatagram, stats_foldl _ hremoved, stats_foldl _ stats_addMessage]

section Frame

variable {table port s} {f : CapturedFrame}

theorem stats_addFrame_of_none (h : f.datagram? port = none) :
    (s.addFrame table port f).1.stats = s.stats := by
  rw [CapturedFrame.datagram?] at h
  rw [addFrame, h]

/-- A captured frame adds what is missing within its datagram. -/
theorem lost_addFrame_of_some {d : Datagram} (h : f.datagram? port = some d) :
    (s.addFrame table port f).1.stats.lost =
      s.stats.lost + missedOf (table.framesIn d.payload) := by
  rw [CapturedFrame.datagram?] at h
  rw [addFrame, h]
  show (addDatagram _ _).stats.lost = _
  rw [stats_addDatagram, ← lost_decodeStream]
  rfl

end Frame

theorem ofFrames_concat (captured : List CapturedFrame) (f : CapturedFrame) :
    (ofFrames table port (captured ++ [f])).1 =
      ((ofFrames table port captured).1.addFrame table port f).1 := by
  rw [ofFrames, List.foldl_append]
  rfl

/-- A summary counts what is missing within the datagrams. -/
theorem lost_ofFrames (captured : List CapturedFrame) :
    (ofFrames table port captured).1.stats.lost =
      missedWithin (table.framesBy port captured) := by
  induction captured using List.reverseRecOn with
  | nil => rfl
  | append_singleton captured f ih =>
    rw [ofFrames_concat, DispatchTable.framesBy, List.filterMap_append, List.map_append,
      missedWithin_append, ← DispatchTable.framesBy, ← ih]
    cases h : f.datagram? port with
    | none =>
      rw [stats_addFrame_of_none h, List.filterMap_cons_none h]
      rfl
    | some d =>
      rw [lost_addFrame_of_some h, List.filterMap_cons_some h, List.filterMap_nil, List.map_cons,
        List.map_nil, missedWithin, missedWithin, Nat.add_zero]

end CaptureSummary

/-! ## Captures with and without a gap between datagrams -/

/-- The bytes of a frame of an unknown message, without a payload. -/
def blankBytes (sequence : UInt8) : List UInt8 := [0xFE, 0, sequence, 1, 1, 99, 0, 0]

/-- Such frames one after the other, from a position on. -/
def blanksFrom (offset : Nat) : List UInt8 → List ReadFrame
  | [] => []
  | sequence :: rest => ⟨.blank sequence 1, offset, offset + 8⟩ :: blanksFrom (offset + 8) rest

/-- A captured IPv4 packet with a datagram. -/
def CapturedFrame.carrying (payload : List UInt8) : CapturedFrame where
  linkType := 101
  bytes := [0x45, 0] ++ ByteOrder.big.bytes 2 (28 + payload.length)
    ++ [0, 0, 0, 0, 64, 17, 0, 0, 10, 0, 0, 1, 10, 0, 0, 2, 0x38, 0xD6, 0x38, 0xD7]
    ++ ByteOrder.big.bytes 2 (8 + payload.length) ++ [0, 0] ++ payload

theorem drain_blanks (sequences : List UInt8) (offset : Nat) (stats : ReceiveStats)
    (heard : List (Sender × UInt8)) :
    (Receiver.mk {} (sequences.flatMap blankBytes) offset stats heard true).drain.1 =
      blanksFrom offset sequences := by
  induction sequences generalizing offset stats heard with
  | nil => rw [Receiver.drain_of_none (Receiver.next_of_rest rfl), blanksFrom]
  | cons sequence rest ih =>
    let r := Receiver.mk {} ((sequence :: rest).flatMap blankBytes) offset stats heard true
    let r' := (r.discard 8).account (.blank sequence 1)
    have hnext : r.next = (some ⟨.blank sequence 1, offset, offset + 8⟩, r') := by
      apply Receiver.next_of_frame
      -- The byte behind the frame confirms it, or there is none.
      cases rest with
      | nil => with_unfolding_all rfl
      | cons _ _ => with_unfolding_all rfl
    rw [Receiver.drain_of_some hnext, blanksFrom]
    exact congrArg _ (ih _ _ _)

theorem framesIn_blanks (sequences : List UInt8) :
    ({} : DispatchTable).framesIn (sequences.flatMap blankBytes) = blanksFrom 0 sequences :=
  drain_blanks sequences 0 {} []

/-- **A summary counts what is missing within datagrams.** What it has as lost is the number of
sequence numbers missing within each datagram, over all senders. The number for the whole capture is
greater by those missing between datagrams. So a summary has it exactly if the numbers of each
sender go on in each datagram where they ended in those before. -/
theorem captured_lost_iff (table : DispatchTable) (port : Option Nat)
    (captured : List CapturedFrame) :
    let groups := table.framesBy port captured
    let lost := (CaptureSummary.ofFrames table port captured).1.stats.lost
    lost = missedWithin groups ∧
    missedOf groups.flatten = lost + missedBetween [] groups ∧
    (lost = missedOf groups.flatten ↔ Seamless groups) := by
  intro groups lost
  have hlost : lost = missedWithin groups := CaptureSummary.lost_ofFrames table port captured
  have hmissed : missedOf groups.flatten = lost + missedBetween [] groups := by
    rw [hlost]
    exact missedOf_flatten groups
  refine ⟨hlost, hmissed, ?_⟩
  rw [seamless_iff, hmissed]
  omega

/-- Two datagrams with a frame each, where 1 to 4 are missing between them: none is counted. -/
theorem lost_between_datagrams :
    let captured : List CapturedFrame :=
      [.carrying ([0].flatMap blankBytes), .carrying ([5].flatMap blankBytes)]
    (CaptureSummary.ofFrames {} none captured).1.stats.lost = 0 ∧
      missedOf (({} : DispatchTable).framesBy none captured).flatten = 4 := by
  intro captured
  have hgroups : ({} : DispatchTable).framesBy none captured =
      [[⟨.blank 0 1, 0, 8⟩], [⟨.blank 5 1, 0, 8⟩]] :=
    congrArg₂ (fun a b => [a, b]) (framesIn_blanks [0]) (framesIn_blanks [5])
  constructor
  · rw [CaptureSummary.lost_ofFrames, hgroups, missedWithin, missedWithin, missedWithin,
      missedOf_singleton, missedOf_singleton]
  · rw [hgroups, List.flatten_cons, List.flatten_cons, List.flatten_nil, List.append_nil,
      List.singleton_append, missedOf_pair]
    rfl

/-- Two datagrams, the second with two frames, where 9 is missing between these. -/
theorem captured_lost_iff_joined :
    let captured : List CapturedFrame :=
      [.carrying ([7].flatMap blankBytes), .carrying ([8, 10].flatMap blankBytes)]
    let groups := ({} : DispatchTable).framesBy none captured
    Seamless groups ∧ missedOf groups.flatten = 1 ∧
      (CaptureSummary.ofFrames {} none captured).1.stats.lost = missedOf groups.flatten := by
  intro captured groups
  have hgroups : groups =
      [[⟨.blank 7 1, 0, 8⟩], [⟨.blank 8 1, 0, 8⟩, ⟨.blank 10 1, 8, 16⟩]] :=
    congrArg₂ (fun a b => [a, b]) (framesIn_blanks [7]) (framesIn_blanks [8, 10])
  have hwithin : missedWithin groups = 1 := by
    rw [hgroups, missedWithin, missedWithin, missedWithin, missedOf_singleton, missedOf_pair]
    rfl
  have hmissed : missedOf groups.flatten = 1 := by
    rw [hgroups]
    refine (missedOf_concat [⟨.blank 7 1, 0, 8⟩, ⟨.blank 8 1, 0, 8⟩] _).trans ?_
    rw [missedOf_pair]
    rfl
  have hseamless : Seamless groups := by
    have hflatten := missedOf_flatten groups
    exact seamless_iff.2 (by omega)
  exact ⟨hseamless, hmissed, (captured_lost_iff {} none captured).2.2.2 hseamless⟩

end Telemetry
