import Telemetry.Dispatch.Stream
import Telemetry.Proofs.Accounting
import Telemetry.Proofs.Decoding
import Telemetry.Proofs.Dispatch
import Telemetry.Proofs.Planning

/-!
# What becomes of the frames of a stream

Each frame that a receiver finds becomes a message of the stream, with or without decoded values, or
is removed. Which of these depends on two indexes of the dispatch table: the checksum is compared by
the fingerprints, the payload is decoded by the entries. Both have the same ids, whatever was put
into the table and whatever it refused.

* `DispatchTable.Sound`: what attempts to add entries keep.
* `Receiver.next_of_some`, `Receiver.drain_counts`: what a receiver counts for the frames it
  returns.
* `ReadFrame.isCut`: the frames that are removed.
* `decodeStream_classifies`: what becomes of each frame, and the counts.
-/

namespace Telemetry

/-! ## Tables -/

/-- An entry whose plan is one of a declared message. -/
def DispatchEntry.Planned (e : DispatchEntry) : Prop :=
  ∃ m sorted, m.Declared ∧ LayoutPlan.ofMessage m sorted = .ok e.plan

namespace DispatchTable

/-- What a table needs for decoding: indexes that say the same, and sound plans. -/
structure Sound (t : DispatchTable) : Prop where
  consistent : t.Consistent
  plan {id : Nat} {e : DispatchEntry} (h : t.get? id = some e) : e.plan.Sound

theorem sound_empty : ({} : DispatchTable).Sound where
  consistent := consistent_empty
  plan h := nomatch h

theorem Sound.offer {t : DispatchTable} {e : DispatchEntry} (ht : t.Sound) (he : e.Planned) :
    (t.offer e).Sound := by
  cases hinsert : (insert e).run t with
  | ok _ t' =>
    rw [offer_of_ok hinsert]
    obtain ⟨hid, hname, rfl⟩ := insert_eq_ok_iff.1 hinsert
    refine ⟨ht.consistent.extend hid hname, fun {id e'} hget => ?_⟩
    rw [get?_extend] at hget
    split at hget
    · cases hget
      obtain ⟨m, sorted, hm, hplan⟩ := he
      exact .of_declared hm hplan
    · exact ht.plan hget
  | error fault t' =>
    rw [offer_of_error hinsert]
    exact ht

/-- Whatever entries a table was offered, it is sound. -/
theorem Sound.offers {t : DispatchTable} {entries : List DispatchEntry} (ht : t.Sound)
    (h : ∀ e ∈ entries, e.Planned) : (entries.foldl DispatchTable.offer t).Sound := by
  induction entries generalizing t with
  | nil => exact ht
  | cons e entries ih =>
    refine ih (ht.offer (h e List.mem_cons_self)) fun e' he' => ?_
    exact h e' (List.mem_cons_of_mem e he')

end DispatchTable

/-! ## Frames and counts -/

theorem Packet.status_of_parse {bytes : List UInt8} {table : FingerprintTable} {f : ParsedFrame}
    {used : Nat} (h : parse bytes table = .ok (f, used)) :
    f.status = .unverified ↔ table.get? f.packet.messageId = none := by
  obtain ⟨version, rest, head, length, body, -, -, -, -, -, hstatus, hpacket⟩ := parse_eq_ok_iff.1 h
  have hid : f.packet.messageId = head.messageId := by rw [hpacket]
  rw [hid, ← verify_eq_unverified_iff, hstatus]
  simp

namespace Receiver

theorem next_of_some {r r' : Receiver} {g : ReadFrame} (h : r.next = (some g, r')) :
    r'.table = r.table ∧ (∃ bytes used, Packet.parse bytes r.table = .ok (g.frame, used)) ∧
      r'.stats.frames = r.stats.frames + 1 ∧
      r'.stats.unverified = r.stats.unverified + if g.frame.status = .unverified then 1 else 0 := by
  obtain ⟨n, -, hnext | ⟨f, used, hp, hnext⟩⟩ := next_cases r
  · rw [h] at hnext
    cases hnext
  · rw [h] at hnext
    cases hnext
    exact ⟨rfl, ⟨_, used, hp⟩, rfl, rfl⟩

theorem next_of_none {r r' : Receiver} (h : r.next = (none, r')) :
    r'.stats.frames = r.stats.frames ∧ r'.stats.unverified = r.stats.unverified := by
  obtain ⟨n, -, hnext | ⟨f, used, hp, hnext⟩⟩ := next_cases r
  · rw [h] at hnext
    cases hnext
    exact ⟨rfl, rfl⟩
  · rw [h] at hnext
    cases hnext

/-- All frames that are returned were read by the receiver's table, and are counted. -/
theorem drain_counts (r : Receiver) :
    (∀ g ∈ r.drain.1, ∃ bytes used, Packet.parse bytes r.table = .ok (g.frame, used)) ∧
      r.drain.2.stats.frames = r.stats.frames + r.drain.1.length ∧
      r.drain.2.stats.unverified =
        r.stats.unverified + r.drain.1.countP (·.frame.status = .unverified) := by
  fun_induction drain r with
  | case1 r r' hnext =>
    obtain ⟨hframes, hunverified⟩ := next_of_none hnext
    exact ⟨by simp, hframes, hunverified⟩
  | case2 r g r' hnext ih =>
    obtain ⟨htable, hread, hframes, hunverified⟩ := next_of_some hnext
    obtain ⟨hreads, hframes', hunverified'⟩ := ih
    refine ⟨?_, ?_, ?_⟩
    · rw [htable] at hreads
      simpa using ⟨hread, hreads⟩
    · rw [hframes', hframes, List.length_cons]
      omega
    · rw [hunverified', hunverified, List.countP_cons]
      by_cases hstatus : g.frame.status = .unverified
      · simp [hstatus]
        omega
      · simp [hstatus]

end Receiver

/-! ## Classes of frames -/

/-- The frames that a receiver with the fingerprints of a table finds in a stream. -/
def DispatchTable.framesOf (t : DispatchTable) (bytes : List UInt8) : List ReadFrame :=
  (({ table := t.fingerprints } : Receiver).push bytes).close.drain.1

/-- The frame that a message of a stream came in. -/
def StreamMessage.frame (m : StreamMessage) : ReadFrame := ⟨⟨m.packet, m.status⟩, m.start, m.stop⟩

namespace ReadFrame

variable (f : ReadFrame) (t : DispatchTable)

/-- Whether a frame is a legacy frame of a known message, with the right checksum, that does not
hold all base fields. -/
def isCut : Bool :=
  f.frame.status = .valid && f.frame.packet.version = .legacy &&
    (t.get? f.frame.packet.messageId).any fun e => f.frame.packet.payload.length < e.plan.baseLength

variable {f t}

/-- A frame is removed if it is cut, and else becomes a message, without values if its id is not
known. -/
theorem decode_cases (ht : t.Sound)
    (hstatus : f.frame.status = .unverified ↔ t.get? f.frame.packet.messageId = none) :
    (f.isCut t = true ∧ ∃ reason,
      f.decode t = .error ⟨f.frame.packet.messageId, f.start, f.stop, reason⟩) ∨
    (f.isCut t = false ∧ ∃ message,
      f.decode t = .ok ⟨f.frame.packet, f.frame.status, message, f.start, f.stop⟩ ∧
      (message = none ↔ t.get? f.frame.packet.messageId = none)) := by
  cases hget : t.get? f.frame.packet.messageId with
  | none =>
    refine .inr ⟨by simp [isCut, hget], none, ?_, by simp⟩
    simp [ReadFrame.decode, DispatchTable.decode, hget]
  | some e =>
    have hvalid : f.frame.status = .valid := by
      cases hs : f.frame.status with
      | valid => rfl
      | unverified => rw [hstatus.1 hs] at hget; cases hget
    have hiff := Codec.exists_decode_iff (ht.plan hget) e.order f.frame.packet.payload
      f.frame.packet.version
    have hcut : f.isCut t = true ↔ ¬ (f.frame.packet.version = .extended ∨
        e.plan.baseLength ≤ f.frame.packet.payload.length) := by
      cases hv : f.frame.packet.version <;> simp [isCut, hvalid, hv, hget]
    cases hdecode : Codec.decode e.order e.plan f.frame.packet.payload f.frame.packet.version with
    | error reason =>
      refine .inl ⟨hcut.2 fun h => ?_, reason, ?_⟩
      · obtain ⟨values, hvalues⟩ := hiff.2 h
        rw [hdecode] at hvalues
        cases hvalues
      · simp [ReadFrame.decode, DispatchTable.decode, hget, hdecode, bind, Except.bind]
    | ok values =>
      refine .inr ⟨?_, some ⟨f.frame.packet.messageId, e.name, e.dialect, values⟩, ?_, by simp⟩
      · rw [← Bool.not_eq_true, hcut, not_not]
        exact hiff.1 ⟨values, hdecode⟩
      · simp only [ReadFrame.decode, DispatchTable.decode, hget, hdecode, bind, Except.bind, pure,
          Except.pure]

end ReadFrame

/-- What a message of a stream tells of its frame: it has no values exactly if its checksum was not
compared, which is so exactly if its id is not known. -/
def StreamMessage.Classified (m : StreamMessage) (t : DispatchTable) : Prop :=
  (m.status = .unverified ↔ m.message = none) ∧
    (m.message = none ↔ t.get? m.packet.messageId = none)

/-- Frames by what becomes of them. -/
theorem classify_frames {t : DispatchTable} (ht : t.Sound) {fs : List ReadFrame}
    (hstatus : ∀ f ∈ fs,
      (f.frame.status = .unverified ↔ t.get? f.frame.packet.messageId = none)) :
    (values (fs.map (·.decode t))).map (·.frame) = fs.filter (!·.isCut t) ∧
      (errors (fs.map (·.decode t))).map (fun r => (r.messageId, r.start, r.stop)) =
        (fs.filter (·.isCut t)).map (fun f => (f.frame.packet.messageId, f.start, f.stop)) ∧
      ∀ m ∈ values (fs.map (·.decode t)), m.Classified t := by
  induction fs with
  | nil => simp [values, errors]
  | cons f fs ih =>
    obtain ⟨hmessages, hremoved, hclassified⟩ :=
      ih fun f' hf' => hstatus f' (List.mem_cons_of_mem f hf')
    have hf := hstatus f List.mem_cons_self
    rcases f.decode_cases ht hf with ⟨hcut, reason, hdecode⟩ | ⟨hcut, message, hdecode, hnone⟩
    · have hvalues : values ((f :: fs).map (·.decode t)) = values (fs.map (·.decode t)) := by
        simp [values, hdecode, Except.toOption]
      have herrors : errors ((f :: fs).map (·.decode t)) =
          ⟨f.frame.packet.messageId, f.start, f.stop, reason⟩ :: errors (fs.map (·.decode t)) := by
        simp [errors, hdecode]
      rw [hvalues, herrors]
      refine ⟨?_, ?_, hclassified⟩
      · simp [hcut, hmessages]
      · simp [hcut, hremoved]
    · have hvalues : values ((f :: fs).map (·.decode t)) =
          ⟨f.frame.packet, f.frame.status, message, f.start, f.stop⟩ ::
            values (fs.map (·.decode t)) := by
        simp [values, hdecode, Except.toOption]
      have herrors : errors ((f :: fs).map (·.decode t)) = errors (fs.map (·.decode t)) := by
        simp [errors, hdecode]
      rw [hvalues, herrors]
      refine ⟨?_, ?_, ?_⟩
      · rw [List.map_cons, hmessages, List.filter_cons_of_pos (by simp [hcut])]
        rfl
      · simp [hcut, hremoved]
      · intro m hm
        rcases List.mem_cons.1 hm with rfl | hm
        · exact ⟨hf.trans hnone.symm, hnone⟩
        · exact hclassified m hm

/-- **Every frame is classified.** In a stream that is decoded by a table, whatever entries that was
offered before, the frames that a receiver finds are the messages and the removed frames, each in
its order. Removed are the legacy frames of known messages, with the right checksum, that are too
short for the base fields. A message has no values exactly if its checksum was not compared, exactly
if its id is not known; the receiver's counts are those of the frames and of these messages. -/
theorem decodeStream_classifies {entries : List DispatchEntry} (h : ∀ e ∈ entries, e.Planned)
    (bytes : List UInt8) :
    let table := entries.foldl DispatchTable.offer {}
    let content := table.decodeStream bytes
    content.messages.map (·.frame) = (table.framesOf bytes).filter (!·.isCut table) ∧
    content.removed.map (fun r => (r.messageId, r.start, r.stop)) =
      ((table.framesOf bytes).filter (·.isCut table)).map
        (fun f => (f.frame.packet.messageId, f.start, f.stop)) ∧
    content.messages.length + content.removed.length = content.stats.frames ∧
    (∀ m ∈ content.messages, (m.status = .unverified ↔ m.message = none) ∧
      (m.message = none ↔ table.get? m.packet.messageId = none)) ∧
    content.messages.countP (·.status = .unverified) = content.stats.unverified := by
  intro table content
  have ht : table.Sound := DispatchTable.sound_empty.offers h
  obtain ⟨hreads, hframes, hunverified⟩ :=
    Receiver.drain_counts (({ table := table.fingerprints } : Receiver).push bytes).close
  have hstatus : ∀ f ∈ table.framesOf bytes,
      (f.frame.status = .unverified ↔ table.get? f.frame.packet.messageId = none) := by
    intro f hf
    obtain ⟨source, used, hread⟩ := hreads f hf
    have hprint := ht.consistent.fingerprints f.frame.packet.messageId
    exact (Packet.status_of_parse hread).trans (by simp [Receiver.close, Receiver.push, hprint])
  obtain ⟨hmessages, hremoved, hclassified⟩ := classify_frames ht hstatus
  change content.messages.map _ = _ at hmessages
  change content.removed.map _ = _ at hremoved
  refine ⟨hmessages, hremoved, ?_, hclassified, ?_⟩
  · have hkept := congrArg List.length hmessages
    have hcut := congrArg List.length hremoved
    rw [List.length_map] at hkept
    rw [List.length_map, List.length_map] at hcut
    have htotal : content.stats.frames = (table.framesOf bytes).length :=
      hframes.trans (Nat.zero_add _)
    have hsplit := List.length_eq_length_filter_add (l := table.framesOf bytes) (·.isCut table)
    rw [hkept, hcut, htotal, hsplit, Nat.add_comm]
  · have htotal : content.stats.unverified =
        (table.framesOf bytes).countP (·.frame.status = .unverified) :=
      hunverified.trans (Nat.zero_add _)
    have hkept : content.messages.countP (·.status = .unverified) =
        (content.messages.map (·.frame)).countP (·.frame.status = .unverified) := by
      rw [List.countP_map]
      rfl
    rw [htotal, hkept, hmessages, List.countP_filter]
    refine List.countP_congr fun f _ => ?_
    cases hs : f.frame.status <;> simp [ReadFrame.isCut, hs]

/-- An entry for `Message.status`. -/
def DispatchEntry.status : DispatchEntry where
  dialect := "base"
  name := "STATUS"
  fingerprint := 99
  order := .little
  plan :=
    { id := 7, name := "STATUS"
      baseSteps :=
        [⟨"uptime", 1, .integer .u32, .scalar, 0⟩, ⟨"mode", 0, .integer .u8, .scalar, 4⟩]
      extensionSteps := [], baseLength := 5, fullLength := 5 }

/-- The entry is offered twice and refused once. Of two frames the first is cut, and the second has
an id that is not known. -/
theorem decodeStream_classifies_cut :
    let entries := [DispatchEntry.status, .status]
    let bytes := [0xFE, 1, 0, 0, 0, 7, 1, 26, 40] ++ [0xFE, 2, 0, 0, 0, 8, 1, 2, 204, 201]
    let content := (entries.foldl DispatchTable.offer {}).decodeStream bytes
    (∀ e ∈ entries, e.Planned) ∧
      content.removed.map (fun r => (r.messageId, r.start, r.stop)) = [(7, 0, 9)] ∧
      content.messages.map (·.frame) =
        [⟨⟨{ version := .legacy, messageId := 8, payload := [1, 2] }, .unverified⟩, 9, 19⟩] ∧
      content.messages.length + content.removed.length = content.stats.frames ∧
      content.messages.countP (·.status = .unverified) = content.stats.unverified := by
  intro entries bytes content
  have hplanned : ∀ e ∈ entries, e.Planned := by
    have hdeclared : Message.status.Declared := ⟨{}, by decide +kernel⟩
    have he : DispatchEntry.status.Planned := ⟨Message.status, true, hdeclared, rfl⟩
    simpa [entries] using he
  obtain ⟨hmessages, hremoved, hsum, -, hcount⟩ := decodeStream_classifies hplanned bytes
  have hframes : (entries.foldl DispatchTable.offer {}).framesOf bytes =
      [⟨⟨{ version := .legacy, messageId := 7, payload := [1] }, .valid⟩, 0, 9⟩,
       ⟨⟨{ version := .legacy, messageId := 8, payload := [1, 2] }, .unverified⟩, 9, 19⟩] := by
    rw [DispatchTable.framesOf, Receiver.drain_of_some (Receiver.next_of_frame rfl),
      Receiver.drain_of_some (Receiver.next_of_frame rfl),
      Receiver.drain_of_none (Receiver.next_of_rest rfl)]
    rfl
  rw [hframes] at hmessages hremoved
  exact ⟨hplanned, hremoved, hmessages, hsum, hcount⟩

end Telemetry
