import Telemetry.Dispatch.Stream
import Telemetry.Proofs.Chunking
import Telemetry.Proofs.Dispatch
import Telemetry.Proofs.RoundTrip

/-!
# Delivery of messages

What a sender packs, routes and frames by a dispatch table, a receiver with the same table finds in
the stream again, whatever other bytes stand between the frames.

* `Item`: a message to be sent, and the packet and frame that it is sent as.
* `Item.Ready.sent`: an item that the table knows is sent without fault, and its packet is decoded
  to the values that it was packed from.
* `Receiver.drain_streamOf`: a receiver returns the frames of a stream, and skips what stands
  between them.
* `decodeStream_delivers`: every item of a stream is delivered, once and in order.
-/

namespace Telemetry

/-- A message to be sent. -/
structure Item where
  /-- The name of the message. -/
  name : String
  values : FieldValues
  version : FrameVersion
  sequence : UInt8
  systemId : UInt8
  componentId : UInt8

namespace Item

/-- The packet of an item, with its route. -/
def packet (i : Item) (table : DispatchTable) : Except FrameError Packet := do
  let p ← table.pack i.name i.values i.version
  return p.withRoute i.sequence i.systemId i.componentId

/-- The frame of an item. -/
def frame (i : Item) (table : DispatchTable) : Except FrameError (List UInt8) := do
  let p ← i.packet table
  p.encode table.fingerprints

/-- The packet that carries a payload along the route of an item. -/
def carrying (i : Item) (id : Nat) (payload : List UInt8) : Packet where
  version := i.version
  sequence := i.sequence
  systemId := i.systemId
  componentId := i.componentId
  messageId := id
  payload := payload

theorem asReceived_carrying (i : Item) (id : Nat) (payload : List UInt8) :
    (i.carrying id payload).asReceived = i.carrying id payload := by
  cases hv : i.version <;> simp [Packet.asReceived, Packet.isSigned, carrying, hv]

/-- An item that a table has an entry for: its id fits the frame version, and its values are those
that the steps of the version decode to. -/
structure Ready (i : Item) (table : DispatchTable) (e : DispatchEntry) : Prop where
  known : table.getNamed? i.name = some e
  id_le : e.plan.id ≤ i.version.maxId
  canonical : i.values.Canonical (e.plan.stepsFor i.version)

/-- A ready item is packed and framed, and its packet decodes to the values it was packed from. -/
theorem Ready.sent {i : Item} {table : DispatchTable} {e : DispatchEntry} (h : i.Ready table e)
    (ht : table.Consistent) (hplan : e.plan.Sound) :
    ∃ payload frame values, i.packet table = .ok (i.carrying e.plan.id payload) ∧
      (i.carrying e.plan.id payload).encode table.fingerprints = .ok frame ∧
      table.decode (i.carrying e.plan.id payload) =
        .ok (some ⟨e.plan.id, i.name, e.dialect, values⟩) ∧
      ∀ field, values.get? field =
        (i.values.restrict (e.plan.stepsFor i.version)).get? field := by
  obtain ⟨hname, hget, hprint⟩ := ht.getNamed?_eq_some h.known
  obtain ⟨payload, values, henc, hdec, hvalues⟩ := Codec.exists_encode hplan e.order h.canonical
  have hpacket : i.packet table = .ok (i.carrying e.plan.id payload) := by
    simp [packet, DispatchTable.pack, h.known, Nat.not_lt.2 h.id_le, henc, Packet.withRoute,
      carrying, bind, Except.bind, pure, Except.pure]
  have hlength : payload.length ≤ maxPayloadLength := by
    rw [Codec.length_of_encode hplan henc]
    exact hplan.payloadLength_le i.version
  have hending : (i.carrying e.plan.id payload).trailer = .ok [] := by
    simp [Packet.trailer, Packet.isSigned, carrying]
  have hsum (sum : UInt16) : table.fingerprints.finish? sum e.plan.id =
      some (Checksum.update sum e.fingerprint) := by
    simp [FingerprintTable.finish?, hprint]
  have hframe := Packet.encode_eq_ok_iff.2
    ⟨h.id_le, hlength, [], _, hending, hsum (Checksum.ofBytes _), rfl⟩
  refine ⟨payload, _, values, hpacket, hframe, ?_, hvalues⟩
  simp [DispatchTable.decode, carrying, hget, hdec, hname, bind, Except.bind, pure, Except.pure]

end Item

/-! ## Streams of items -/

/-- An item, and the bytes that come before its frame. -/
structure Sending where
  noise : List UInt8
  item : Item

/-- The stream of sendings, and what follows the last of them. -/
def streamOf (table : DispatchTable) (tail : List UInt8) :
    List Sending → Except FrameError (List UInt8)
  | [] => .ok tail
  | x :: rest => do
    let frame ← x.item.frame table
    let more ← streamOf table tail rest
    return x.noise ++ (frame ++ more)

/-- Whether no byte starts a frame. -/
def Quiet (bytes : List UInt8) : Prop := ∀ b ∈ bytes, b ≠ 0xFE ∧ b ≠ 0xFD

theorem Quiet.isStartByte_eq_false {bytes : List UInt8} (h : Quiet bytes) :
    ∀ b ∈ bytes, isStartByte b = false := by
  intro b hb
  obtain ⟨hlegacy, hextended⟩ := h b hb
  rw [← Bool.not_eq_true, isStartByte_iff]
  simp [hlegacy, hextended]

namespace Receiver

theorem drain_of_quiet {r : Receiver} (h : Quiet r.buffer) :
    r.drain = ([], r.skip r.buffer.length) := by
  refine drain_of_none (next_of_rest (advance_of_none ?_))
  exact List.findIdx?_eq_none_iff.2 h.isStartByte_eq_false

/-- A frame with the right checksum is returned as soon as it is at the front. -/
theorem next_of_valid {r : Receiver} {f : ParsedFrame} {used : Nat}
    (hp : Packet.parse r.buffer r.table = .ok (f, used)) (hv : f.status = .valid) :
    r.next = (some ⟨f, r.offset, r.offset + used⟩, (r.discard used).account f) := by
  obtain ⟨version, rest, -, -, -, hbuffer, -⟩ := Packet.parse_eq_ok_iff.1 hp
  have hstart : r.buffer.findIdx? isStartByte = some 0 := by
    rw [hbuffer, List.findIdx?_cons, isStartByte_startByte]
    rfl
  refine next_of_frame ?_
  rw [advance_of_zero hstart, readFrame_of_ok hp, if_pos hv]
  rfl

/-- The frame of a packet is returned from behind bytes that start none, which are skipped. -/
theorem next_of_encode {r : Receiver} {p : Packet} {noise frame more : List UInt8}
    (hbuffer : r.buffer = noise ++ (frame ++ more)) (hnoise : Quiet noise)
    (hframe : p.encode r.table = .ok frame) (hp : p.asReceived = p) (hflags : p.incompatFlags = 0) :
    ∃ r' : Receiver, r.next = (some ⟨⟨p, .valid⟩, r.offset + noise.length,
        r.offset + noise.length + frame.length⟩, r') ∧
      r'.table = r.table ∧ r'.buffer = more ∧
      r'.offset = r.offset + noise.length + frame.length ∧
      r'.stats.frames = r.stats.frames + 1 ∧ r'.stats.badChecksum = r.stats.badChecksum ∧
      r'.stats.unverified = r.stats.unverified ∧
      r'.stats.skippedBytes = r.stats.skippedBytes + noise.length := by
  have hskip : r.next = (r.skip noise.length).next := by
    refine next_skip (by simp [hbuffer]) ?_
    rw [hbuffer, List.take_left]
    exact hnoise.isStartByte_eq_false
  have hparse : Packet.parse (r.skip noise.length).buffer (r.skip noise.length).table =
      .ok (⟨p, .valid⟩, frame.length) := by
    rw [buffer_skip, table_skip, hbuffer, List.drop_left,
      Packet.parse_encode hframe (by simp [hp, hflags]) more, hp, Packet.length_of_encode hframe]
  refine ⟨_, hskip.trans (next_of_valid hparse rfl), rfl, ?_, rfl, rfl, rfl, rfl, rfl⟩
  rw [buffer_account, buffer_skip, hbuffer, List.drop_left, List.drop_left]

end Receiver

/-- The message that an item arrives as. -/
structure Delivered (s : DialectSet) (table : DispatchTable) (i : Item) (m : StreamMessage) :
    Prop where
  /-- The packet is the one that was sent. -/
  packet : i.packet table = .ok m.packet
  /-- It has the version and the routing bytes of the item. -/
  route : m.packet.version = i.version ∧ m.packet.sequence = i.sequence ∧
    m.packet.systemId = i.systemId ∧ m.packet.componentId = i.componentId
  /-- The checksum is right. -/
  status : m.status = .valid
  /-- The message takes the bytes of the frame. -/
  span : ∃ frame, i.frame table = .ok frame ∧ m.stop = m.start + frame.length
  /-- It is a message of this name of some dialect of the set, and the values are those of the item,
  so far as the frame version has their fields. -/
  message : ∃ d ∈ s.dialects, ∃ msg ∈ d.messages, ∃ e values,
    table.getNamed? i.name = some e ∧ DialectSet.entry d msg = .ok e ∧ msg.name = i.name ∧
    m.packet.messageId = msg.id ∧ m.message = some ⟨msg.id, i.name, d.name, values⟩ ∧
    ∀ field, values.get? field = (i.values.restrict (e.plan.stepsFor i.version)).get? field

/-- The messages that sendings arrive as, one for each and in order, in a stream that has come to
position `pos`. -/
inductive Deliveries (s : DialectSet) (table : DispatchTable) :
    Nat → List Sending → List StreamMessage → Prop where
  | nil {pos : Nat} : Deliveries s table pos [] []
  | cons {pos : Nat} {x : Sending} {xs : List Sending} {m : StreamMessage}
      {ms : List StreamMessage} (start : m.start = pos + x.noise.length)
      (delivered : Delivered s table x.item m) (rest : Deliveries s table m.stop xs ms) :
      Deliveries s table pos (x :: xs) (m :: ms)

section Delivery

variable {s : DialectSet} {table : DispatchTable}

/-- The frame of a ready item is delivered wherever it starts. -/
theorem Item.Ready.delivered {i : Item} {e : DispatchEntry}
    (hs : ∀ d ∈ s.dialects, ∀ m ∈ d.messages, m.Declared) (hfits : s.Fits table)
    (h : i.Ready table e) :
    ∃ p frame message, i.frame table = .ok frame ∧ p.encode table.fingerprints = .ok frame ∧
      p.asReceived = p ∧ p.incompatFlags = 0 ∧ ∀ start,
        ReadFrame.decode ⟨⟨p, .valid⟩, start, start + frame.length⟩ table =
          .ok ⟨p, .valid, message, start, start + frame.length⟩ ∧
        Delivered s table i ⟨p, .valid, message, start, start + frame.length⟩ := by
  obtain ⟨ht, hdrawn⟩ := hfits
  obtain ⟨hname, hget, -⟩ := ht.getNamed?_eq_some h.known
  obtain ⟨d, hd, msg, hmsg, he⟩ := hdrawn _ e hget
  obtain ⟨plan, hplan, rfl⟩ := DialectSet.entry_eq_ok he
  have hsound : plan.Sound := .of_declared (hs d hd msg hmsg) hplan
  obtain ⟨-, -, hid, -⟩ := LayoutPlan.ofMessage_eq_ok hplan
  obtain ⟨payload, frame, values, hpacket, hframe, hdecode, hvalues⟩ := h.sent ht hsound
  have hsent : i.frame table = .ok frame := bind_eq_ok_iff.2 ⟨_, hpacket, hframe⟩
  refine ⟨i.carrying plan.id payload, frame, some ⟨plan.id, i.name, d.name, values⟩, hsent, hframe,
    i.asReceived_carrying _ payload, rfl, fun start => ⟨?_, ?_⟩⟩
  · simp only [ReadFrame.decode, hdecode]
  · refine ⟨hpacket, ⟨rfl, rfl, rfl, rfl⟩, rfl, ⟨frame, hsent, rfl⟩, ?_⟩
    exact ⟨d, hd, msg, hmsg, _, values, h.known, he, hname, hid, by rw [hid], hvalues⟩

/-- **A receiver returns the frames of a stream** and counts what stands between them as skipped. -/
theorem Receiver.drain_streamOf (hs : ∀ d ∈ s.dialects, ∀ m ∈ d.messages, m.Declared)
    (hfits : s.Fits table) {tail : List UInt8} (htail : Quiet tail) {sendings : List Sending}
    (hready : ∀ x ∈ sendings, ∃ e, x.item.Ready table e)
    (hnoise : ∀ x ∈ sendings, Quiet x.noise) :
    ∃ bytes, streamOf table tail sendings = .ok bytes ∧
      ∀ r : Receiver, r.table = table.fingerprints → r.buffer = bytes →
        ∃ ms, r.drain.1.map (·.decode table) = ms.map .ok ∧
          Deliveries s table r.offset sendings ms ∧
          r.drain.2.stats.frames = r.stats.frames + sendings.length ∧
          r.drain.2.stats.badChecksum = r.stats.badChecksum ∧
          r.drain.2.stats.unverified = r.stats.unverified ∧
          r.drain.2.stats.skippedBytes =
            r.stats.skippedBytes + (sendings.flatMap (·.noise)).length + tail.length := by
  induction sendings with
  | nil =>
    refine ⟨tail, rfl, fun r _ hbuffer => ⟨[], ?_⟩⟩
    rw [drain_of_quiet (hbuffer ▸ htail), hbuffer]
    exact ⟨rfl, .nil, rfl, rfl, rfl, rfl⟩
  | cons x sendings ih =>
    obtain ⟨e, he⟩ := hready x List.mem_cons_self
    obtain ⟨p, frame, message, hsent, hframe, hreceived, hflags, hmessage⟩ := he.delivered hs hfits
    obtain ⟨more, hmore, hrest⟩ := ih (fun y hy => hready y (List.mem_cons_of_mem _ hy))
      (fun y hy => hnoise y (List.mem_cons_of_mem _ hy))
    refine ⟨x.noise ++ (frame ++ more),
      bind_eq_ok_iff.2 ⟨frame, hsent, bind_eq_ok_iff.2 ⟨more, hmore, rfl⟩⟩, ?_⟩
    intro r htable hbuffer
    obtain ⟨r', hnext, htable', hbuffer', hoffset, hframes', hbad', hunverified', hskipped'⟩ :=
      next_of_encode hbuffer (hnoise x List.mem_cons_self) (htable ▸ hframe) hreceived hflags
    obtain ⟨hdecode, hdelivered⟩ := hmessage (r.offset + x.noise.length)
    obtain ⟨ms, hms, hdeliveries, hframes, hbad, hunverified, hskipped⟩ :=
      hrest r' (htable'.trans htable) hbuffer'
    rw [hoffset] at hdeliveries
    rw [drain_of_some hnext]
    refine ⟨_ :: ms, ?_, .cons rfl hdelivered hdeliveries, ?_, hbad.trans hbad',
      hunverified.trans hunverified', ?_⟩
    · rw [List.map_cons, List.map_cons, hdecode, hms]
    · rw [hframes, hframes', List.length_cons]
      omega
    · rw [hskipped, hskipped', List.flatMap_cons, List.length_append]
      omega

end Delivery

theorem values_map_ok {ε α : Type} (xs : List α) :
    values (xs.map Except.ok : List (Except ε α)) = xs := by
  simp [values, Except.toOption]

theorem errors_map_ok {ε α : Type} (xs : List α) :
    errors (xs.map Except.ok : List (Except ε α)) = [] := by
  simp [errors]

/-- **End-to-end delivery.** Items that a table of a set of dialects knows are packed and framed
without fault. In a stream of their frames, with any bytes before, between and behind them that
start no frame, each item is found once and in its place, with its route and its values. No other
frame is found, and the bytes skipped are those that stand between. -/
theorem decodeStream_delivers {s : DialectSet} {names : List String} {table : DispatchTable}
    {sendings : List Sending} {tail : List UInt8}
    (hs : ∀ d ∈ s.dialects, ∀ m ∈ d.messages, m.Declared)
    (ht : s.dispatchTable names = .ok table)
    (hready : ∀ x ∈ sendings, ∃ e, x.item.Ready table e)
    (hnoise : ∀ x ∈ sendings, Quiet x.noise) (htail : Quiet tail) :
    ∃ bytes, streamOf table tail sendings = .ok bytes ∧
      Deliveries s table 0 sendings (table.decodeStream bytes).messages ∧
      (table.decodeStream bytes).removed = [] ∧
      (table.decodeStream bytes).stats.frames = sendings.length ∧
      (table.decodeStream bytes).stats.badChecksum = 0 ∧
      (table.decodeStream bytes).stats.unverified = 0 ∧
      (table.decodeStream bytes).stats.skippedBytes =
        (sendings.flatMap (·.noise)).length + tail.length := by
  have hfits := DialectSet.dispatchTable_eq_ok ht
  obtain ⟨bytes, hbytes, hdrain⟩ := Receiver.drain_streamOf hs hfits htail hready hnoise
  obtain ⟨ms, hms, hdeliveries, hframes, hbad, hunverified, hskipped⟩ :=
    hdrain (({ table := table.fingerprints } : Receiver).push bytes).close rfl rfl
  have hmessages : (table.decodeStream bytes).messages = ms := by
    simp only [DispatchTable.decodeStream, hms, values_map_ok]
  have hremoved : (table.decodeStream bytes).removed = [] := by
    simp only [DispatchTable.decodeStream, hms, errors_map_ok]
  refine ⟨bytes, hbytes, hmessages ▸ hdeliveries, hremoved, ?_, hbad, hunverified, ?_⟩
  · exact hframes.trans (Nat.zero_add _)
  · exact hskipped.trans (by rw [Nat.add_assoc]; exact Nat.zero_add _)

/-- A dialect with readings. -/
def Dialect.readings : Dialect := { name := "readings", messages := [Message.reading] }

/-- The entry of its message. -/
def DispatchEntry.reading : DispatchEntry where
  dialect := "readings"
  name := "READING"
  fingerprint := 177
  order := .little
  plan := LayoutPlan.reading

/-- A reading on its way. -/
def Item.reading : Item where
  name := "READING"
  values := [("gain", .float ⟨0x3F800000⟩), ("label", .text "no"),
    ("axes", .list [.integer .i16 (-2) (by decide), .integer .i16 0 (by decide),
      .integer .i16 3 (by decide)]),
    ("time", .integer .u32 7 (by decide))]
  version := .extended
  sequence := 255
  systemId := 1
  componentId := 0xFD

/-- Two readings, with bytes before the first and behind the second. -/
theorem decodeStream_delivers_readings :
    ∃ table bytes,
      DialectSet.dispatchTable ⟨[.readings]⟩ ["readings"] = .ok table ∧
      streamOf table [0, 9] [⟨[1, 2, 3], .reading⟩, ⟨[], .reading⟩] = .ok bytes ∧
      Deliveries ⟨[.readings]⟩ table 0 [⟨[1, 2, 3], .reading⟩, ⟨[], .reading⟩]
        (table.decodeStream bytes).messages ∧
      (table.decodeStream bytes).stats.skippedBytes = 5 := by
  have hs : ∀ d ∈ [Dialect.readings], ∀ m ∈ d.messages, m.Declared := by
    have hreading : Message.reading.Declared := ⟨{}, by decide +kernel⟩
    simpa [Dialect.readings] using hreading
  have ht : DialectSet.dispatchTable ⟨[.readings]⟩ ["readings"] =
      .ok (({} : DispatchTable).extend .reading) := rfl
  have hready : ∀ x ∈ [(⟨[1, 2, 3], .reading⟩ : Sending), ⟨[], .reading⟩],
      ∃ e, x.item.Ready (({} : DispatchTable).extend .reading) e := by
    have hcanonical : Item.reading.values.Canonical LayoutPlan.reading.steps := by
      intro s hs
      simp only [LayoutPlan.reading, LayoutPlan.steps, List.cons_append, List.nil_append,
        List.mem_cons, List.not_mem_nil, or_false] at hs
      rcases hs with rfl | rfl | rfl | rfl
      · exact ⟨_, rfl, rfl⟩
      · exact ⟨_, rfl, rfl, by simp [Value.kind, ScalarType.valueKind]⟩
      · exact ⟨_, rfl, by decide, by decide⟩
      · exact ⟨_, rfl, rfl⟩
    have hreading : Item.reading.Ready (({} : DispatchTable).extend .reading) .reading :=
      ⟨rfl, by decide, hcanonical⟩
    simpa using ⟨_, hreading⟩
  have hnoise : ∀ x ∈ [(⟨[1, 2, 3], .reading⟩ : Sending), ⟨[], .reading⟩], Quiet x.noise := by
    simp [Quiet]
  have htail : Quiet [0, 9] := by simp [Quiet]
  obtain ⟨bytes, hbytes, hdeliveries, -, -, -, -, hskipped⟩ :=
    decodeStream_delivers hs ht hready hnoise htail
  exact ⟨_, bytes, ht, hbytes, hdeliveries, hskipped⟩

end Telemetry
