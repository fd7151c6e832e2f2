import Telemetry.Codec
import Telemetry.Frame.Packet

/-!
# Dispatch tables

A dispatch table tells a receiver how to decode each message: the entry of its id holds the dialect
it comes from, its fingerprint and the plan of its payload. Entries can also be found by name.

* `DispatchTable.insert`: an attempt to add an entry, which needs an id and a name of its own. It
  leaves a table whether it succeeds or not.
* `DispatchTable.add`: the table with an entry more, or the fault.
* `DispatchTable.decode`: the message of a packet.
* `DispatchTable.pack`: the packet of a message.
-/

namespace Telemetry

/-- How a message is decoded. -/
structure DispatchEntry where
  /-- The dialect that the message comes from. -/
  dialect : String
  /-- The name of the message. -/
  name : String
  fingerprint : UInt8
  order : ByteOrder
  plan : LayoutPlan
deriving DecidableEq

/-- A decoded message. -/
structure DecodedMessage where
  id : Nat
  name : String
  dialect : String
  values : FieldValues

/-- The entries of a set of messages. -/
structure DispatchTable where
  /-- The entries by message id. -/
  entries : SortedMap Nat DispatchEntry := {}
  /-- The ids by message name. -/
  ids : SortedMap String Nat := {}
  /-- The fingerprints by message id. -/
  fingerprints : FingerprintTable := {}

namespace DispatchTable

/-- Adds an entry, unless its id or its name is in the table. The indexes are changed one after the
other. A fault leaves the table as it is by then. -/
def insert (e : DispatchEntry) : EStateM SchemaError DispatchTable Unit := do
  match (← get).entries.get? e.plan.id with
  | some first => throw (.duplicateId e.plan.id first.name e.name)
  | none =>
    match (← get).ids.get? e.name with
    | some first => throw (.duplicateName e.name first e.plan.id)
    | none =>
      modify fun t => { t with fingerprints := t.fingerprints.insert e.plan.id e.fingerprint }
      modify fun t => { t with ids := t.ids.insert e.name e.plan.id }
      modify fun t => { t with entries := t.entries.insert e.plan.id e }

/-- The table with an entry more, or the fault for those who give up at the first one. -/
def add (t : DispatchTable) (e : DispatchEntry) : Except SchemaError DispatchTable :=
  match (insert e).run t with
  | .ok _ t' => .ok t'
  | .error fault _ => .error fault

/-- The entry of a message id. -/
def get? (t : DispatchTable) (id : Nat) : Option DispatchEntry := t.entries.get? id

/-- The entry of a message name. -/
def getNamed? (t : DispatchTable) (name : String) : Option DispatchEntry :=
  (t.ids.get? name).bind t.entries.get?

/-- The number of entries. -/
def size (t : DispatchTable) : Nat := t.entries.size

/-- The message of a packet, `none` if the table has no entry for it. -/
def decode (t : DispatchTable) (p : Packet) : Except CodecError (Option DecodedMessage) :=
  match t.get? p.messageId with
  | none => .ok none
  | some e => do
    let values ← Codec.decode e.order e.plan p.payload p.version
    return some { id := p.messageId, name := e.name, dialect := e.dialect, values }

/-- The packet of a message with given field values, without a route. -/
def pack (t : DispatchTable) (name : String) (values : FieldValues) (version : FrameVersion) :
    Except FrameError Packet :=
  match t.getNamed? name with
  | none => .error (.codec (.unknownMessage name))
  | some e =>
    if version.maxId < e.plan.id then .error (.idOutOfRange e.plan.id version)
    else
      match Codec.encode e.order e.plan values version with
      | .error err => .error (.codec err)
      | .ok payload => .ok { version, messageId := e.plan.id, payload }

end DispatchTable

end Telemetry
