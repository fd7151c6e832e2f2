import Telemetry.Schema.Message

/-!
# Dialects

A dialect is a named collection of messages and enumerations with common settings. It may include
other dialects by name.
-/

namespace Telemetry

/-- A named value of an enumeration. -/
structure EnumEntry where
  name : String
  value : Nat
  description : Option String := none
deriving DecidableEq, Inhabited

/-- An enumeration: named values that message fields refer to. -/
structure EnumDef where
  name : String
  description : Option String := none
  entries : List EnumEntry := []
deriving DecidableEq, Inhabited

/-- A dialect. -/
structure Dialect where
  name : String
  version : Option UInt8 := none
  flags : DialectFlags := {}
  /-- The names of the dialects that it includes. -/
  includes : List String := []
  enums : List EnumDef := []
  messages : List Message := []
deriving DecidableEq, Inhabited

namespace Dialect

/-- The message with an id. -/
def message? (d : Dialect) (id : Nat) : Option Message := d.messages.find? (·.id == id)

/-- The message with a name. -/
def messageNamed? (d : Dialect) (name : String) : Option Message :=
  d.messages.find? (·.name == name)

/-- Adds a message whose id and name are new to the dialect. -/
def addMessage (d : Dialect) (m : Message) : Except SchemaError Dialect :=
  match d.message? m.id, d.messageNamed? m.name with
  | some first, _ => .error (.duplicateId m.id first.name m.name)
  | none, some first => .error (.duplicateName m.name first.id m.id)
  | none, none => .ok { d with messages := d.messages ++ [m] }

end Dialect

end Telemetry
