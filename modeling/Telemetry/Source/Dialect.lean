import Telemetry.CompileError
import Telemetry.Schema.Dialect
import Telemetry.Source.Grammar
import Telemetry.Text.Utf8

/-!
# Dialects from text

* `readFile`: the tree of a dialect file.
* `File.dialect`: the dialect that a tree describes.
* `Dialect.ofText`: the dialect of a text.
* `Dialect.ofBytes`: the dialect of a file with a path.
-/

namespace Telemetry.Source

/-- The tree of a dialect file. -/
def readFile (text : List Char) : Except Fault File :=
  match Grammar.dialectFile text { left := text.length } with
  | (some (file, _), _) => .ok file
  | (none, notes) =>
    .error (.unreadable (SyntaxFault.at text (text.length - notes.left)
      (Rule.all.filter (· ∈ notes.rules))))

/-- The value of a number, which has to fit in 64 bits. -/
def Numeral.read (n : Numeral) : Except Fault Nat :=
  match n.value? with
  | some value => .ok value
  | none => .error (.numberTooLarge n.text)

/-! ## Headers -/

/-- What the headers of a file say. -/
structure Heading where
  name : Option String := none
  version : Option UInt8 := none
  flags : DialectFlags := {}
  includes : List String := []

/-- The flags after a setting. -/
def applySetting (flags : DialectFlags) (name : String) : Except Fault DialectFlags :=
  match name with
  | "little_endian" => .ok { flags with order := .little }
  | "big_endian" => .ok { flags with order := .big }
  | "crc_extra" => .ok { flags with fingerprints := true }
  | "no_crc_extra" => .ok { flags with fingerprints := false }
  | "sort_fields" => .ok { flags with sortFields := true }
  | "no_sort_fields" => .ok { flags with sortFields := false }
  | _ => .error (.unknownSetting name)

/-- Takes a further header into account. -/
def Heading.add (h : Heading) : Header → Except Fault Heading
  | .dialect name =>
    match h.name with
    | some first => .error (.declaredTwice first name)
    | none => .ok { h with name := some name }
  | .version number => do
    let n ← number.read
    if n < 256 then return { h with version := some n.toUInt8 }
    else throw (.versionTooLarge n)
  | .setting name => do return { h with flags := ← applySetting h.flags name }
  | .inclusion name => .ok { h with includes := h.includes ++ [name] }

/-! ## Items -/

/-- The value of an entry of an enumeration. -/
def EntryDecl.entry (e : EntryDecl) : Except Fault EnumEntry := do
  return { name := e.name, value := ← e.value.read, description := e.description }

/-- The enumeration that a declaration describes. -/
def EnumDecl.enumDef (e : EnumDecl) : Except Fault EnumDef := do
  return { name := e.name, description := e.description, entries := ← e.entries.mapM (·.entry) }

/-- The field of a message that a declaration describes. -/
def FieldDecl.field (message : String) (f : FieldDecl) : Except Fault Field := do
  let arrayLength ← match f.arrayLength with
    | none => pure 0
    | some number =>
      let n ← number.read
      if n = 0 then throw (.emptyArray message f.name)
      pure n
  return { name := f.name, tag := f.tag, arrayLength, description := f.description }

/-- A fault of the text as a fault on the whole way. -/
def liftFault {α : Type} (step : Except Fault α) : Except CompileError α :=
  step.mapError (.source none)

/-- The fields of a message and the place of its extensions, after a further item. -/
def addItem (message : String) (state : List Field × Option Nat) :
    MessageItem → Except CompileError (List Field × Option Nat)
  | .extensions =>
    match state.2 with
    | some _ => .error (.schema (.badExtensions message .repeated))
    | none => .ok (state.1, some state.1.length)
  | .field f => do
    let field ← liftFault (f.field message)
    return (state.1 ++ [field], state.2)

/-- The greatest id that is told apart from greater ones. -/
def maxIdRead : Nat := 0xFFFFFFFF

/-- The message that a declaration describes. -/
def MessageDecl.message (flags : DialectFlags) (m : MessageDecl) : Except CompileError Message := do
  let id ← liftFault m.id.read
  let (fields, extensionsStart) ← m.items.foldlM (addItem m.name) ([], none)
  let message ← SchemaError.lift
    (Message.declare (min id maxIdRead) m.name fields extensionsStart flags)
  return { message with description := m.description }

/-- Adds what an item defines to a dialect. -/
def Item.addTo (d : Dialect) : Item → Except CompileError Dialect
  | .enumeration e => do
    let enumDef ← liftFault e.enumDef
    return { d with enums := d.enums ++ [enumDef] }
  | .message m => do
    let message ← m.message d.flags
    SchemaError.lift (d.addMessage message)

/-- The dialect that a file describes, under a name for one that has none of its own. All headers
count for all messages. -/
def File.dialect (f : File) (fallback : Option String) : Except CompileError Dialect := do
  let heading ← liftFault (f.headers.foldlM Heading.add {})
  match heading.name <|> fallback with
  | none => throw (.source none .missingName)
  | some name =>
    let dialect : Dialect :=
      { name, version := heading.version, flags := heading.flags, includes := heading.includes }
    f.items.foldlM Item.addTo dialect

/-- The dialect of a text, under a name for one that has none of its own. -/
def dialectOf (text : String) (fallback : Option String) : Except CompileError Dialect := do
  let file ← liftFault (readFile text.toList)
  file.dialect fallback

/-- The name of the last part of a path, without its last extension. A leading dot begins no
extension. -/
def fileStem (path : String) : Option String :=
  let parts := (path.splitOn "/").filter fun part => part ≠ "" && part ≠ "."
  match parts.getLast? with
  | none => none
  | some last =>
    if last = ".." then none
    else
      match (last.toList.reverse.dropWhile (· ≠ '.')).drop 1 with
      | [] => some last
      | stem => some (String.ofList stem.reverse)

/-- A fault as one of the file with a path. -/
def atPath (path : String) : CompileError → CompileError
  | .source _ fault => .source (some path) fault
  | fault => fault

end Telemetry.Source

namespace Telemetry.Dialect

/-- The dialect of a text, which has to give its name. -/
def ofText (text : String) : Except CompileError Dialect := Source.dialectOf text none

/-- The dialect of a file with a path, which gives the name if the text does not. -/
def ofBytes (path : String) (bytes : List UInt8) : Except CompileError Dialect :=
  match Utf8.decode? bytes with
  | none => .error (.file .notText)
  | some text => (Source.dialectOf text (Source.fileStem path)).mapError (Source.atPath path)

end Telemetry.Dialect
