import Telemetry.Dialect.Tables
import Telemetry.Generate.Access
import Telemetry.Generate.Templates
import Telemetry.Number.Hex
import Telemetry.Text.Blank

/-!
# Generated modules

What fills the templates of the generated modules, and the modules themselves with their paths.

* `messageContext`: the attributes of a message.
* `emitMessage`, `emitEnum`, `emitDialect`, `emitFraming`, `emitRoot`: the modules.
-/

namespace Telemetry.Generate

/-- A generated file. -/
structure Emission where
  /-- Its path under the output directory. -/
  path : String
  content : String
deriving DecidableEq

/-- A number as an attribute. -/
def numeral (n : Nat) : Context := .text (toString n)

/-- A description on one line, if it says anything. -/
def summary? (description : Option String) : Option String :=
  (description.map Text.oneLine).filter (· ≠ "")

/-- The comment that documents a definition with a description. -/
def docComment (indent : String) (description : Option String) : String :=
  match summary? description with
  | some line => s!"{indent}/// {line}\n"
  | none => ""

/-- The attribute that is there once if a condition holds, and else not at all. -/
def onlyIf (condition : Bool) : Context :=
  .list (if condition then [.attributes []] else [])

/-- Fills a template, and makes a file of it. -/
def emit (render : Renderer) (path : String) (template : Template) (context : Context) :
    Except TemplateError Emission := do
  return { path, content := ← render template context }

/-! ## Messages -/

/-- The fields of a message as declared, with their steps. -/
def declaredSteps (m : Message) (plan : LayoutPlan) : List (Field × Step) :=
  m.fields.zipIdx.filterMap fun (f, i) => (plan.steps.find? (·.index == i)).map fun s => (f, s)

/-- The attributes of a field. -/
def fieldContext (f : Field) (s : Step) : Context := .attributes
  [("ident", .text (identifier f.name)), ("rust_type", .text (fieldType s)),
    ("zero", .text (fieldZero s)), ("doc", .text (docComment "    " f.description))]

/-- The attributes of a field that holds a text. -/
def textContext? (s : Step) : Option Context :=
  match s.kind with
  | .text n => some (.attributes
      [("field", .text s.field), ("ident", .text (identifier s.field)),
        ("getter", .text s!"{s.field}_str"), ("setter", .text s!"set_{s.field}"),
        ("capacity", numeral n)])
  | _ => none

/-- Statements, one for each step. -/
def statements (line : Access → String) (steps : List Step) : Context :=
  .list (steps.map fun s => .attributes [("line", .text (line (.ofStep s)))])

/-- The attributes of a message. -/
def messageContext (runtime dialect : String) (m : Message) (plan : LayoutPlan) : Context :=
  let fields := declaredSteps m plan
  .attributes
    [("runtime", .text runtime), ("dialect", .text dialect), ("name", .text m.name),
      ("struct_name", .text (typeName m.name)), ("id", numeral m.id),
      ("crc_extra", numeral m.fingerprint.toNat), ("min_len", numeral plan.baseLength),
      ("len", numeral plan.fullLength),
      ("doc", .list ((summary? m.description).toList.map fun line =>
        .attributes [("line", .text line)])),
      ("fields", .list (fields.map fun (f, s) => fieldContext f s)),
      ("texts", .list (fields.filterMap fun (_, s) => textContext? s)),
      ("encode_base", statements Access.putLine plan.baseSteps),
      ("encode_ext", statements Access.putLine plan.extensionSteps),
      ("decode_base", statements Access.getLine plan.baseSteps),
      ("decode_ext", statements Access.getLine plan.extensionSteps),
      ("extensions", onlyIf plan.hasExtensions)]

/-- The path of a module of a dialect. -/
def modulePath (dialect module : String) : String := s!"{dialectModuleName dialect}/{module}.rs"

/-- The module of a message. -/
def emitMessage (render : Renderer) (runtime dialect : String) (m : Message) (plan : LayoutPlan) :
    Except TemplateError Emission :=
  emit render (modulePath dialect (messageModuleName m.name)) messageTemplate
    (messageContext runtime dialect m plan)

/-! ## Enumerations -/

/-- The attributes of a value of an enumeration. -/
def entryContext (e : EnumEntry) : Context := .attributes
  [("name", .text e.name), ("ident", .text (identifier e.name)), ("value", numeral e.value),
    ("doc", .text (docComment "" e.description))]

/-- The attributes of an enumeration. -/
def enumContext (e : EnumDef) : Context :=
  let summary := match summary? e.description with
    | some line => s!": {line}"
    | none => ""
  .attributes
    [("name", .text e.name), ("summary", .text summary),
      ("entries", .list (e.entries.map entryContext))]

/-- The module of an enumeration. -/
def emitEnum (render : Renderer) (dialect : String) (e : EnumDef) :
    Except TemplateError Emission :=
  emit render (modulePath dialect (enumModuleName e.name)) enumTemplate (enumContext e)

/-! ## Dialects -/

/-- The path of a message's type as seen from the module of a dialect. -/
def typePath (dialect : String) (r : TableRow) : String :=
  let home := dialectModuleName r.dialect
  let here := s!"{messageModuleName r.name}::{typeName r.name}"
  if home = dialectModuleName dialect then here else s!"super::{home}::{here}"

/-- The attributes of a row of a dialect's tables. -/
def rowContext (dialect : String) (r : TableRow) : Context := .attributes
  [("id", numeral r.id), ("fingerprint", numeral r.fingerprint.toNat),
    ("min_len", numeral r.baseLength), ("len", numeral r.fullLength),
    ("variant", .text (typeName r.name)), ("path", .text (typePath dialect r))]

/-- The attributes of modules. -/
def modulesContext (modules : List String) : Context :=
  .list (modules.map fun name => .attributes [("module", .text name)])

/-- The attributes of a dialect whose tables have given rows. -/
def dialectContext (runtime : String) (d : Dialect) (rows : List TableRow) : Context :=
  let version := match d.version with
    | some v => s!"Some({v.toNat})"
    | none => "None"
  let order := match d.flags.order with
    | .little => "Little"
    | .big => "Big"
  .attributes
    [("runtime", .text runtime), ("name", .text d.name), ("version", .text version),
      ("endianness", .text order),
      ("crc_extra", .text (if d.flags.fingerprints then "true" else "false")),
      ("modules", modulesContext (d.messages.map (fun m => messageModuleName m.name)
        ++ d.enums.map fun e => enumModuleName e.name)),
      ("rows", .list (rows.map (rowContext d.name))), ("dispatch", onlyIf !rows.isEmpty)]

/-- The module of a dialect whose tables have given rows. -/
def emitDialect (render : Renderer) (runtime : String) (d : Dialect) (rows : List TableRow) :
    Except TemplateError Emission :=
  emit render (modulePath d.name "mod") dialectTemplate (dialectContext runtime d rows)

/-! ## What all dialects share -/

/-- The attributes of a row of the table of all messages. -/
def framingRowContext (r : TableRow) : Context := .attributes
  [("id", numeral r.id), ("dialect", .text r.dialect), ("name", .text r.name),
    ("fingerprint", numeral r.fingerprint.toNat)]

/-- A byte as an attribute, to base 16. -/
def byteNumeral (b : UInt8) : Context := .text ("0x" ++ Hex.upper 2 b.toNat)

/-- The attributes of the framing module. -/
def framingContext (runtime : String) (rows : List TableRow) : Context := .attributes
  [("runtime", .text runtime), ("legacy_stx", byteNumeral FrameVersion.legacy.startByte),
    ("extended_stx", byteNumeral FrameVersion.extended.startByte),
    ("legacy_header_len", numeral FrameVersion.legacy.headerLength),
    ("extended_header_len", numeral FrameVersion.extended.headerLength),
    ("checksum_len", numeral checksumLength), ("signature_len", numeral signatureLength),
    ("signed_flag", byteNumeral signedFlag), ("rows", .list (rows.map framingRowContext))]

/-- The framing module, with the rows of all messages. -/
def emitFraming (render : Renderer) (runtime : String) (rows : List TableRow) :
    Except TemplateError Emission :=
  emit render "framing.rs" framingTemplate (framingContext runtime rows)

/-- The module that holds those of the dialects with given names. -/
def emitRoot (render : Renderer) (dialects : List String) : Except TemplateError Emission :=
  emit render "mod.rs" rootTemplate
    (.attributes [("dialects", modulesContext (dialects.map dialectModuleName))])

end Telemetry.Generate
