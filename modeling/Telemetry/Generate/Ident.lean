/-!
# Names in generated modules

How the names of dialects, messages, enumerations and fields become identifiers, types and modules
of the generated code.
-/

namespace Telemetry.Generate

/-- The words that are identifiers of the generated code only with a mark before them. -/
def keywords : List String :=
  ["as", "async", "await", "break", "const", "continue", "dyn", "else", "enum", "extern", "false",
    "fn", "for", "if", "impl", "in", "let", "loop", "match", "mod", "move", "mut", "pub", "ref",
    "return", "static", "struct", "trait", "true", "type", "unsafe", "use", "where", "while",
    "abstract", "become", "box", "do", "final", "macro", "override", "priv", "try", "typeof",
    "unsized", "virtual", "yield"]

/-- The words that are no identifiers of the generated code, marked or not. -/
def reserved : List String := ["self", "Self", "super", "crate", "_"]

/-- A name as an identifier of the generated code. -/
def identifier (name : String) : String :=
  if name ∈ reserved then name ++ "_"
  else if name ∈ keywords then "r#" ++ name
  else name

/-- The parts of a name between underscores. -/
def parts (name : String) : List (List Char) :=
  name.toList.foldr (fun c parts =>
    if c = '_' then [] :: parts
    else
      match parts with
      | [] => [[c]]
      | part :: rest => (c :: part) :: rest) [[]]

/-- A word with its first letter in upper case and all others in lower case. -/
def capitalize : List Char → List Char
  | [] => []
  | c :: rest => c.toUpper :: rest.map Char.toLower

/-- A name as a type: its parts capitalized and joined. -/
def typeName (name : String) : String := String.ofList ((parts name).flatMap capitalize)

/-- A name in lower case. -/
def lowered (name : String) : String := name.map Char.toLower

/-- The module of a dialect. -/
def dialectModuleName (name : String) : String := identifier (lowered name)

/-- The module of a message. -/
def messageModuleName (name : String) : String := "msg_" ++ lowered name

/-- The module of an enumeration. -/
def enumModuleName (name : String) : String := "enum_" ++ lowered name

end Telemetry.Generate
