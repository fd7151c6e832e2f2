import Telemetry.Source.Reader
import Telemetry.Source.Tree

/-!
# The grammar of dialect files

One reader per rule of the grammar. Blanks and comments may stand between any two tokens.

* `Grammar.dialectFile`: a whole file.
-/

namespace Telemetry.Source.Grammar

open Reader

/-- A letter or an underscore, which may begin a name. -/
def isIdentStart (c : Char) : Bool := c.isAlpha || c == '_'

/-- A letter, digit or underscore, which may continue a name. -/
def isIdentRest (c : Char) : Bool := c.isAlphanum || c == '_'

/-- A digit to base 16. -/
def isHexDigit (c : Char) : Bool := c.isDigit || ('a' ≤ c && c ≤ 'f') || ('A' ≤ c && c ≤ 'F')

/-- A name. -/
def identText? : List Char → Option (String × List Char)
  | [] => none
  | c :: rest =>
    if isIdentStart c then
      some (String.ofList (c :: rest.takeWhile isIdentRest), rest.dropWhile isIdentRest)
    else none

/-- One or more digits. -/
def digitsText? (isDigit : Char → Bool) (cs : List Char) : Option (List Char × List Char) :=
  match cs.takeWhile isDigit with
  | [] => none
  | digits => some (digits, cs.dropWhile isDigit)

/-- A number to base 16. -/
def hexText? : List Char → Option (Numeral × List Char)
  | '0' :: mark :: rest =>
    if mark == 'x' || mark == 'X' then
      (digitsText? isHexDigit rest).map fun (digits, rest) => (.hexadecimal mark digits, rest)
    else none
  | _ => none

/-- A number to base 10. -/
def decText? (cs : List Char) : Option (Numeral × List Char) :=
  (digitsText? Char.isDigit cs).map fun (digits, rest) => (.decimal digits, rest)

/-- What stands between quotes, up to the closing quote: a backslash takes the next character with
it. `\n` and `\t` stand for the end of a line and a tab, behind any other backslash stands the
character itself. -/
def quotedText : List Char → List Char × List Char
  | '\\' :: c :: rest =>
    let (inner, left) := quotedText rest
    ((if c = 'n' then '\n' else if c = 't' then '\t' else c) :: inner, left)
  | c :: rest =>
    if c = '"' || c = '\\' then ([], c :: rest)
    else
      let (inner, left) := quotedText rest
      (c :: inner, left)
  | [] => ([], [])

/-- A name. -/
def ident : Reader String := rule .ident (ofText identText?)

/-- A number to base 16. -/
def hexNumber : Reader Numeral := rule .hexNumber (ofText hexText?)

/-- A number to base 10. -/
def decNumber : Reader Numeral := rule .decNumber (ofText decText?)

/-- A number to either base. -/
def number : Reader Numeral := rule .number (orElse hexNumber decNumber)

/-- A text in quotes. -/
def string : Reader String := rule .string do
  literal "\""
  let inner ← ofText fun cs => some (quotedText cs)
  literal "\""
  return String.ofList inner

/-- The name of the dialect. -/
def dialectDecl : Reader Header := rule .dialectDecl do
  literal "dialect"; gap
  let name ← ident; gap
  literal ";"
  return .dialect name

/-- The version of the dialect. -/
def versionDecl : Reader Header := rule .versionDecl do
  literal "version"; gap
  let n ← number; gap
  literal ";"
  return .version n

/-- A setting of the dialect. -/
def optionDecl : Reader Header := rule .optionDecl do
  literal "option"; gap
  let name ← ident; gap
  literal ";"
  return .setting name

/-- Another dialect that is included. -/
def includeDecl : Reader Header := rule .includeDecl do
  literal "include"; gap
  let name ← string; gap
  literal ";"
  return .inclusion name

/-- A declaration in front of the enumerations and messages. -/
def header : Reader Header :=
  orElse dialectDecl (orElse versionDecl (orElse optionDecl includeDecl))

/-- An entry of an enumeration. -/
def enumEntry : Reader EntryDecl := rule .enumEntry do
  let name ← ident; gap
  literal "="; gap
  let value ← number; gap
  let description ← optional string; gap
  literal ";"
  return { name, value, description }

/-- An enumeration with its entries. -/
def enumSection : Reader EnumDecl := rule .enumSection do
  literal "enum"; gap
  let name ← ident; gap
  let description ← optional string; gap
  literal "\x7b"; gap
  let entries ← many enumEntry; gap
  literal "\x7d"
  return { name, description, entries }

/-- The length of an array, in brackets. -/
def arraySuffix : Reader Numeral := rule .arraySuffix do
  literal "["; gap
  let n ← number; gap
  literal "]"
  return n

/-- A field of a message. -/
def fieldDecl : Reader FieldDecl := rule .fieldDecl do
  let name ← ident; gap
  literal ":"; gap
  let tag ← ident; gap
  let arrayLength ← optional arraySuffix; gap
  let description ← optional string; gap
  literal ";"
  return { name, tag, arrayLength, description }

/-- The mark behind which the extension fields stand. -/
def extensionsMarker : Reader Unit := rule .extensionsMarker do
  literal "extensions"; gap
  literal ";"

/-- A field, or the mark of the extensions. -/
def messageItem : Reader MessageItem :=
  orElse (do extensionsMarker; return .extensions) (do return .field (← fieldDecl))

/-- A message with its fields. -/
def messageSection : Reader MessageDecl := rule .messageSection do
  literal "message"; gap
  let name ← ident; gap
  literal "="; gap
  let id ← number; gap
  let description ← optional string; gap
  literal "\x7b"; gap
  let items ← many messageItem; gap
  literal "\x7d"
  return { name, id, description, items }

/-- An enumeration or a message. -/
def item : Reader Item :=
  orElse (do return .enumeration (← enumSection)) (do return .message (← messageSection))

/-- The end of the file. -/
def endOfInput : Reader Unit := rule .endOfInput (ofText fun
  | [] => some ((), [])
  | _ :: _ => none)

/-- A dialect file. -/
def dialectFile : Reader File := rule .dialectFile do
  gap
  let headers ← many header; gap
  let items ← many item; gap
  endOfInput
  return { headers, items }

end Telemetry.Source.Grammar
