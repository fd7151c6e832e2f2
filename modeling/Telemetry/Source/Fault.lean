import Telemetry.Source.Reader

/-!
# Faults of a dialect file

What can be wrong with the text of a dialect file, apart from what it defines, and how each fault
is reported. A text that cannot be read is shown with the line where reading stopped.
-/

namespace Telemetry.Source

/-- The place where a text could not be read on. -/
structure SyntaxFault where
  /-- The number of the line, from 1. -/
  line : Nat
  /-- The number of the character in the line, from 1. -/
  column : Nat
  /-- The line as it is shown. -/
  text : List Char
  /-- The rules that could have gone on, in the order of the grammar. -/
  expected : List Rule
deriving DecidableEq

/-- A fault of a dialect file. -/
inductive Fault where
  /-- The text is not that of a dialect file. -/
  | unreadable (fault : SyntaxFault)
  /-- The file names its dialect twice. -/
  | declaredTwice (first second : String)
  /-- The version is no byte. -/
  | versionTooLarge (n : Nat)
  /-- There is no such setting. -/
  | unknownSetting (name : String)
  /-- Neither the file nor anything else names the dialect. -/
  | missingName
  /-- A number does not fit in 64 bits. -/
  | numberTooLarge (spelling : String)
  /-- An array without elements. -/
  | emptyArray (message field : String)
deriving DecidableEq

/-! ## Showing a place in a text -/

/-- How an end of line is shown where reading stopped at one. -/
def showLineEnd (c : Char) : Char :=
  if c = '\r' then Char.ofNat 0x240D else if c = '\n' then Char.ofNat 0x240A else c

/-- Whether a character belongs to the end of a line. -/
def isLineEnd (c : Char) : Bool := c = '\r' || c = '\n'

/-- The characters up to and including the first end of line. -/
def restOfLine : List Char → List Char
  | [] => []
  | c :: rest => if c = '\n' then [c] else c :: restOfLine rest

/-- The place behind the first `n` characters of a text. -/
def SyntaxFault.at (text : List Char) (n : Nat) (expected : List Rule) : SyntaxFault :=
  let before := text.take n
  let after := text.drop n
  let lineStart := (before.reverse.takeWhile (· ≠ '\n')).reverse
  let line := lineStart ++ restOfLine after
  { line := before.count '\n' + 1
    column := lineStart.length + 1
    text := if (after.take 1).any isLineEnd then line.map showLineEnd
      else line.filter (!isLineEnd ·)
    expected }

/-! ## Reports -/

/-- Names in a row: `a`, `a or b`, `a, b, or c`. -/
def enumerate (names : List String) : String :=
  match names with
  | [] => ""
  | [a] => a
  | [a, b] => s!"{a} or {b}"
  | names => String.intercalate ", " names.dropLast ++ ", or " ++ names.getLastD ""

/-- What leads from the start of a line to a column: a blank for each character, but a tab for a
tab. -/
def pointer (text : List Char) (column : Nat) : List Char :=
  (text.take (column - 1)).map fun c => if c = '\t' then '\t' else ' '

/-- The report on a place in a text. -/
def SyntaxFault.message (f : SyntaxFault) : String :=
  let number := toString f.line
  let margin := String.ofList (List.replicate number.length ' ')
  String.intercalate "\n"
    [s!"{margin}--> {number}:{f.column}",
      s!"{margin} |",
      s!"{number} | {String.ofList f.text}",
      s!"{margin} | {String.ofList (pointer f.text f.column)}^---",
      s!"{margin} |",
      s!"{margin} = expected {enumerate (f.expected.map Rule.name)}"]

/-- How a fault of a dialect file is reported. -/
def Fault.message : Fault → String
  | unreadable fault => s!"Parse error: {fault.message}"
  | declaredTwice first second => s!"dialect declared twice ({first} and {second})"
  | versionTooLarge n => s!"version {n} does not fit one byte"
  | unknownSetting name => s!"unknown option `{name}`"
  | missingName => "missing `dialect NAME;` declaration"
  | numberTooLarge spelling =>
    s!"bad number `{spelling}`: number too large to fit in target type"
  | emptyArray message field => s!"{message}.{field}: array length must be at least 1"

end Telemetry.Source
