/-!
# Blank characters

The characters with the White_Space property, and what is done with them: trimming and splitting
into words.
-/

namespace Telemetry.Text

/-- The characters with the White_Space property. -/
def isBlank (c : Char) : Bool :=
  (9 ≤ c.toNat && c.toNat ≤ 13) || c.toNat == 0x20 || c.toNat == 0x85 || c.toNat == 0xA0
    || c.toNat == 0x1680 || (0x2000 ≤ c.toNat && c.toNat ≤ 0x200A) || c.toNat == 0x2028
    || c.toNat == 0x2029 || c.toNat == 0x202F || c.toNat == 0x205F || c.toNat == 0x3000

/-- A text without the blanks at its start. -/
def trimStart (cs : List Char) : List Char := cs.dropWhile isBlank

/-- A text without the blanks at its start and end. -/
def trim (cs : List Char) : List Char := (trimStart (trimStart cs).reverse).reverse

/-- Puts a character at the front of the first word, or starts the first word with it. -/
def consWord (c : Char) : List (List Char) → List (List Char)
  | [] => [[c]]
  | w :: ws => (c :: w) :: ws

/-- The stretches between blanks, the empty ones included. -/
def stretches : List Char → List (List Char)
  | [] => [[]]
  | c :: cs => if isBlank c then [] :: stretches cs else consWord c (stretches cs)

/-- The words of a text: its longest stretches without blanks. -/
def words (cs : List Char) : List (List Char) := (stretches cs).filter (!·.isEmpty)

/-- A text on one line: its words with single spaces between them. -/
def oneLine (s : String) : String :=
  String.ofList (((words s.toList).intersperse [' ']).flatten)

end Telemetry.Text
