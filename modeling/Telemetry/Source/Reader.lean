/-!
# Readers

A reader takes what it understands from the front of a text, or refuses. Readers are built from
grammar rules, and a note is kept of the rules that were refused at the furthest place in the text:
that is what a report on a text that cannot be read is made of.

* `Reader`: a reader of values of a type.
* `Reader.rule`: a reader that stands for a grammar rule and enters its refusals in the notes.
* `Reader.gap`: skips blanks and comments.
* `Reader.many`: as many in a row as there are, with gaps between them.
-/

namespace Telemetry.Source

/-- The grammar rules, in the order of the grammar. -/
inductive Rule where
  | endOfInput | ident | hexNumber | decNumber | number | string | dialectFile | dialectDecl
  | versionDecl | optionDecl | includeDecl | enumSection | enumEntry | messageSection
  | extensionsMarker | fieldDecl | arraySuffix
deriving DecidableEq

namespace Rule

/-- The name of a rule in reports. -/
def name : Rule → String
  | endOfInput => "EOI"
  | ident => "ident"
  | hexNumber => "hex_number"
  | decNumber => "dec_number"
  | number => "number"
  | string => "string"
  | dialectFile => "dialect_file"
  | dialectDecl => "dialect_decl"
  | versionDecl => "version_decl"
  | optionDecl => "option_decl"
  | includeDecl => "include_decl"
  | enumSection => "enum_section"
  | enumEntry => "enum_entry"
  | messageSection => "message_section"
  | extensionsMarker => "extensions_marker"
  | fieldDecl => "field_decl"
  | arraySuffix => "array_suffix"

/-- All rules, in the order of the grammar. -/
def all : List Rule :=
  [endOfInput, ident, hexNumber, decNumber, number, string, dialectFile, dialectDecl, versionDecl,
    optionDecl, includeDecl, enumSection, enumEntry, messageSection, extensionsMarker, fieldDecl,
    arraySuffix]

end Rule

/-- The rules that were refused at the furthest place. A place is given by the number of characters
that are left from it on. -/
structure Notes where
  left : Nat
  /-- The rules in the order in which they were refused. -/
  rules : List Rule := []
deriving DecidableEq

namespace Notes

/-- How many rules are noted at a place. -/
def countAt (n : Notes) (left : Nat) : Nat := if n.left = left then n.rules.length else 0

/-- The notes after `rule` was refused at a place. `before` are the notes from when it was tried,
`now` those that the rules tried for it left. If these added a single note at the same place, that
note says more and stays; several are replaced by the rule itself. -/
def refuse (before now : Notes) (rule : Rule) (left : Nat) : Notes :=
  if now.countAt left = before.countAt left + 1 then now
  else if now.left = left then { now with rules := now.rules.take (before.countAt left) ++ [rule] }
  else if left < now.left then { left, rules := [rule] }
  else now

end Notes

/-- Takes a value from the front of a text and leaves the rest, or refuses. Notes are kept either
way. -/
def Reader (α : Type) : Type := List Char → Notes → Option (α × List Char) × Notes

namespace Reader

variable {α β : Type}

/-- Takes nothing. -/
def give (a : α) : Reader α := fun cs notes => (some (a, cs), notes)

/-- One reader after the other. -/
def andThen (p : Reader α) (f : α → Reader β) : Reader β := fun cs notes =>
  match p cs notes with
  | (some (a, rest), notes) => f a rest notes
  | (none, notes) => (none, notes)

instance : Monad Reader where
  pure := give
  bind := andThen

/-- Makes a reader from a function on texts. -/
def ofText (f : List Char → Option (α × List Char)) : Reader α := fun cs notes => (f cs, notes)

/-- The first of two readers that does not refuse. -/
def orElse (p q : Reader α) : Reader α := fun cs notes =>
  match p cs notes with
  | (some r, notes) => (some r, notes)
  | (none, notes) => q cs notes

/-- What a reader takes, or nothing if it refuses. -/
def optional (p : Reader α) : Reader (Option α) := fun cs notes =>
  match p cs notes with
  | (some (a, rest), notes) => (some (some a, rest), notes)
  | (none, notes) => (some (none, cs), notes)

/-- A reader that stands for a grammar rule. -/
def rule (r : Rule) (p : Reader α) : Reader α := fun cs notes =>
  match p cs notes with
  | (some result, now) => (some result, now)
  | (none, now) => (none, notes.refuse now r cs.length)

/-! ## Literals -/

/-- What is left of a text behind given characters at its front. -/
def stripFront? : List Char → List Char → Option (List Char)
  | [], cs => some cs
  | _ :: _, [] => none
  | w :: word, c :: cs => if w = c then stripFront? word cs else none

/-- Takes a given text. -/
def literal (word : String) : Reader Unit :=
  ofText fun cs => (stripFront? word.toList cs).map fun rest => ((), rest)

/-! ## Gaps -/

/-- The characters that separate tokens. -/
def isSpace (c : Char) : Bool := c == ' ' || c == '\t' || c == '\r' || c == '\n'

/-- What is left behind the end of a block comment. -/
def closeComment? : List Char → Option (List Char)
  | [] => none
  | '*' :: '/' :: rest => some rest
  | _ :: rest => closeComment? rest

/-- What is left behind a comment at the front: up to the end of the line, or of the block. A block
comment that does not end is none. -/
def stripComment? : List Char → Option (List Char)
  | '/' :: '/' :: rest => some (rest.dropWhile (· ≠ '\n'))
  | '/' :: '*' :: rest => closeComment? rest
  | _ => none

theorem length_closeComment {cs rest : List Char} (h : closeComment? cs = some rest) :
    rest.length < cs.length := by
  fun_induction closeComment? cs with
  | case1 => cases h
  | case2 => cases h; simp only [List.length_cons]; omega
  | case3 _ _ _ ih => exact Nat.lt_trans (ih h) (by simp)

theorem length_stripComment {cs rest : List Char} (h : stripComment? cs = some rest) :
    rest.length < cs.length := by
  unfold stripComment? at h
  split at h
  · cases h
    rename_i rest
    have := List.Sublist.length_le (List.dropWhile_sublist (l := rest) (· ≠ '\n'))
    simp only [List.length_cons]
    omega
  · have := length_closeComment h
    simp only [List.length_cons]
    omega
  · cases h

/-- What is left behind the blanks and comments at the front. -/
def skipGap (cs : List Char) : List Char :=
  match cs with
  | [] => []
  | c :: rest =>
    if isSpace c then skipGap rest
    else
      match _h : stripComment? (c :: rest) with
      | some rest' => skipGap rest'
      | none => c :: rest
termination_by cs.length
decreasing_by
  · simp
  · exact length_stripComment _h

/-- Skips blanks and comments. -/
def gap : Reader Unit := ofText fun cs => some ((), skipGap cs)

/-! ## Repetition -/

/-- Up to `fuel` more values, each behind a gap. The gap before a refusal is not taken. -/
def more (p : Reader α) : (fuel : Nat) → Reader (List α)
  | 0 => give []
  | fuel + 1 => fun cs notes =>
    match andThen gap (fun _ => p) cs notes with
    | (some (a, rest), notes) => andThen (more p fuel) (fun as => give (a :: as)) rest notes
    | (none, notes) => (some ([], cs), notes)

/-- As many values in a row as there are, with gaps between them. Each takes at least one
character, so a reader that is tried once more than there are characters has refused by then. -/
def many (p : Reader α) : Reader (List α) := fun cs notes =>
  match p cs notes with
  | (some (a, rest), notes) =>
    andThen (more p (rest.length + 1)) (fun as => give (a :: as)) rest notes
  | (none, notes) => (some ([], cs), notes)

end Reader

end Telemetry.Source
