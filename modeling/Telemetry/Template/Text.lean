import Telemetry.Template.Basic
import Telemetry.Text.Blank

/-!
# Templates as text

`${name}` is the place of an attribute and `${{name:body}}` repeats a body. Two dollar signs stand
for one. In a body, two closing braces in a row always end it.

* `Template.ofText`: reads a template.
* `renderText`: reads and renders a template.
-/

namespace Telemetry

/-- A repetition that is not closed yet. -/
structure OpenEach where
  /-- The byte at which it starts. -/
  start : Nat
  name : String
  /-- The nodes before it, the last first. -/
  before : List Node

/-- Adds a character to nodes of which the last is first. -/
def addChar (c : Char) : List Node → List Node
  | .text value :: rest => .text (value.push c) :: rest
  | nodes => .text (String.singleton c) :: nodes

/-- The bytes that characters take. -/
def utf8Length : List Char → Nat
  | [] => 0
  | c :: rest => c.utf8Size + utf8Length rest

/-- Whether a character may stand in the name of an attribute. -/
def isNameChar (c : Char) : Bool := c.isAlphanum || c == '_'

/-- The name of an attribute up to a closing character, the byte behind that character and the rest
of the text. Blanks around the name do not count. -/
def takeName (stop : Char) (position : Nat) (cs : List Char) :
    Except TemplateError (String × Nat × List Char) :=
  match cs.dropWhile (· ≠ stop) with
  | [] => .error (.unterminated position)
  | _ :: rest =>
    let inside := cs.takeWhile (· ≠ stop)
    let name := Text.trim inside
    if name.isEmpty || !name.all isNameChar then .error (.badName position)
    else .ok (String.ofList name, position + utf8Length inside + stop.utf8Size, rest)

theorem length_takeName {stop : Char} {position : Nat} {cs : List Char} {name : String}
    {next : Nat} {rest : List Char} (h : takeName stop position cs = .ok (name, next, rest)) :
    rest.length < cs.length := by
  unfold takeName at h
  split at h
  · cases h
  · rename_i c tail heq
    have hlen := List.Sublist.length_le (List.dropWhile_sublist (l := cs) (· ≠ stop))
    rw [heq] at hlen
    simp only [List.length_cons] at hlen
    dsimp only at h
    split at h
    · cases h
    · simp only [Except.ok.injEq, Prod.mk.injEq] at h
      obtain ⟨-, -, rfl⟩ := h
      omega

/-- Reads a template from a byte on. `nodes` are those read so far, the last first, and `outer` the
repetitions around them, the innermost first. -/
def readNodes (position : Nat) (cs : List Char) (outer : List OpenEach) (nodes : List Node) :
    Except TemplateError Template :=
  match cs, outer with
  | [], [] => .ok nodes.reverse
  | [], e :: _ => .error (.unterminated e.start)
  | '\x7d' :: '\x7d' :: rest, e :: outer =>
    readNodes (position + 2) rest outer (.each e.name nodes.reverse :: e.before)
  | '$' :: '$' :: rest, outer => readNodes (position + 2) rest outer (addChar '$' nodes)
  | '$' :: '\x7b' :: '\x7b' :: rest, outer =>
    match _h : takeName ':' (position + 3) rest with
    | .ok (name, next, rest') => readNodes next rest' (⟨position, name, nodes⟩ :: outer) []
    | .error e => .error e
  | '$' :: '\x7b' :: rest, outer =>
    match _h : takeName '\x7d' (position + 2) rest with
    | .ok (name, next, rest') => readNodes next rest' outer (.attribute name :: nodes)
    | .error e => .error e
  | c :: rest, outer => readNodes (position + c.utf8Size) rest outer (addChar c nodes)
termination_by cs.length
decreasing_by
  · simp only [List.length_cons]; omega
  · simp only [List.length_cons]; omega
  · have h := length_takeName _h
    simp only [List.length_cons]; omega
  · have h := length_takeName _h
    simp only [List.length_cons]; omega
  · simp

/-- Reads a template. -/
def Template.ofText (text : String) : Except TemplateError Template :=
  readNodes 0 text.toList [] []

/-- Reads a template and renders it in a context. -/
def renderText (text : String) (context : Context) : Except TemplateError String := do
  (← Template.ofText text).render context

end Telemetry
