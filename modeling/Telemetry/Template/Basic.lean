/-!
# Templates

A template is a text with places for attributes. Rendering fills the places from a context, which
is a tree of attributes.

* `Node`: a piece of a template; a `Template` is a list of them.
* `Template.render`: the text of a template in a context.
-/

namespace Telemetry

/-- What can be wrong with a template, or with a template in a context. -/
inductive TemplateError where
  /-- A place is not closed; it is found at a byte of the text. -/
  | unterminated (position : Nat)
  /-- An attribute has no proper name; it is found at a byte of the text. -/
  | badName (position : Nat)
  /-- No scope has an attribute of this name. -/
  | unknownAttribute (name : String)
  /-- An attribute to repeat is not a list. -/
  | notAList (name : String)
  /-- An attribute to insert is not a text. -/
  | notAScalar (name : String)
deriving DecidableEq

/-- How a fault of a template is reported. -/
def TemplateError.message : TemplateError → String
  | unterminated position => s!"unterminated construct starting at byte {position}"
  | badName position => s!"bad attribute name at byte {position}"
  | unknownAttribute name => s!"unknown attribute `{name}`"
  | notAList name => s!"attribute `{name}` is not a list"
  | notAScalar name => s!"attribute `{name}` is not text"

/-- A tree of attributes. -/
inductive Context where
  | text (value : String)
  | list (items : List Context)
  /-- Attributes by name. -/
  | attributes (entries : List (String × Context))
deriving Inhabited

/-- A piece of a template. -/
inductive Node where
  /-- Stands for itself. -/
  | text (value : String)
  /-- The place of an attribute. -/
  | attribute (name : String)
  /-- A part that is repeated for every item of a list. -/
  | each (name : String) (body : List Node)

/-- A template. -/
abbrev Template := List Node

/-- Fills the places of a template from a context. -/
abbrev Renderer := Template → Context → Except TemplateError String

/-- An attribute of a context. Only named attributes can be asked for. -/
def Context.get? (c : Context) (name : String) : Option Context :=
  match c with
  | attributes entries => entries.lookup name
  | _ => none

/-- The attribute of a name in the innermost of some scopes that has one. Inner scopes stand in
front. -/
def findAttribute (scopes : List Context) (name : String) : Except TemplateError Context :=
  match scopes.findSome? (·.get? name) with
  | some c => .ok c
  | none => .error (.unknownAttribute name)

mutual

/-- The text of a node in some scopes. -/
def Node.renderIn (scopes : List Context) : Node → Except TemplateError String
  | .text value => .ok value
  | .attribute name => do
    match ← findAttribute scopes name with
    | .text value => .ok value
    | _ => .error (.notAScalar name)
  | .each name body => do
    match ← findAttribute scopes name with
    | .list items =>
      let parts ← items.mapM fun item => renderAll (item :: scopes) body
      return String.join parts
    | _ => .error (.notAList name)

/-- The text of nodes in some scopes. -/
def renderAll (scopes : List Context) : List Node → Except TemplateError String
  | [] => .ok ""
  | node :: rest => do
    let first ← node.renderIn scopes
    let others ← renderAll scopes rest
    return first ++ others

end

/-- The text of a template in a context. -/
def Template.render : Renderer := fun template context => renderAll [context] template

end Telemetry
