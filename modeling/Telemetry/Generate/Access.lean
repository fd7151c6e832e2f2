import Telemetry.Generate.Ident
import Telemetry.Layout

/-!
# Accesses of generated codecs

A generated encoder and decoder go through the fields of a struct step by step. Each step is one
access to a field, written as one statement.

* `Access`: what is accessed and how.
* `Access.putLine`, `Access.getLine`: the statements of the encoder and the decoder.
-/

namespace Telemetry.Generate

/-- How a field is accessed. -/
inductive AccessKind where
  /-- As a single value. -/
  | one
  /-- Element by element. -/
  | each
  /-- All its bytes at once. -/
  | bytes
deriving DecidableEq

/-- An access to a field of a struct. -/
structure Access where
  kind : AccessKind
  /-- The type of the field, or of its elements. -/
  type : ScalarType
  /-- The identifier of the field. -/
  ident : String
deriving DecidableEq

/-- The access to the field of a step. -/
def Access.ofStep (s : Step) : Access where
  kind := match s.kind with
    | .scalar => .one
    | .array _ => .each
    | .text _ => .bytes
  type := s.type
  ident := identifier s.field

namespace Access

/-- The statement of the encoder. -/
def putLine (a : Access) : String :=
  match a.kind with
  | .one => s!"p.put_{a.type.storage}(self.{a.ident});"
  | .each => s!"for v in self.{a.ident}.iter() \x7b p.put_{a.type.storage}(*v); \x7d"
  | .bytes => s!"p.put_bytes(&self.{a.ident});"

/-- The statement of the decoder. -/
def getLine (a : Access) : String :=
  match a.kind with
  | .one => s!"msg.{a.ident} = p.get_{a.type.storage}()?;"
  | .each => s!"for v in msg.{a.ident}.iter_mut() \x7b *v = p.get_{a.type.storage}()?; \x7d"
  | .bytes => s!"p.get_bytes(&mut msg.{a.ident})?;"

end Access

/-- The type of the field of a step in the generated struct. -/
def fieldType (s : Step) : String :=
  match s.kind with
  | .scalar => s.type.storage
  | .array n | .text n => s!"[{s.type.storage}; {n}]"

/-- The value of the field of a step in the default of the generated struct. -/
def fieldZero (s : Step) : String :=
  let zero := if s.type.isFloat then "0.0" else "0"
  match s.kind with
  | .scalar => zero
  | .array n | .text n => s!"[{zero}; {n}]"

end Telemetry.Generate
