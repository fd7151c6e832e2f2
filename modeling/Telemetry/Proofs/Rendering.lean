import Mathlib.Data.List.Forall2
import Mathlib.Data.Option.Defs
import Telemetry.Generate.Emission
import Telemetry.Proofs.Except

/-!
# Templates that can always be filled

Filling a template fails if an attribute is not there, or is no text or list where one is needed.
Whether that can happen depends on the shape of the context alone: which attributes it has, and of
what kind they are. Templates are checked against shapes as programs against types.

* `Shape`, `Context.Conforms`: kinds of attributes, and contexts that have them.
* `Node.fits`, `nodesFit`: the check of a template.
* `nodesFit_sound`: a template that passes can be filled from every context of the shape.
* `exists_emitMessage` and so on: all modules can be made.
-/

namespace Telemetry

/-- The kinds of the attributes in a context. -/
inductive Shape where
  | text
  /-- Items of one shape. -/
  | list (item : Shape)
  | attributes (entries : List (String × Shape))

/-- Attributes that are all texts. -/
def Shape.texts (names : List String) : Shape := .attributes (names.map fun name => (name, .text))

/-- Contexts of a shape. Attributes come in the order of the shape. -/
inductive Context.Conforms : Context → Shape → Prop where
  | text (value : String) : Conforms (.text value) .text
  | list {items : List Context} {item : Shape} :
    (∀ c ∈ items, Conforms c item) → Conforms (.list items) (.list item)
  | nil : Conforms (.attributes []) (.attributes [])
  | cons {name : String} {c : Context} {s : Shape} {cs : List (String × Context)}
    {ss : List (String × Shape)} : Conforms c s → Conforms (.attributes cs) (.attributes ss) →
    Conforms (.attributes ((name, c) :: cs)) (.attributes ((name, s) :: ss))

attribute [simp] Context.Conforms.text Context.Conforms.nil

namespace Context

@[simp] theorem conforms_list {items : List Context} {item : Shape} :
    Conforms (.list items) (.list item) ↔ ∀ c ∈ items, c.Conforms item := by
  refine ⟨fun h => ?_, .list⟩
  cases h with
  | list h => exact h

@[simp] theorem conforms_cons {name name' : String} {c : Context} {s : Shape}
    {cs : List (String × Context)} {ss : List (String × Shape)} :
    Conforms (.attributes ((name, c) :: cs)) (.attributes ((name', s) :: ss)) ↔
      name = name' ∧ c.Conforms s ∧ Conforms (.attributes cs) (.attributes ss) := by
  constructor
  · intro h
    cases h with
    | cons hc hcs => exact ⟨rfl, hc, hcs⟩
  · rintro ⟨rfl, hc, hcs⟩
    exact .cons hc hcs

end Context

/-! ## The check -/

/-- The shape of an attribute. -/
def Shape.get? (s : Shape) (name : String) : Option Shape :=
  match s with
  | attributes entries => entries.lookup name
  | _ => none

/-- The shape of an attribute in the innermost of some scopes that has one. -/
def findShape (shapes : List Shape) (name : String) : Option Shape :=
  shapes.findSome? (·.get? name)

mutual

/-- Whether a node can be filled in scopes of given shapes. -/
def Node.fits (shapes : List Shape) : Node → Bool
  | .text _ => true
  | .attribute name =>
    match findShape shapes name with
    | some .text => true
    | _ => false
  | .each name body =>
    match findShape shapes name with
    | some (.list item) => nodesFit (item :: shapes) body
    | _ => false

/-- Whether nodes can be filled in scopes of given shapes. -/
def nodesFit (shapes : List Shape) : List Node → Bool
  | [] => true
  | node :: rest => node.fits shapes && nodesFit shapes rest

end

/-- A context has an attribute exactly if its shape has one, and then one of that shape. -/
theorem Context.Conforms.get? {c : Context} {s : Shape} (h : c.Conforms s) (name : String) :
    Option.Rel Context.Conforms (c.get? name) (s.get? name) := by
  induction h with
  | text => exact .none
  | list => exact .none
  | nil => exact .none
  | @cons name' c s cs ss hc _ _ ih =>
    simp only [Context.get?, Shape.get?, List.lookup_cons] at ih ⊢
    split
    · exact .some hc
    · exact ih

theorem findAttribute_conforms {scopes : List Context} {shapes : List Shape}
    (h : List.Forall₂ Context.Conforms scopes shapes) {name : String} {s : Shape}
    (hs : findShape shapes name = some s) :
    ∃ c, findAttribute scopes name = .ok c ∧ c.Conforms s := by
  induction h with
  | nil => cases hs
  | @cons c s' scopes shapes hc _ ih =>
    have hrel := hc.get? name
    rw [findShape, List.findSome?_cons] at hs
    cases hs' : s'.get? name with
    | some found =>
      rw [hs'] at hs hrel
      cases hs
      generalize hget : c.get? name = o at hrel
      cases hrel with
      | some hconforms =>
        exact ⟨_, by simp [findAttribute, hget], hconforms⟩
    | none =>
      rw [hs'] at hs hrel
      generalize hget : c.get? name = o at hrel
      cases hrel
      simpa [findAttribute, hget] using ih hs

mutual

theorem Node.fits_sound {scopes : List Context} {shapes : List Shape}
    (h : List.Forall₂ Context.Conforms scopes shapes) :
    (node : Node) → node.fits shapes = true → ∃ text, node.renderIn scopes = .ok text
  | .text value, _ => ⟨value, rfl⟩
  | .attribute name, hfits => by
    rw [Node.fits] at hfits
    split at hfits
    · obtain ⟨c, hfind, hc⟩ := findAttribute_conforms h ‹_›
      cases hc with
      | text value => exact ⟨value, by simp [Node.renderIn, hfind, bind, Except.bind]⟩
    · cases hfits
  | .each name body, hfits => by
    rw [Node.fits] at hfits
    split at hfits
    · obtain ⟨c, hfind, hc⟩ := findAttribute_conforms h ‹_›
      cases hc with
      | @list items item hitems =>
        obtain ⟨parts, hparts⟩ : ∃ parts,
            items.mapM (fun item => renderAll (item :: scopes) body) = .ok parts :=
          exists_mapM_eq_ok fun c hc => nodesFit_sound (.cons (hitems c hc) h) body hfits
        exact ⟨String.join parts, by
          simp [Node.renderIn, hfind, hparts, bind, Except.bind, pure, Except.pure]⟩
    · cases hfits

/-- Nodes that pass the check can be filled. -/
theorem nodesFit_sound {scopes : List Context} {shapes : List Shape}
    (h : List.Forall₂ Context.Conforms scopes shapes) :
    (nodes : List Node) → nodesFit shapes nodes = true → ∃ text, renderAll scopes nodes = .ok text
  | [], _ => ⟨"", rfl⟩
  | node :: rest, hfits => by
    rw [nodesFit, Bool.and_eq_true] at hfits
    obtain ⟨first, hfirst⟩ := Node.fits_sound h node hfits.1
    obtain ⟨others, hothers⟩ := nodesFit_sound h rest hfits.2
    exact ⟨first ++ others, by
      simp [renderAll, hfirst, hothers, bind, Except.bind, pure, Except.pure]⟩

end

/-! ## Generated modules -/

namespace Generate

theorem exists_emit {template : Template} {context : Context} (shape : Shape) (path : String)
    (hfits : nodesFit [shape] template = true) (hconforms : context.Conforms shape) :
    ∃ e, emit Template.render path template context = .ok e := by
  obtain ⟨content, hcontent⟩ := nodesFit_sound (.cons hconforms .nil) template hfits
  exact ⟨⟨path, content⟩, by
    simp [emit, Template.render, hcontent, bind, Except.bind, pure, Except.pure]⟩

theorem conforms_statements (line : Access → String) (steps : List Step) :
    (statements line steps).Conforms (.list (.texts ["line"])) := by
  simp [statements, Shape.texts]

theorem conforms_onlyIf (condition : Bool) :
    (onlyIf condition).Conforms (.list (.texts [])) := by
  cases condition <;> simp [onlyIf, Shape.texts]

theorem conforms_modulesContext (modules : List String) :
    (modulesContext modules).Conforms (.list (.texts ["module"])) := by
  simp [modulesContext, Shape.texts]

theorem conforms_textContext? {s : Step} {c : Context} (h : textContext? s = some c) :
    c.Conforms (.texts ["field", "ident", "getter", "setter", "capacity"]) := by
  unfold textContext? at h
  split at h
  · cases h
    simp [numeral, Shape.texts]
  · cases h

/-- The shape of `messageContext`. -/
def messageShape : Shape := .attributes
  [("runtime", .text), ("dialect", .text), ("name", .text), ("struct_name", .text), ("id", .text),
    ("crc_extra", .text), ("min_len", .text), ("len", .text),
    ("doc", .list (.texts ["line"])),
    ("fields", .list (.texts ["ident", "rust_type", "zero", "doc"])),
    ("texts", .list (.texts ["field", "ident", "getter", "setter", "capacity"])),
    ("encode_base", .list (.texts ["line"])), ("encode_ext", .list (.texts ["line"])),
    ("decode_base", .list (.texts ["line"])), ("decode_ext", .list (.texts ["line"])),
    ("extensions", .list (.texts []))]

theorem conforms_messageContext (runtime dialect : String) (m : Message) (plan : LayoutPlan) :
    (messageContext runtime dialect m plan).Conforms messageShape := by
  have hdoc : ∀ c ∈ (summary? m.description).toList.map fun line =>
      Context.attributes [("line", .text line)], c.Conforms (.texts ["line"]) := by
    simp [Shape.texts]
  have hfields : ∀ c ∈ (declaredSteps m plan).map fun p => fieldContext p.1 p.2,
      c.Conforms (.texts ["ident", "rust_type", "zero", "doc"]) := by
    intro c hc
    obtain ⟨⟨f, s⟩, -, rfl⟩ := List.mem_map.1 hc
    simp [fieldContext, Shape.texts]
  have htexts : ∀ c ∈ (declaredSteps m plan).filterMap fun p => textContext? p.2,
      c.Conforms (.texts ["field", "ident", "getter", "setter", "capacity"]) := by
    intro c hc
    obtain ⟨⟨f, s⟩, -, hs⟩ := List.mem_filterMap.1 hc
    exact conforms_textContext? hs
  simp only [messageContext, messageShape, numeral, Context.conforms_cons, Context.conforms_list,
    Context.Conforms.text, Context.Conforms.nil, conforms_statements, conforms_onlyIf, true_and,
    and_true]
  exact ⟨hdoc, hfields, htexts⟩

/-- A message's module can always be made. -/
theorem exists_emitMessage (runtime dialect : String) (m : Message) (plan : LayoutPlan) :
    ∃ e, emitMessage Template.render runtime dialect m plan = .ok e :=
  exists_emit messageShape _ (by decide +kernel) (conforms_messageContext runtime dialect m plan)

/-- The shape of `enumContext`. -/
def enumShape : Shape := .attributes
  [("name", .text), ("summary", .text),
    ("entries", .list (.texts ["name", "ident", "value", "doc"]))]

/-- An enumeration's module can always be made. -/
theorem exists_emitEnum (dialect : String) (e : EnumDef) :
    ∃ emission, emitEnum Template.render dialect e = .ok emission := by
  refine exists_emit enumShape _ (by decide +kernel) ?_
  simp [enumContext, enumShape, entryContext, numeral, Shape.texts]

/-- The shape of `dialectContext`. -/
def dialectShape : Shape := .attributes
  [("runtime", .text), ("name", .text), ("version", .text), ("endianness", .text),
    ("crc_extra", .text), ("modules", .list (.texts ["module"])),
    ("rows", .list (.texts ["id", "fingerprint", "min_len", "len", "variant", "path"])),
    ("dispatch", .list (.texts []))]

/-- A dialect's module can always be made. -/
theorem exists_emitDialect (runtime : String) (d : Dialect) (rows : List TableRow) :
    ∃ e, emitDialect Template.render runtime d rows = .ok e := by
  refine exists_emit dialectShape _ (by decide +kernel) ?_
  have hrow : ∀ r, (rowContext d.name r).Conforms
      (.texts ["id", "fingerprint", "min_len", "len", "variant", "path"]) := by
    simp [rowContext, numeral, Shape.texts]
  simp [dialectContext, dialectShape, conforms_modulesContext, conforms_onlyIf, hrow]

/-- The shape of `framingContext`. -/
def framingShape : Shape := .attributes
  [("runtime", .text), ("legacy_stx", .text), ("extended_stx", .text),
    ("legacy_header_len", .text), ("extended_header_len", .text), ("checksum_len", .text),
    ("signature_len", .text), ("signed_flag", .text),
    ("rows", .list (.texts ["id", "dialect", "name", "fingerprint"]))]

/-- The framing module can always be made. -/
theorem exists_emitFraming (runtime : String) (rows : List TableRow) :
    ∃ e, emitFraming Template.render runtime rows = .ok e := by
  refine exists_emit framingShape _ (by decide +kernel) ?_
  simp [framingContext, framingShape, framingRowContext, numeral, byteNumeral, Shape.texts]

/-- The root module can always be made. -/
theorem exists_emitRoot (dialects : List String) :
    ∃ e, emitRoot Template.render dialects = .ok e := by
  refine exists_emit (.attributes [("dialects", .list (.texts ["module"]))]) _
    (by decide +kernel) ?_
  simp [conforms_modulesContext]

end Generate

end Telemetry
