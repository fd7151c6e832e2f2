import Telemetry.Proofs.Acceptance
import Telemetry.Proofs.Generation
import Telemetry.Proofs.Leeway

/-!
# Generated code without descriptions

Messages, fields, enumerations and their values can have descriptions. Without them the same layout
is planned, the same tables are made and the same modules are generated, up to comments.

* `Dialect.bare`, `DialectSet.bare`: what is left of dialects without their descriptions.
* `LayoutPlan.ofMessage_bare`, `DialectSet.closure_bare`: what descriptions have no part in.
* `code_emitMessage`, `code_emitEnum`: modules with descriptions and without have the same code.
* `Generator.code_run_bare`: so have all modules of a set.
* `code_run_of_bare_eq`: descriptions never reach code.
-/

namespace Telemetry

/-! ## Leaving descriptions out -/

/-- A field without its description. -/
def Field.bare (f : Field) : Field := { f with description := none }

/-- A message without the descriptions in it. -/
def Message.bare (m : Message) : Message :=
  { m with description := none, fields := m.fields.map Field.bare }

/-- A value without its description. -/
def EnumEntry.bare (e : EnumEntry) : EnumEntry := { e with description := none }

/-- An enumeration without the descriptions in it. -/
def EnumDef.bare (e : EnumDef) : EnumDef :=
  { e with description := none, entries := e.entries.map EnumEntry.bare }

/-- A dialect without the descriptions in it. -/
def Dialect.bare (d : Dialect) : Dialect :=
  { d with enums := d.enums.map EnumDef.bare, messages := d.messages.map Message.bare }

/-- Dialects without the descriptions in them. -/
def DialectSet.bare (s : DialectSet) : DialectSet := ⟨s.dialects.map Dialect.bare⟩

/-! ## Plans -/

/-- A field in wire order without its description. -/
def OrderedField.bare (o : OrderedField) : OrderedField := { o with field := o.field.bare }

theorem resolveFields_bare (message : String) (fields : List (Field × Nat)) :
    Alike Eq (fun os os' => os' = os.map OrderedField.bare) (resolveFields message fields)
      (resolveFields message (fields.map fun p => (p.1.bare, p.2))) := by
  have hstep (p : Field × Nat) : Alike Eq (fun o o' => OrderedField.bare o = id o')
      (do return { index := p.2, field := p.1
                   type := ← ScalarType.resolve message p.1.name p.1.tag })
      (do return { index := p.2, field := p.1.bare
                   type := ← ScalarType.resolve message p.1.bare.name p.1.bare.tag }) := by
    refine (alike_eq_iff.2 rfl).bind fun type type' htype => ?_
    subst htype
    rfl
  refine (Alike.mapM fun p _ => hstep p).mono fun os os' hos => ?_
  rw [hos, List.map_id]

theorem widestFirst_bare (os : List OrderedField) :
    widestFirst (os.map OrderedField.bare) = (widestFirst os).map OrderedField.bare := by
  simp only [widestFirst, List.flatMap_cons, List.flatMap_nil, List.append_nil, List.map_append,
    List.filter_map]
  rfl

theorem placeSteps_bare (offset : Nat) (os : List OrderedField) :
    placeSteps offset (os.map OrderedField.bare) = placeSteps offset os := by
  induction os generalizing offset with
  | nil => rfl
  | cons o os ih =>
    rw [List.map_cons, placeSteps, ih]
    rfl

theorem wireOrder_bare (message : String) (fields : List Field) (extensionsStart : Option Nat)
    (sorted : Bool) :
    Alike Eq (fun w w' => w'.base = w.base.map OrderedField.bare ∧
        w'.extension = w.extension.map OrderedField.bare)
      (wireOrder message fields extensionsStart sorted)
      (wireOrder message (fields.map Field.bare) extensionsStart sorted) := by
  have hzip : (fields.map Field.bare).zipIdx = fields.zipIdx.map fun p => (p.1.bare, p.2) :=
    List.zipIdx_map ..
  simp only [wireOrder, hzip, List.length_map, ← List.map_take, ← List.map_drop]
  refine (resolveFields_bare ..).bind fun base base' hbase => ?_
  refine (resolveFields_bare ..).bind fun extension extension' hextension => ?_
  subst hbase hextension
  cases sorted with
  | true => exact ⟨widestFirst_bare base, widestFirst_bare extension⟩
  | false => exact ⟨rfl, rfl⟩

/-- Descriptions have no part in layouts. -/
theorem LayoutPlan.ofMessage_bare (m : Message) (sorted : Bool) :
    LayoutPlan.ofMessage m.bare sorted = LayoutPlan.ofMessage m sorted := by
  symm
  refine alike_eq_iff.1 ((wireOrder_bare ..).bind fun w w' hw => ?_)
  rw [hw.1, hw.2]
  simp only [placeSteps_bare]
  exact alike_eq_iff.2 rfl

/-! ## Sets of dialects -/

/-- The state of a walk without descriptions. -/
def Walk.bare (w : Walk) : Walk := { w with done := w.done.map Dialect.bare }

namespace DialectSet

theorem get?_bare (s : DialectSet) (name : String) :
    s.bare.get? name = (s.get? name).map Dialect.bare := by
  rw [get?, bare, List.find?_map]
  rfl

/-- Descriptions have no part in where a walk along includes leads. -/
theorem visit_bare (s : DialectSet) (depth : Nat) (d : Dialect) (w : Walk) :
    Alike Eq (fun w w' => w' = w.bare) (s.visit depth d w) (s.bare.visit depth d.bare w.bare) := by
  induction depth generalizing d w with
  | zero => exact rfl
  | succ depth ih =>
    have hname : d.bare.name = d.name := rfl
    have hvisited : w.bare.visited = w.visited := rfl
    have hincludes : d.bare.includes = d.includes.map id := (List.map_id _).symm
    rw [visit, visit, hname, hvisited, hincludes]
    split
    · exact rfl
    · refine Alike.bind (R := fun w w' => w' = w.bare) (.foldlM rfl ?_) ?_
      · rintro name - w _ rfl
        dsimp only [id]
        rw [get?_bare]
        cases s.get? name with
        | none => exact rfl
        | some inner => exact ih inner w
      · rintro w _ rfl
        change (⟨_, _⟩ : Walk) = ⟨_, (w.done ++ [d]).map Dialect.bare⟩
        rw [List.map_append]
        rfl

theorem closure_bare (s : DialectSet) (name : String) :
    Alike Eq (fun ds ds' => ds' = ds.map Dialect.bare) (s.closure name) (s.bare.closure name) := by
  have hlength : s.bare.dialects.length = s.dialects.length := List.length_map ..
  rw [closure, closure, get?_bare, hlength]
  cases s.get? name with
  | none => exact rfl
  | some d =>
    refine (visit_bare s _ d {}).bind ?_
    rintro w _ rfl
    exact rfl

end DialectSet

/-- Descriptions have no part in tables. -/
theorem Generate.Generator.tablesOf_bare (ds : List Dialect) :
    tablesOf (ds.map Dialect.bare) = tablesOf ds := by
  have hrows (d : Dialect) : (d.bare.messages.map fun m => m.row d.bare.name) =
      d.messages.map fun m => m.row d.name := by
    rw [Dialect.bare, List.map_map]
    rfl
  rw [tablesOf, tablesOf, List.flatMap_map]
  simp only [hrows]

namespace Generate

/-! ## Modules of messages and enumerations -/

/-- What counts of a module: its path, and its lines that are no comments. -/
def Emission.code (e : Emission) : String × List (List Char) :=
  (e.path, Text.code e.content.toList)

/-- A template that keeps differences in comments makes modules with the same code. -/
theorem code_emit {template : Template} {next : Spot} (p : Pairing) (path : String)
    (h : nodesLead [p.leeway] .start template = some next) :
    Alike Eq (fun e e' => Emission.code e = Emission.code e')
      (emit Template.render path template p.left) (emit Template.render path template p.right) := by
  obtain ⟨x, x', hx, hx', hcarries⟩ := nodesLead_sound [p] template h
  have hleft : Template.render template p.left = .ok x := hx
  have hright : Template.render template p.right = .ok x' := hx'
  rw [emit, emit, hleft, hright]
  exact congrArg (Prod.mk path) hcarries.code

theorem newline_notMem_summary {description : Option String} {line : String}
    (h : summary? description = some line) : '\n' ∉ line.toList := by
  obtain ⟨text, -, rfl⟩ := Option.map_eq_some_iff.1 (Option.eq_some_of_filter_eq_some h)
  exact Text.newline_notMem_oneLine text

/-- The comment that documents a definition is a line of its own. -/
theorem docComment_allowed {indent : String}
    (hindent : Spot.start.after (indent ++ "/// ").toList = some .comment)
    (description description' : Option String) :
    Leeway.comment.Allows (.text (docComment indent description))
      (.text (docComment indent description')) := by
  have hend : Spot.comment.after ['\n'] = some .start := by decide
  have hafter (description : Option String) :
      Spot.start.after (docComment indent description).toList = some .start := by
    unfold docComment
    split
    · rename_i line hline
      have htext : (s!"{indent}/// {line}\n").toList =
          (indent ++ "/// ").toList ++ line.toList ++ ['\n'] := by simp [toString]
      rw [htext]
      exact Spot.after_append
        (Spot.after_append hindent (Spot.comment_after (newline_notMem_summary hline))) hend
    · rfl
  exact ⟨hafter description, hafter description'⟩

/-- How the attributes of a field may differ. -/
def fieldLeeway : Leeway := .attributes
  [("ident", .fixed), ("rust_type", .fixed), ("zero", .fixed), ("doc", .comment)]

/-- How the attributes of a message may differ. -/
def messageLeeway : Leeway := .attributes
  [("runtime", .fixed), ("dialect", .fixed), ("name", .fixed), ("struct_name", .fixed),
    ("id", .fixed), ("crc_extra", .fixed), ("min_len", .fixed), ("len", .fixed),
    ("doc", .asides ["line"]), ("fields", .items fieldLeeway),
    ("texts", .items (.texts ["field", "ident", "getter", "setter", "capacity"])),
    ("encode_base", .items (.texts ["line"])), ("encode_ext", .items (.texts ["line"])),
    ("decode_base", .items (.texts ["line"])), ("decode_ext", .items (.texts ["line"])),
    ("extensions", .items (.texts []))]

theorem messageTemplate_leads : nodesLead [messageLeeway] .start messageTemplate = some .start := by
  decide +kernel

theorem fieldContext_allowed (f : Field) (step : Step) :
    fieldLeeway.Allows (fieldContext f step) (fieldContext f.bare step) := by
  simp only [fieldContext, fieldLeeway, allows_cons]
  exact ⟨allows_fixed _, allows_fixed _, allows_fixed _, docComment_allowed (by decide) _ _,
    allows_nil⟩

theorem declaredSteps_bare (m : Message) (plan : LayoutPlan) :
    declaredSteps m.bare plan = (declaredSteps m plan).map fun p => (p.1.bare, p.2) := by
  have hzip : (m.fields.map Field.bare).zipIdx = m.fields.zipIdx.map fun p => (p.1.bare, p.2) :=
    List.zipIdx_map ..
  rw [declaredSteps, Message.bare, hzip, List.filterMap_map, declaredSteps, List.map_filterMap]
  congr 1
  funext p
  simp only [Function.comp_apply]
  cases plan.steps.find? (·.index == p.2) <;> rfl

theorem messageContext_allowed (runtime dialect : String) (m : Message) (plan : LayoutPlan) :
    messageLeeway.Allows (messageContext runtime dialect m plan)
      (messageContext runtime dialect m.bare plan) := by
  have hremarks (description : Option String) : ∀ c ∈ (summary? description).toList.map fun line =>
      Context.attributes [("line", .text line)], c.HasRemarks ["line"] := by
    intro c hc name hname
    obtain ⟨line, hline, rfl⟩ := List.mem_map.1 hc
    rw [List.mem_singleton.1 hname]
    exact ⟨line, rfl, newline_notMem_summary (Option.mem_toList.1 hline)⟩
  have hfields : (Leeway.items fieldLeeway).Allows
      (.list ((declaredSteps m plan).map fun p => fieldContext p.1 p.2))
      (.list ((declaredSteps m.bare plan).map fun p => fieldContext p.1 p.2)) := by
    rw [declaredSteps_bare, List.map_map]
    exact items_allows fun p _ => fieldContext_allowed p.1 p.2
  have htexts : (Leeway.items (.texts ["field", "ident", "getter", "setter", "capacity"])).Allows
      (.list ((declaredSteps m plan).filterMap fun p => textContext? p.2))
      (.list ((declaredSteps m.bare plan).filterMap fun p => textContext? p.2)) := by
    rw [declaredSteps_bare, List.filterMap_map]
    refine items_texts_allows (Context.conforms_list.2 fun c hc => ?_)
    obtain ⟨p, -, hp⟩ := List.mem_filterMap.1 hc
    exact conforms_textContext? hp
  have hstatements (line : Access → String) (steps : List Step) :
      (Leeway.items (.texts ["line"])).Allows (statements line steps) (statements line steps) :=
    items_texts_allows (conforms_statements line steps)
  have hextensions := items_texts_allows (conforms_onlyIf plan.hasExtensions)
  simp only [messageContext, messageLeeway, numeral, allows_cons]
  exact ⟨allows_fixed _, allows_fixed _, allows_fixed _, allows_fixed _, allows_fixed _,
    allows_fixed _, allows_fixed _, allows_fixed _, ⟨hremarks _, hremarks _⟩, hfields, htexts,
    hstatements _ _, hstatements _ _, hstatements _ _, hstatements _ _, hextensions, allows_nil⟩

/-- How the attributes of a value may differ. -/
def entryLeeway : Leeway := .attributes
  [("name", .fixed), ("ident", .fixed), ("value", .fixed), ("doc", .comment)]

/-- How the attributes of an enumeration may differ. -/
def enumLeeway : Leeway := .attributes
  [("name", .word), ("summary", .remark), ("entries", .items entryLeeway)]

theorem enumTemplate_leads : nodesLead [enumLeeway] .start enumTemplate = some .start := by
  decide +kernel

theorem entryContext_allowed (e : EnumEntry) :
    entryLeeway.Allows (entryContext e) (entryContext e.bare) := by
  simp only [entryContext, entryLeeway, numeral, allows_cons]
  exact ⟨allows_fixed _, allows_fixed _, allows_fixed _, docComment_allowed (by decide) _ _,
    allows_nil⟩

theorem exists_enumContext (e : EnumDef) : ∃ summary : String, '\n' ∉ summary.toList ∧
    enumContext e = .attributes [("name", .text e.name), ("summary", .text summary),
      ("entries", .list (e.entries.map entryContext))] := by
  unfold enumContext
  split
  · rename_i line hline
    refine ⟨_, ?_, rfl⟩
    simpa [toString] using newline_notMem_summary hline
  · exact ⟨_, List.not_mem_nil, rfl⟩

theorem enumContext_allowed {e : EnumDef} (hname : '\n' ∉ e.name.toList) :
    enumLeeway.Allows (enumContext e) (enumContext e.bare) := by
  obtain ⟨summary, hsummary, hcontext⟩ := exists_enumContext e
  obtain ⟨summary', hsummary', hcontext'⟩ := exists_enumContext e.bare
  have hentries : (Leeway.items entryLeeway).Allows (.list (e.entries.map entryContext))
      (.list (e.bare.entries.map entryContext)) := by
    rw [EnumDef.bare, List.map_map]
    exact items_allows fun entry _ => entryContext_allowed entry
  rw [hcontext, hcontext', enumLeeway, EnumDef.bare]
  simp only [allows_cons]
  exact ⟨⟨rfl, hname⟩, ⟨hsummary, hsummary'⟩, hentries, allows_nil⟩

/-- A message's module has the same code without descriptions. -/
theorem code_emitMessage (runtime dialect : String) (m : Message) (plan : LayoutPlan) :
    Alike Eq (fun e e' => Emission.code e = Emission.code e')
      (emitMessage Template.render runtime dialect m plan)
      (emitMessage Template.render runtime dialect m.bare plan) :=
  code_emit ⟨_, _, _, messageContext_allowed runtime dialect m plan⟩ _ messageTemplate_leads

/-- An enumeration's module has the same code without descriptions. -/
theorem code_emitEnum (dialect : String) {e : EnumDef} (hname : '\n' ∉ e.name.toList) :
    Alike Eq (fun e e' => Emission.code e = Emission.code e')
      (emitEnum Template.render dialect e) (emitEnum Template.render dialect e.bare) :=
  code_emit ⟨_, _, _, enumContext_allowed hname⟩ _ enumTemplate_leads

/-! ## All modules -/

/-- What counts of a message: what identifies it, its plan, and its module without comments. -/
def MessageUnit.code (u : MessageUnit) :
    (Nat × String × UInt8 × LayoutPlan) × String × List (List Char) :=
  ((u.id, u.name, u.fingerprint, u.plan), u.emission.code)

/-- What counts of a dialect: its tables, its messages, and its modules without comments. -/
def DialectOutput.code (o : DialectOutput) :
    MessageTables × List ((Nat × String × UInt8 × LayoutPlan) × String × List (List Char)) ×
      List (String × List (List Char)) :=
  (o.tables, o.units.map MessageUnit.code, o.emissions.map Emission.code)

/-- What counts of a generation: its modules without comments, its tables and its dispatch table. -/
def Generation.code (g : Generation) :
    List (String × List (List Char)) × List MessageTables × DispatchTable :=
  (g.emissions.map Emission.code, g.dialects.map (·.tables), g.dispatch)

namespace Generator

variable {g : Generator}

theorem buildUnit_bare (hg : g.render = Template.render) (d : Dialect) (m : Message) :
    Alike Eq (fun u u' => u.code = u'.code) (g.buildUnit d m)
      (g.buildUnit d.bare m.bare) := by
  rw [buildUnit, buildUnit, LayoutPlan.ofMessage_bare, hg]
  refine Alike.bind_same fun plan => ?_
  refine ((code_emitMessage g.runtime d.name m plan).lift CompileError.template).bind ?_
  intro e e' he
  exact Prod.ext rfl he

theorem buildUnits_bare (hg : g.render = Template.render) (d : Dialect) :
    Alike Eq (fun us us' => us.map MessageUnit.code = us'.map MessageUnit.code) (g.buildUnits d)
      (g.buildUnits d.bare) := by
  rw [buildUnits_eq, buildUnits_eq]
  exact Alike.mapM fun m _ => buildUnit_bare hg d m

theorem dialectContext_bare (runtime : String) (d : Dialect) (rows : List TableRow) :
    dialectContext runtime d.bare rows = dialectContext runtime d rows := by
  simp only [dialectContext, Dialect.bare, List.map_map]
  rfl

/-- Checks of fingerprints ask for the ids of messages only. -/
theorem forM_checkFingerprint (tables : MessageTables) {us us' : List MessageUnit}
    (h : us.map MessageUnit.code = us'.map MessageUnit.code) :
    us.forM (checkFingerprint tables) = us'.forM (checkFingerprint tables) := by
  have hids (us : List MessageUnit) : us.forM (checkFingerprint tables) =
      (us.map MessageUnit.code).forM fun c => if tables.fingerprints.contains c.1.1 then .ok ()
        else .error (.missingFingerprint c.1.1) := by
    rw [List.forM_eq_forM, List.forM_eq_forM, List.forM_map]
    rfl
  rw [hids, hids, h]

theorem code_eq_of_parts {o o' : DialectOutput} (htables : o.tables = o'.tables)
    (hunits : o.units.map MessageUnit.code = o'.units.map MessageUnit.code)
    (henums : o.enums.map Emission.code = o'.enums.map Emission.code)
    (hmodule : o.module = o'.module) : o.code = o'.code := by
  have hcodes (us : List MessageUnit) :
      (us.map (·.emission)).map Emission.code = (us.map MessageUnit.code).map (·.2) := by
    rw [List.map_map, List.map_map]
    rfl
  simp only [DialectOutput.code, DialectOutput.emissions, List.map_append, hcodes, htables, hunits,
    henums, hmodule]

theorem assemble_bare (hg : g.render = Template.render) {s : DialectSet}
    (hs : ∀ d ∈ s.dialects, ∀ e ∈ d.enums, '\n' ∉ e.name.toList) (name : String) :
    Alike Eq (fun o o' => o.code = o'.code) (g.assemble s name)
      (g.assemble s.bare name) := by
  rw [assemble, assemble]
  refine ((s.closure_bare name).lift CompileError.schema).bind ?_
  rintro closure _ rfl
  rw [DialectSet.get?_bare]
  cases hd : s.get? name with
  | none => exact rfl
  | some d =>
    have henums := hs d (List.mem_of_find?_eq_some hd)
    dsimp only [Option.map_some]
    rw [tablesOf_bare]
    refine Alike.bind_same fun tables => ?_
    refine (buildUnits_bare hg d).bind fun units units' hunits => ?_
    rw [forM_checkFingerprint tables hunits]
    refine Alike.bind_same fun _ => ?_
    have hmapM : Alike Eq (fun es es' => es.map Emission.code = es'.map Emission.code)
        (d.enums.mapM (emitEnum g.render d.name))
        (d.bare.enums.mapM (emitEnum g.render d.bare.name)) := by
      rw [hg]
      exact Alike.mapM fun e he => code_emitEnum d.name (henums e he)
    refine (hmapM.lift CompileError.template).bind fun enums enums' henums => ?_
    rw [emitDialect, emitDialect, dialectContext_bare]
    refine Alike.bind_same fun module => ?_
    exact code_eq_of_parts rfl hunits henums rfl

theorem code_eq_of_outputs {outputs outputs' : List DialectOutput} {dispatch : DispatchTable}
    {framing root : Emission}
    (h : outputs.map DialectOutput.code = outputs'.map DialectOutput.code) :
    Generation.code ⟨outputs, dispatch, framing, root⟩ =
      Generation.code ⟨outputs', dispatch, framing, root⟩ := by
  have hemissions (outputs : List DialectOutput) :
      (outputs.flatMap (·.emissions)).map Emission.code =
        (outputs.map DialectOutput.code).flatMap (·.2.2) := by
    rw [List.map_flatMap, List.flatMap_map]
    rfl
  have htables (outputs : List DialectOutput) :
      outputs.map (·.tables) = (outputs.map DialectOutput.code).map (·.1) := by
    rw [List.map_map]
    rfl
  simp only [Generation.code, Generation.emissions, List.map_append, hemissions, htables, h]

/-- Generating the modules of a further dialect gives the same code without descriptions. -/
theorem addOutput_bare (hg : g.render = Template.render) {s : DialectSet}
    (hs : ∀ d ∈ s.dialects, ∀ e ∈ d.enums, '\n' ∉ e.name.toList) (d : Dialect)
    {state state' : List DialectOutput × DispatchTable}
    (hstate : state.1.map DialectOutput.code = state'.1.map DialectOutput.code ∧
      state.2 = state'.2) :
    Alike Eq (fun state state' => state.1.map DialectOutput.code = state'.1.map DialectOutput.code ∧
        state.2 = state'.2) (g.addOutput s state d) (g.addOutput s.bare state' d.bare) := by
  have hadd (us : List MessageUnit) (table : DispatchTable) :
      us.foldlM (fun table u => table.add (u.entry d)) table =
        (us.map MessageUnit.code).foldlM (fun table c => table.add
          ⟨d.name, c.1.2.1, c.1.2.2.1, d.flags.order, c.1.2.2.2⟩) table := by
    rw [List.foldlM_map]
    rfl
  refine (assemble_bare hg hs d.name).bind fun o o' ho => ?_
  have hunits : o.units.map MessageUnit.code = o'.units.map MessageUnit.code := congrArg (·.2.1) ho
  have hdispatch : o.units.foldlM (fun table u => table.add (u.entry d)) state.2 =
      o'.units.foldlM (fun table u => table.add (u.entry d.bare)) state'.2 := by
    rw [hadd, hunits, hstate.2]
    exact (hadd o'.units state'.2).symm
  rw [hdispatch]
  refine Alike.bind_same fun dispatch => ?_
  refine ⟨?_, rfl⟩
  change (state.1 ++ [o]).map DialectOutput.code = (state'.1 ++ [o']).map DialectOutput.code
  rw [List.map_append, List.map_append, hstate.1, List.map_singleton, List.map_singleton, ho]

/-- **Without descriptions the same code is generated.** -/
theorem code_run_bare (hg : g.render = Template.render) {s : DialectSet}
    (hs : ∀ d ∈ s.dialects, ∀ e ∈ d.enums, '\n' ∉ e.name.toList) :
    (g.run s).map Generation.code = (g.run s.bare).map Generation.code := by
  refine Alike.map_eq ?_
  refine Alike.bind (R := fun state state' =>
      state.1.map DialectOutput.code = state'.1.map DialectOutput.code ∧ state.2 = state'.2)
    (.foldlM ⟨rfl, rfl⟩ fun d _ state state' => addOutput_bare hg hs d) ?_
  rintro ⟨outputs, dispatch⟩ ⟨outputs', _⟩ ⟨houtputs, rfl⟩
  refine Alike.bind_same fun framing => ?_
  have hnames : s.bare.dialects.map (·.name) = s.dialects.map (·.name) := by
    rw [DialectSet.bare, List.map_map]
    rfl
  rw [hnames]
  refine Alike.bind_same fun root => ?_
  exact code_eq_of_outputs houtputs

end Generator

/-- **Descriptions never reach code.** Take two sets of dialects that were read from texts and that
are the same but for descriptions: of messages, fields, enumerations and their values. Generation
fails for both with the same fault, or for neither. If it does not fail, it makes the same tables,
the same dispatch table, and modules with the same paths and the same lines once comments are left
out. -/
theorem code_run_of_bare_eq {g : Generator} (hg : g.render = Template.render) {s s' : DialectSet}
    (hs : ∀ d ∈ s.dialects, ∃ text fallback, Source.dialectOf text fallback = .ok d)
    (hs' : ∀ d ∈ s'.dialects, ∃ text fallback, Source.dialectOf text fallback = .ok d)
    (h : s.bare = s'.bare) :
    (g.run s).map Generation.code = (g.run s').map Generation.code := by
  have hnames {s : DialectSet}
      (hs : ∀ d ∈ s.dialects, ∃ text fallback, Source.dialectOf text fallback = .ok d) :
      ∀ d ∈ s.dialects, ∀ e ∈ d.enums, '\n' ∉ e.name.toList := by
    intro d hd e he
    obtain ⟨text, fallback, htext⟩ := hs d hd
    exact notMem_of_isName ((Source.dialectOf_eq_ok htext).2.1.enums e he) (by decide)
  rw [Generator.code_run_bare hg (hnames hs), Generator.code_run_bare hg (hnames hs'), h]

/-- A file with descriptions that would be code if they were not kept on the lines of comments. -/
def describedText : String :=
  "dialect t; option no_crc_extra; " ++
    "enum E \"e\\n$\x7bname\x7d\" \x7b X = 1 \"x\\n;\"; \x7d " ++
    "message M = 1 \"m\\n\\\"\" \x7b a: uint8_t \"a\\nb,\"; \x7d"

/-- The same file without them. -/
def plainText : String :=
  "dialect t; option no_crc_extra; enum E \x7b X = 1; \x7d message M = 1 \x7b a: uint8_t; \x7d"

/-- The dialect of the file with descriptions. -/
def described : Dialect where
  name := "t"
  flags := { fingerprints := false }
  enums :=
    [{ name := "E", description := some "e\n$\x7bname\x7d"
       entries := [⟨"X", 1, some "x\n;"⟩] }]
  messages :=
    [{ id := 1, name := "M", description := some "m\n\""
       fields := [⟨"a", "uint8_t", 0, some "a\nb,"⟩]
       fingerprint := 0, baseLength := 1, fullLength := 1 }]

theorem code_run_of_bare_eq_described :
    Dialect.ofText describedText = .ok described ∧ Dialect.ofText plainText = .ok described.bare ∧
      described ≠ described.bare ∧
      ∃ generation generation', ({} : Generator).run ⟨[described]⟩ = .ok generation ∧
        ({} : Generator).run ⟨[described.bare]⟩ = .ok generation' ∧
        generation.code = generation'.code := by
  have hdescribed : Dialect.ofText describedText = .ok described :=
    eq_ok_of_toOption (by decide +kernel)
  have hplain : Dialect.ofText plainText = .ok described.bare :=
    eq_ok_of_toOption (by decide +kernel)
  have hread {d : Dialect} {text : String} (h : Dialect.ofText text = .ok d) :
      ∀ d' ∈ (DialectSet.mk [d]).dialects, ∃ text fallback,
        Source.dialectOf text fallback = .ok d' := by
    intro d' hd'
    rw [List.mem_singleton.1 hd']
    exact ⟨text, none, h⟩
  have hcode := code_run_of_bare_eq (g := {}) rfl (hread hdescribed) (hread hplain) rfl
  obtain ⟨generation, hrun, -⟩ := exists_of_toOption_map
    (by decide +kernel : (({} : Generator).run ⟨[described]⟩).toOption.map
      (fun generation => generation.emissions.length) = some 5)
  obtain ⟨generation', hrun', -⟩ := exists_of_toOption_map
    (by decide +kernel : (({} : Generator).run ⟨[described.bare]⟩).toOption.map
      (fun generation => generation.emissions.length) = some 5)
  rw [hrun, hrun'] at hcode
  exact ⟨hdescribed, hplain, by decide, generation, generation', hrun, hrun',
    Except.ok.inj hcode⟩

end Generate

end Telemetry
