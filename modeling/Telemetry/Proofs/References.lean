import Telemetry.Proofs.Emissions
import Telemetry.Proofs.Lines

/-!
# What generated modules refer to

The module of a dialect names the types of all messages of its tables, its own and those that it
includes, by paths through other modules. Such a path leads to the module that declares the type,
with the constants that the tables have, as long as no two dialects share a module.

* `dialectModuleName_eq_iff`: which dialects share a module.
* `Emission.Declares`, `Emission.RefersTo`: what the modules of messages and dialects say of a row of
  tables. `declares_of_emitMessage` and `refersTo_of_emitDialect` are what they are generated with.
* `Generation.Resolves`: what has to be there for a row.
* `rows_resolve`: what the paths in the modules of dialects lead to.
* `shadowed_unresolved`: dialects that share a module, and a path that leads nowhere.
-/

namespace Telemetry.Generate

open Source (isName)

/-! ## Names on lines -/

theorem newline_notMem_lowered {name : String} (h : isName name = true) :
    '\n' ∉ (lowered name).toList :=
  notMem_lowered h (by decide) (by decide)

theorem newline_notMem_dialectModuleName {name : String} (h : isName name = true) :
    '\n' ∉ (dialectModuleName name).toList :=
  notMem_identifier (newline_notMem_lowered h) (by decide)

theorem mem_of_mem_parts {name : String} {part : List Char} (hpart : part ∈ parts name) {c : Char}
    (hc : c ∈ part) : c ∈ name.toList := by
  unfold parts at hpart
  generalize name.toList = cs at hpart ⊢
  induction cs generalizing part with
  | nil =>
    rw [List.mem_singleton.1 hpart] at hc
    cases hc
  | cons x cs ih =>
    rw [List.foldr_cons] at hpart
    split at hpart
    · rcases List.mem_cons.1 hpart with rfl | hpart
      · cases hc
      · exact List.mem_cons_of_mem x (ih hc hpart)
    · split at hpart
      · rw [List.mem_singleton.1 hpart, List.mem_singleton] at hc
        exact hc ▸ List.mem_cons_self
      · rename_i first rest heq
        rw [heq] at ih
        rcases List.mem_cons.1 hpart with rfl | hpart
        · rcases List.mem_cons.1 hc with rfl | hc
          · exact List.mem_cons_self
          · exact List.mem_cons_of_mem x (ih hc List.mem_cons_self)
        · exact List.mem_cons_of_mem x (ih hc (List.mem_cons_of_mem first hpart))

/-- A character that is no letter is no other's upper case. -/
theorem eq_of_toUpper_eq {c x : Char} (hx : x.toNat < 65) (h : c.toUpper = x) : c = x := by
  unfold Char.toUpper at h
  split at h
  · rename_i hc
    have hval := congrArg (fun c => c.val.toNat) h
    have hlow := UInt32.le_iff_toNat_le.1 hc.1
    have hhigh := UInt32.le_iff_toNat_le.1 hc.2
    simp at hval hlow hhigh
    omega
  · exact h

theorem newline_notMem_capitalize {cs : List Char} (h : '\n' ∉ cs) : '\n' ∉ capitalize cs := by
  cases cs with
  | nil => exact h
  | cons c rest =>
    rw [capitalize, List.mem_cons, List.mem_map]
    rintro (hupper | ⟨x, hx, hlower⟩)
    · exact h (eq_of_toUpper_eq (by decide) hupper.symm ▸ List.mem_cons_self)
    · exact h (eq_of_toLower_eq (by decide) hlower ▸ List.mem_cons_of_mem c hx)

theorem newline_notMem_typeName {name : String} (h : isName name = true) :
    '\n' ∉ (typeName name).toList := by
  rw [typeName, String.toList_ofList, List.mem_flatMap]
  rintro ⟨part, hpart, hmem⟩
  refine newline_notMem_capitalize (fun hc => ?_) hmem
  exact notMem_of_isName h (by decide) (mem_of_mem_parts hpart hc)

theorem newline_notMem_toString (n : Nat) : '\n' ∉ (toString n).toList := by
  intro h
  have hdigits : '\n' ∈ Nat.toDigits 10 n := by simpa using h
  have hdigit := Nat.isDigit_of_mem_toDigits (by decide) (by decide) hdigits
  cases hdigit

/-! ## Modules of dialects -/

/-- Names that become one module: a reserved word, and the word with the mark that sets it apart. -/
def Shadows (name name' : String) : Prop :=
  lowered name ∈ reserved ∧ lowered name' = lowered name ++ "_"

theorem identifier_cases (name : String) :
    (name ∈ reserved ∧ identifier name = name ++ "_") ∨ identifier name = "r#" ++ name ∨
      identifier name = name := by
  unfold identifier
  split
  · exact .inl ⟨‹_›, rfl⟩
  · split
    · exact .inr (.inl rfl)
    · exact .inr (.inr rfl)

theorem identifier_eq_iff {name name' : String} (h : '#' ∉ name.toList) (h' : '#' ∉ name'.toList) :
    identifier name = identifier name' ↔ name = name' ∨
      (name ∈ reserved ∧ name' = name ++ "_") ∨ (name' ∈ reserved ∧ name = name' ++ "_") := by
  have hmarked : ∀ word ∈ reserved, identifier (word ++ "_") = identifier word := by decide
  have hne {word rest : String} (hword : '#' ∉ word.toList) : word ≠ "r#" ++ rest := by
    rintro rfl
    simp at hword
  constructor
  · intro heq
    rcases identifier_cases name with ⟨hname, hid⟩ | hid | hid <;>
      rcases identifier_cases name' with ⟨hname', hid'⟩ | hid' | hid' <;> rw [hid, hid'] at heq
    · exact .inl (by simpa [← String.toList_inj] using heq)
    · exact absurd heq (hne (by simpa using h))
    · exact .inr (.inl ⟨hname, heq.symm⟩)
    · exact absurd heq.symm (hne (by simpa using h'))
    · exact .inl (by simpa [← String.toList_inj] using heq)
    · exact absurd heq.symm (hne h')
    · exact .inr (.inr ⟨hname', heq⟩)
    · exact absurd heq (hne h)
    · exact .inl heq
  · rintro (rfl | ⟨hname, rfl⟩ | ⟨hname, rfl⟩)
    · rfl
    · exact (hmarked name hname).symm
    · exact hmarked name' hname

/-- Dialects share a module if their names are the same but for the case of letters, or if one is
a reserved word and the other one the word with a mark. -/
theorem dialectModuleName_eq_iff {name name' : String} (h : isName name = true)
    (h' : isName name' = true) :
    dialectModuleName name = dialectModuleName name' ↔
      lowered name = lowered name' ∨ Shadows name name' ∨ Shadows name' name :=
  identifier_eq_iff (notMem_lowered h (by decide) (by decide))
    (notMem_lowered h' (by decide) (by decide))

/-! ## Lines of modules -/

/-- A line with one attribute. -/
theorem hasLine_of_attribute {path : String} {template : Template} {context : Context}
    {e : Emission} (h : emit Template.render path template context = .ok e) (name : String)
    {first last value : String} {names : List String} {scopes : List Context}
    (hwrites : nodesWrite [.text first, .attribute name, .text (last ++ "\n")] names true template =
      true)
    (hleads : Leads [context] names scopes)
    (hvalue : findAttribute scopes name = .ok (.text value))
    (hnewline : '\n' ∉ (first ++ value ++ last).toList) : e.HasLine (first ++ value ++ last) := by
  refine hasLine_of_emit h _ hwrites hleads ?_ hnewline
  simp [renderAll, Piece.node, Node.renderIn, hvalue, bind, Except.bind, pure, Except.pure,
    String.append_assoc]

/-- The module of a message declares its type and has the constants of a row. -/
structure Emission.Declares (e : Emission) (r : TableRow) : Prop where
  type : e.HasLine ("pub struct " ++ typeName r.name ++ " \x7b")
  id : e.HasLine ("    pub const ID: u32 = " ++ toString r.id ++ ";")
  fingerprint : e.HasLine ("    pub const CRC_EXTRA: u8 = " ++ toString r.fingerprint.toNat ++ ";")
  baseLength : e.HasLine ("    pub const MIN_LEN: usize = " ++ toString r.baseLength ++ ";")
  fullLength : e.HasLine ("    pub const LEN: usize = " ++ toString r.fullLength ++ ";")

theorem declares_of_emitMessage {runtime dialect : String} {m : Message} {plan : LayoutPlan}
    {e : Emission} (h : emitMessage Template.render runtime dialect m plan = .ok e)
    (hname : isName m.name = true) (hbase : plan.baseLength = m.baseLength)
    (hfull : plan.fullLength = m.fullLength) : e.Declares (m.row dialect) := by
  have hline (first name last : String) {value : String}
      (hwrites : nodesWrite [.text first, .attribute name, .text (last ++ "\n")] [] true
        messageTemplate = true)
      (hvalue : findAttribute [messageContext runtime dialect m plan] name = .ok (.text value))
      (hnewline : '\n' ∉ (first ++ value ++ last).toList) : e.HasLine (first ++ value ++ last) :=
    hasLine_of_attribute h name hwrites (.here _) hvalue hnewline
  have htype := newline_notMem_typeName hname
  refine ⟨?_, ?_, ?_, ?_, ?_⟩
  · exact hline "pub struct " "struct_name" " \x7b" (by decide +kernel) rfl
      (by simpa [Message.row] using htype)
  · exact hline _ "id" ";" (by decide +kernel) rfl (by simpa using newline_notMem_toString _)
  · exact hline _ "crc_extra" ";" (by decide +kernel) rfl
      (by simpa using newline_notMem_toString _)
  · rw [Message.row, ← hbase]
    exact hline _ "min_len" ";" (by decide +kernel) rfl (by simpa using newline_notMem_toString _)
  · rw [Message.row, ← hfull]
    exact hline _ "len" ";" (by decide +kernel) rfl (by simpa using newline_notMem_toString _)

/-- A line for each module of a list. -/
theorem hasLine_of_modules {path : String} {template : Template} {context : Context} {e : Emission}
    (h : emit Template.render path template context = .ok e) {name : String} {modules : List String}
    (hwrites : nodesWrite [.text "pub mod ", .attribute "module", .text (";" ++ "\n")] [name] true
      template = true)
    (hfind : findAttribute [context] name = .ok (modulesContext modules)) {module : String}
    (hmem : module ∈ modules) (hnewline : '\n' ∉ module.toList) :
    e.HasLine ("pub mod " ++ module ++ ";") :=
  hasLine_of_attribute h "module" hwrites (.item hfind (List.mem_map_of_mem hmem) (.here _)) rfl
    (by simpa using hnewline)

/-- The module of a dialect declares the modules of its messages. -/
theorem hasLine_emitDialect {runtime : String} {d : Dialect} {rows : List TableRow} {e : Emission}
    (h : emitDialect Template.render runtime d rows = .ok e) {m : Message} (hm : m ∈ d.messages)
    (hname : isName m.name = true) : e.HasLine ("pub mod " ++ messageModuleName m.name ++ ";") := by
  refine hasLine_of_modules h (by decide +kernel : nodesWrite _ ["modules"] true _ = true) rfl
    (List.mem_append_left _ (List.mem_map_of_mem hm)) ?_
  simpa [messageModuleName] using newline_notMem_lowered hname

/-- The root module declares the modules of dialects. -/
theorem hasLine_emitRoot {names : List String} {e : Emission}
    (h : emitRoot Template.render names = .ok e) {name : String} (hmem : name ∈ names)
    (hname : isName name = true) : e.HasLine ("pub mod " ++ dialectModuleName name ++ ";") :=
  hasLine_of_modules h (by decide +kernel : nodesWrite _ ["dialects"] true _ = true) rfl
    (List.mem_map_of_mem hmem) (newline_notMem_dialectModuleName hname)

/-- The path of a message's type in the module of its dialect. -/
def localPath (r : TableRow) : String := messageModuleName r.name ++ "::" ++ typeName r.name

theorem typePath_eq (dialect : String) (r : TableRow) :
    typePath dialect r =
      if dialectModuleName r.dialect = dialectModuleName dialect then localPath r
      else "super::" ++ dialectModuleName r.dialect ++ "::" ++ localPath r := by
  by_cases h : dialectModuleName r.dialect = dialectModuleName dialect
  · simp [typePath, localPath, h, toString]
  · simp [typePath, localPath, h, toString, String.append_assoc]

theorem newline_notMem_typePath {r : TableRow} (hname : isName r.name = true)
    (hdialect : isName r.dialect = true) (dialect : String) :
    '\n' ∉ (typePath dialect r).toList := by
  have hlowered := newline_notMem_lowered hname
  have htype := newline_notMem_typeName hname
  have hmodule := newline_notMem_dialectModuleName hdialect
  rw [typePath_eq, localPath, messageModuleName]
  split
  · simp [hlowered, htype]
  · simp [hlowered, htype, hmodule]

/-- The module of a dialect refers to the type of every row of its tables. -/
structure Emission.RefersTo (e : Emission) (path : String) (r : TableRow) : Prop where
  variant : e.HasLine ("    " ++ typeName r.name ++ "(" ++ path ++ "),")
  unpack : e.HasLine ("            " ++ toString r.id ++ " => Message::" ++ typeName r.name ++
    "(" ++ path ++ "::unpack(&packet.payload, packet.version)?),")

theorem refersTo_of_emitDialect {runtime : String} {d : Dialect} {rows : List TableRow}
    {e : Emission} (h : emitDialect Template.render runtime d rows = .ok e) {r : TableRow}
    (hr : r ∈ rows) (hname : isName r.name = true) (hdialect : isName r.dialect = true) :
    e.RefersTo (typePath d.name r) r := by
  have hleads : Leads [dialectContext runtime d rows] ["dispatch", "rows"]
      [rowContext d.name r, .attributes [], dialectContext runtime d rows] := by
    have hrows : rows.isEmpty = false := by
      cases rows with
      | nil => cases hr
      | cons => rfl
    have hfind : findAttribute [dialectContext runtime d rows] "dispatch" =
        .ok (.list [.attributes []]) := by
      change Except.ok (onlyIf !rows.isEmpty) = _
      rw [hrows]
      rfl
    exact .item hfind List.mem_cons_self (.item rfl (List.mem_map_of_mem hr) (.here _))
  have hpath := newline_notMem_typePath hname hdialect d.name
  have htype := newline_notMem_typeName hname
  have hid := newline_notMem_toString r.id
  let scopes := [rowContext d.name r, .attributes [], dialectContext runtime d rows]
  have hvariant : findAttribute scopes "variant" = .ok (.text (typeName r.name)) := rfl
  have hreference : findAttribute scopes "path" = .ok (.text (typePath d.name r)) := rfl
  have hnumber : findAttribute scopes "id" = .ok (.text (toString r.id)) := rfl
  constructor
  · refine hasLine_of_emit h [.text "    ", .attribute "variant", .text "(", .attribute "path",
      .text "),\n"] (by decide +kernel) hleads ?_ (by simp [htype, hpath])
    simp [renderAll, Piece.node, Node.renderIn, hvariant, hreference, scopes, bind, Except.bind,
      pure, Except.pure, ← String.toList_inj]
  · refine hasLine_of_emit h [.text "            ", .attribute "id", .text " => Message::",
      .attribute "variant", .text "(", .attribute "path",
      .text "::unpack(&packet.payload, packet.version)?),\n"] (by decide +kernel) hleads ?_
      (by simpa [htype, hpath] using hid)
    simp [renderAll, Piece.node, Node.renderIn, hvariant, hreference, hnumber, scopes, bind,
      Except.bind, pure, Except.pure, ← String.toList_inj]

/-! ## Rows -/

namespace Generator

variable {g : Generator} {s : DialectSet}

/-- The rows of a closure are those of the messages of its dialects. -/
theorem row_of_tablesOf {ds : List Dialect} {tables : MessageTables}
    (h : tablesOf ds = .ok tables) {r : TableRow} (hr : r ∈ tables.rows.values) :
    ∃ d ∈ ds, ∃ m ∈ d.messages, r = m.row d.name := by
  obtain ⟨d, hd, hr⟩ := List.mem_flatMap.1 ((MessageTables.lists_ofRows h).mem_values_iff.1 hr)
  obtain ⟨m, hm, rfl⟩ := List.mem_map.1 hr
  exact ⟨d, hd, m, hm, rfl⟩

/-- The module of a message says what the row of the message says. -/
theorem declares_of_buildUnit (hg : g.render = Template.render) {d : Dialect} {m : Message}
    {u : MessageUnit} (h : g.buildUnit d m = .ok u) (hname : isName m.name = true) :
    u.emission.Declares (m.row d.name) := by
  obtain ⟨plan, hplan, h⟩ := bind_eq_ok_iff.1 h
  obtain ⟨emission, hemission, h⟩ := bind_eq_ok_iff.1 h
  cases h
  rw [liftTemplate, mapError_eq_ok_iff, hg] at hemission
  obtain ⟨-, -, -, -, -, -, -, -, hbase, hfull⟩ :=
    LayoutPlan.ofMessage_eq_ok (mapError_eq_ok_iff.1 hplan)
  exact declares_of_emitMessage hemission hname hbase hfull

end Generator

/-- What has to be there for a row of tables: the module of the message in that of its dialect, and
both declared by the modules above them. -/
structure Generation.Resolves (generation : Generation) (r : TableRow) (owner : DialectOutput) :
    Prop where
  mem : owner ∈ generation.dialects
  name : owner.name = r.dialect
  message : ∃ e ∈ generation.emissions,
    e.path = modulePath r.dialect (messageModuleName r.name) ∧ e.Declares r
  module_path : owner.module.path = modulePath r.dialect "mod"
  module : owner.module.HasLine ("pub mod " ++ messageModuleName r.name ++ ";")
  root_path : generation.root.path = "mod.rs"
  root : generation.root.HasLine ("pub mod " ++ dialectModuleName r.dialect ++ ";")

theorem DialectOutput.mem_emissions {generation : Generation} {o : DialectOutput}
    (ho : o ∈ generation.dialects) {u : MessageUnit} (hu : u ∈ o.units) :
    u.emission ∈ generation.emissions := by
  refine List.mem_append_left _ (List.mem_flatMap.2 ⟨o, ho, ?_⟩)
  exact List.mem_append_left _ (List.mem_append_left _ (List.mem_map_of_mem hu))

namespace Generator

variable {g : Generator} {s : DialectSet} (hs : (s.dialects.map (·.name)).Nodup)
  (hg : g.render = Template.render)
include hs hg

/-- All that a message needs is generated with its dialect. -/
theorem resolves_of_run (hnames : ∀ d ∈ s.dialects, isName d.name = true ∧ d.Named)
    {generation : Generation} (hrun : g.run s = .ok generation) {d : Dialect}
    (hd : d ∈ s.dialects) {m : Message} (hm : m ∈ d.messages) :
    ∃ owner, g.assemble s d.name = .ok owner ∧ generation.Resolves (m.row d.name) owner := by
  obtain ⟨houtputs, hroot, -⟩ := run_eq_ok hrun
  obtain ⟨owner, howner, hassemble⟩ := exists_of_mapM_left houtputs hd
  obtain ⟨hname, hunits, -, -, hmodule⟩ := assemble_eq_ok (DialectSet.get?_name hs hd) hassemble
  rw [buildUnits_eq] at hunits
  obtain ⟨u, hu, hbuild⟩ := exists_of_mapM_left hunits hm
  have hdeclares := declares_of_buildUnit hg hbuild ((hnames d hd).2.messages m hm)
  rw [hg] at hmodule hroot
  refine ⟨owner, hassemble, howner, hname, ?_, path_of_emit hmodule, ?_, path_of_emit hroot, ?_⟩
  · exact ⟨u.emission, DialectOutput.mem_emissions howner hu, path_of_buildUnit hbuild, hdeclares⟩
  · exact hasLine_emitDialect hmodule hm ((hnames d hd).2.messages m hm)
  · exact hasLine_emitRoot hroot (List.mem_map_of_mem hd) (hnames d hd).1

end Generator

/-- **Paths in generated modules lead to the types they name, unless dialects share a module.** Take
a set of dialects that were read from texts, with names that differ in more than case, and the
modules that are generated for it. For every row of the tables of a dialect there are the module of
the message, which declares the type and has the constants of the row, the module of its dialect,
which declares that one, and the root module, which declares this. The module of the dialect at hand
refers to the type by a path through the root module, or by one that begins in its own place. The
latter it does for messages of its own, but also for those of a dialect that shares its module: one
of the two names is then a reserved word and the other one the same with a mark behind it. -/
theorem rows_resolve {dialects : List Dialect} {s : DialectSet}
    (hs : dialects.foldlM DialectSet.insert {} = .ok s)
    (hparsed : ∀ d ∈ s.dialects, ∃ text, Dialect.ofText text = .ok d)
    (hdistinct : (s.dialects.map fun d => lowered d.name).Nodup) {g : Generator}
    (hg : g.render = Template.render) {generation : Generation} (hrun : g.run s = .ok generation) :
    ∀ o ∈ generation.dialects, ∀ r ∈ o.tables.rows.values, ∃ owner, generation.Resolves r owner ∧
      ((o.module.RefersTo (localPath r) r ∧
          (owner = o ∨ Shadows r.dialect o.name ∨ Shadows o.name r.dialect)) ∨
        (o.module.RefersTo ("super::" ++ dialectModuleName r.dialect ++ "::" ++ localPath r) r ∧
          dialectModuleName r.dialect ≠ dialectModuleName o.name)) := by
  have hnodup := DialectSet.names_nodup hs
  have hnames : ∀ d ∈ s.dialects, isName d.name = true ∧ d.Named := by
    intro d hd
    obtain ⟨text, htext⟩ := hparsed d hd
    exact ⟨Dialect.isName_of_ofText htext, (Source.dialectOf_eq_ok htext).2.1⟩
  intro o ho r hr
  obtain ⟨houtputs, -⟩ := Generator.run_eq_ok hrun
  obtain ⟨d, hd, hassemble⟩ := exists_of_mapM_right houtputs ho
  obtain ⟨hname, -, ⟨ds, hclosure, htables⟩, -, hmodule⟩ :=
    Generator.assemble_eq_ok (DialectSet.get?_name hnodup hd) hassemble
  obtain ⟨d', hd', m, hm, rfl⟩ := Generator.row_of_tablesOf htables hr
  have hd' := DialectSet.mem_of_closure hclosure d' hd'
  obtain ⟨owner, howner, hresolves⟩ := Generator.resolves_of_run hnodup hg hnames hrun hd' hm
  rw [hg] at hmodule
  have hrefers :=
    refersTo_of_emitDialect hmodule hr ((hnames d' hd').2.messages m hm) (hnames d' hd').1
  rw [typePath_eq, ← hname] at hrefers
  refine ⟨owner, hresolves, ?_⟩
  split at hrefers
  · rename_i hsame
    rw [hname] at hsame ⊢
    have hcases := (dialectModuleName_eq_iff (hnames d' hd').1 (hnames d hd).1).1 hsame
    refine .inl ⟨hrefers, hcases.imp_left fun hlowered => ?_⟩
    obtain rfl := List.inj_on_of_nodup_map hdistinct hd' hd hlowered
    exact Except.ok.inj (howner.symm.trans hassemble)
  · exact .inr ⟨hrefers, ‹_›⟩

/-- A file that declares a message. -/
def pingText (name : String) : String :=
  "dialect " ++ name ++ "; message PING = 1 \x7b a: uint8_t; \x7d"

/-- A file that includes another one and declares a message. -/
def pongText (name other : String) : String :=
  "dialect " ++ name ++ "; include \"" ++ other ++ "\"; message PONG = 2 \x7b \x7d"

/-- The dialect of the first file. -/
def ping (name : String) : Dialect where
  name
  messages := [{ id := 1, name := "PING", fields := [⟨"a", "uint8_t", 0, none⟩]
                 fingerprint := 222, baseLength := 1, fullLength := 1 }]

/-- The dialect of the second file. -/
def pong (name other : String) : Dialect where
  name
  includes := [other]
  messages := [{ id := 2, name := "PONG", fields := []
                 fingerprint := 120, baseLength := 0, fullLength := 0 }]

/-- The dialects of the files. -/
def pingPong (name other : String) : List Dialect := [ping other, pong name other]

/-- The row of the included message. -/
def pingRow (dialect : String) : TableRow := ⟨1, dialect, "PING", 222, 1, 1⟩

/-- The row of the other message. -/
def pongRow (dialect : String) : TableRow := ⟨2, dialect, "PONG", 120, 0, 0⟩

/-- A message is found in the module of another dialect. -/
theorem rows_resolve_away :
    [pingText "home", pongText "Away" "home"].mapM Dialect.ofText = .ok (pingPong "Away" "home") ∧
      (pingPong "Away" "home").foldlM DialectSet.insert {} = .ok ⟨pingPong "Away" "home"⟩ ∧
      ∃ generation, ({} : Generator).run ⟨pingPong "Away" "home"⟩ = .ok generation ∧
        ∃ o ∈ generation.dialects, o.name = "Away" ∧
          o.module.RefersTo "super::home::msg_ping::Ping" (pingRow "home") ∧
          ∃ owner, generation.Resolves (pingRow "home") owner := by
  have htexts : [pingText "home", pongText "Away" "home"].mapM Dialect.ofText =
      .ok (pingPong "Away" "home") :=
    eq_ok_of_toOption (by decide +kernel)
  have hs : (pingPong "Away" "home").foldlM DialectSet.insert {} =
    .ok ⟨pingPong "Away" "home"⟩ := rfl
  obtain ⟨generation, hrun, houtputs⟩ := exists_of_toOption_map
    (by decide +kernel : (({} : Generator).run ⟨pingPong "Away" "home"⟩).toOption.map
      (fun g => g.dialects.map fun o => (o.name, o.tables.rows.values)) =
        some [("home", [pingRow "home"]), ("Away", [pingRow "home", pongRow "Away"])])
  have hout : ("Away", [pingRow "home", pongRow "Away"]) ∈
      generation.dialects.map fun o => (o.name, o.tables.rows.values) := by
    rw [houtputs]
    exact List.mem_cons_of_mem _ List.mem_cons_self
  obtain ⟨o, ho, hout⟩ := List.mem_map.1 hout
  obtain ⟨hname, hrows⟩ := Prod.mk.inj hout
  have hparsed : ∀ d ∈ pingPong "Away" "home", ∃ text, Dialect.ofText text = .ok d := by
    intro d hd
    obtain ⟨text, -, htext⟩ := exists_of_mapM_right htexts hd
    exact ⟨text, htext⟩
  obtain ⟨owner, hresolves, hpath⟩ := rows_resolve hs hparsed (by decide +kernel) rfl hrun o ho
    (pingRow "home") (by rw [hrows]; exact List.mem_cons_self)
  refine ⟨htexts, hs, generation, hrun, o, ho, hname, ?_, owner, hresolves⟩
  rcases hpath with ⟨-, rfl | hshadows | hshadows⟩ | ⟨hrefers, -⟩
  · exact absurd (hname.symm.trans hresolves.name) (by decide)
  · exact absurd hshadows.1 (by decide +kernel)
  · rw [hname] at hshadows
    exact absurd hshadows.1 (by decide +kernel)
  · have hpath : "super::" ++ dialectModuleName (pingRow "home").dialect ++ "::" ++
        localPath (pingRow "home") = "super::home::msg_ping::Ping" := by decide +kernel
    rwa [hpath] at hrefers

/-- **A path can lead nowhere.** The names of the two dialects differ, but they share a module,
since the one is a reserved word and the other one what stands for it. So the module of the first
refers to the message of the second as to one of its own, and does not declare the module of that
message. -/
theorem shadowed_unresolved :
    [pingText "self_", pongText "self" "self_"].mapM Dialect.ofText =
        .ok (pingPong "self" "self_") ∧
      (pingPong "self" "self_").foldlM DialectSet.insert {} = .ok ⟨pingPong "self" "self_"⟩ ∧
      ((pingPong "self" "self_").map fun d => lowered d.name).Nodup ∧
      ∃ generation, ({} : Generator).run ⟨pingPong "self" "self_"⟩ = .ok generation ∧
        ∃ o ∈ generation.dialects, o.name = "self" ∧ pingRow "self_" ∈ o.tables.rows.values ∧
          o.module.path = "self_/mod.rs" ∧
          o.module.RefersTo "msg_ping::Ping" (pingRow "self_") ∧
          ¬ o.module.HasLine "pub mod msg_ping;" := by
  have htexts : [pingText "self_", pongText "self" "self_"].mapM Dialect.ofText =
      .ok (pingPong "self" "self_") :=
    eq_ok_of_toOption (by decide +kernel)
  obtain ⟨generation, hrun, houtputs⟩ := exists_of_toOption_map
    (by decide +kernel : (({} : Generator).run ⟨pingPong "self" "self_"⟩).toOption.map
      (fun g => g.dialects.map fun o => (o.name, o.tables.rows.values)) =
        some [("self_", [pingRow "self_"]), ("self", [pingRow "self_", pongRow "self"])])
  have hout : ("self", [pingRow "self_", pongRow "self"]) ∈
      generation.dialects.map fun o => (o.name, o.tables.rows.values) := by
    rw [houtputs]
    exact List.mem_cons_of_mem _ List.mem_cons_self
  obtain ⟨o, ho, hout⟩ := List.mem_map.1 hout
  obtain ⟨hname, hrows⟩ := Prod.mk.inj hout
  have hmodule : emitDialect Template.render "mavgen" (pong "self" "self_")
      [pingRow "self_", pongRow "self"] = .ok o.module := by
    obtain ⟨hassembled, -⟩ := Generator.run_eq_ok hrun
    obtain ⟨d, hd, hassemble⟩ := exists_of_mapM_right hassembled ho
    have hget := DialectSet.get?_name (s := ⟨pingPong "self" "self_"⟩) (by decide) hd
    obtain ⟨hdname, -, -, -, hmodule⟩ := Generator.assemble_eq_ok hget hassemble
    rw [hname] at hdname
    rw [← hdname] at hget
    rw [hrows, ← Option.some.inj hget] at hmodule
    exact hmodule
  have hrefers := refersTo_of_emitDialect hmodule List.mem_cons_self (by decide +kernel)
    (by decide +kernel)
  have hpath : typePath "self" (pingRow "self_") = "msg_ping::Ping" := by decide +kernel
  refine ⟨htexts, rfl, by decide +kernel, generation, hrun, o, ho, hname, ?_, ?_,
    hpath ▸ hrefers, ?_⟩
  · rw [hrows]
    exact List.mem_cons_self
  · rw [path_of_emit hmodule]
    decide +kernel
  · rw [hasLine_iff_of_emit hmodule]
    decide +kernel

end Telemetry.Generate
