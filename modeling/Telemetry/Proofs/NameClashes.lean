import Mathlib
import Telemetry.Proofs.GeneratedCodec
import Telemetry.Proofs.References
import Telemetry.Proofs.StableOrder

/-!
# Names that clash in generated modules

Declared names are told apart as they are written. In generated modules they become fields, methods
and types, and names that differ can become the same. This says when they do.

* `Respelling`, `typeName_eq_iff`: names that become one type differ in the case of letters, and in
  underscores that stand at the start or in front of no letter.
* `nodup_identifiers_iff`: fields clash if one has a reserved word as its name, and another one the
  word with the mark that sets it apart.
* `str_eq_set_iff`, `nodup_helpers_iff`: the reader of one text is the writer of another.
* `Context.column`: what a template finds for the items of a list.
* `names_clash_iff`: the names of whole modules.

The lemmas on the case of letters, such as `Char.toUpper_toLower_eq_toUpper`, come with no single
file of the library.
-/

namespace Telemetry

/-! ## Lists of attributes -/

/-- The texts that the items of a list have for an attribute. -/
def Context.column (c : Context) (list name : String) : List String :=
  match c.get? list with
  | some (.list items) => items.filterMap (·.text? name)
  | _ => []

/-- The step of a field is one of a text if the field holds one. -/
theorem OrderedField.Stands.isText_iff {fields : List Field} {o : OrderedField}
    (h : o.Stands fields) (start : Nat) :
    o.field.isText = true ↔ ∃ n, (o.step start).kind = .text n := by
  have htag : o.type.tag = o.field.tag := by simpa using List.find?_some h.2
  have hchar : o.field.tag = "char" ↔ o.type = .integer .char := by
    rw [← htag]
    cases o.type with
    | integer k => cases k <;> decide
    | _ => decide
  rw [Field.isText, Bool.and_eq_true, decide_eq_true_eq, beq_iff_eq, hchar, OrderedField.step,
    StepKind.ofField]
  by_cases hlength : o.field.arrayLength = 0
  · simp [hlength]
  · by_cases htype : o.type = .integer .char <;> simp [hlength, htype, Nat.pos_of_ne_zero]

namespace Generate

/-! ## Types -/

/-- The characters of a type. `first` says whether a word begins. -/
def camel (first : Bool) : List Char → List Char
  | [] => []
  | c :: cs =>
    if c = '_' then camel true cs
    else (if first then c.toUpper else c.toLower) :: camel false cs

theorem camel_of_parts (cs : List Char) :
    ∃ part rest, parts (String.ofList cs) = part :: rest ∧
      camel true cs = capitalize part ++ rest.flatMap capitalize ∧
      camel false cs = part.map Char.toLower ++ rest.flatMap capitalize := by
  unfold parts
  rw [String.toList_ofList]
  induction cs with
  | nil => exact ⟨[], [], rfl, rfl, rfl⟩
  | cons c cs ih =>
    obtain ⟨part, rest, hparts, htrue, hfalse⟩ := ih
    rw [List.foldr_cons, hparts, camel, camel]
    by_cases hc : c = '_'
    · rw [if_pos hc, if_pos hc, if_pos hc]
      exact ⟨[], part :: rest, rfl, htrue, htrue⟩
    · rw [if_neg hc, if_neg hc, if_neg hc, hfalse]
      exact ⟨c :: part, rest, rfl, rfl, rfl⟩

theorem toList_typeName (name : String) : (typeName name).toList = camel true name.toList := by
  obtain ⟨part, rest, hparts, hcamel, -⟩ := camel_of_parts name.toList
  rw [String.ofList_toList] at hparts
  rw [typeName, String.toList_ofList, hparts, List.flatMap_cons, hcamel]

/-- A change to a name that does not show in its type. -/
inductive Respelling : List Char → List Char → Prop where
  /-- A letter gets into lower case. -/
  | letter (front : List Char) (c : Char) (rest : List Char) :
    Respelling (front ++ c :: rest) (front ++ c.toLower :: rest)
  /-- An underscore is left out at the start. -/
  | start (rest : List Char) : Respelling ('_' :: rest) rest
  /-- An underscore is left out that is followed by no letter. -/
  | underscore (front : List Char) {rest : List Char} (h : ∀ c ∈ rest.head?, c.isAlpha = false) :
    Respelling (front ++ '_' :: rest) (front ++ rest)

/-- Names of which one becomes the other by such changes and their reversals. -/
def Respelled (name name' : String) : Prop :=
  Relation.EqvGen Respelling name.toList name'.toList

theorem camel_append_congr {xs ys : List Char} (h : ∀ first, camel first xs = camel first ys) :
    (front : List Char) → (first : Bool) → camel first (front ++ xs) = camel first (front ++ ys)
  | [], first => h first
  | c :: front, first => by
    rw [List.cons_append, List.cons_append, camel, camel, camel_append_congr h front true,
      camel_append_congr h front false]

theorem camel_toLower (first : Bool) (c : Char) (rest : List Char) :
    camel first (c :: rest) = camel first (c.toLower :: rest) := by
  rw [camel, camel, Char.toUpper_toLower_eq_toUpper, Char.toLower_toLower_eq_toLower]
  by_cases hc : c = '_'
  · rw [if_pos hc, if_pos (by rw [hc]; rfl)]
  · rw [if_neg hc, if_neg fun h => hc (eq_of_toLower_eq (by decide) h)]

theorem toUpper_eq_toLower {c : Char} (h : c.isAlpha = false) :
    c.toUpper = c ∧ c.toLower = c := by
  rw [Char.isAlpha, Bool.or_eq_false_iff] at h
  exact ⟨Char.toUpper_eq_of_not_isLower (by simp [h.2]),
    Char.toLower_eq_of_not_isUpper (by simp [h.1])⟩

/-- In front of no letter, an underscore does not show. -/
theorem camel_underscore {rest : List Char} (h : ∀ c ∈ rest.head?, c.isAlpha = false)
    (first : Bool) : camel first ('_' :: rest) = camel first rest := by
  rw [camel, if_pos rfl]
  cases rest with
  | nil => rfl
  | cons c rest =>
    obtain ⟨hupper, hlower⟩ := toUpper_eq_toLower (h c rfl)
    rw [camel, camel, hupper, hlower, ite_self, ite_self]

theorem Respelling.camel_eq {cs cs' : List Char} (h : Respelling cs cs') :
    camel true cs = camel true cs' := by
  cases h with
  | letter front c rest =>
    exact camel_append_congr (fun first => camel_toLower first c rest) front true
  | start rest => rfl
  | underscore front hrest => exact camel_append_congr (camel_underscore hrest) front true

/-- The plainest name of a type: in lower case, with an underscore in front of each letter that was
in upper case. -/
def plainest : List Char → List Char
  | [] => []
  | c :: cs =>
    if c.isUpper = true then '_' :: c.toLower :: plainest cs else c :: plainest cs

/-- Every name becomes the plainest name of its type. -/
theorem respelled_plainest (cs : List Char) : ∀ front : List Char,
    Relation.EqvGen Respelling (front ++ '_' :: cs) (front ++ plainest (camel true cs)) ∧
    Relation.EqvGen Respelling (front ++ cs) (front ++ plainest (camel false cs)) := by
  induction cs with
  | nil => exact fun front => ⟨.rel _ _ (.underscore front (by simp)), .refl _⟩
  | cons c cs ih =>
    by_cases hc : c = '_'
    · subst hc
      intro front
      exact ⟨.trans _ _ _ (.rel _ _ (.underscore front (by simp))) (ih front).1, (ih front).1⟩
    · have hlower (front : List Char) : Relation.EqvGen Respelling (front ++ c :: cs)
          (front ++ c.toLower :: plainest (camel false cs)) := by
        have hrest := (ih (front ++ [c.toLower])).2
        rw [List.append_assoc, List.append_assoc] at hrest
        exact .trans _ _ _ (.rel _ _ (.letter front c cs)) hrest
      intro front
      rw [camel, if_neg hc, if_pos rfl, camel, if_neg hc, if_neg Bool.false_ne_true, plainest,
        plainest, Char.isUpper_toUpper_eq_isAlpha, Char.isUpper_toLower_eq_false,
        if_neg Bool.false_ne_true, Char.toLower_toUpper_eq_toLower]
      refine ⟨?_, hlower front⟩
      cases halpha : c.isAlpha with
      | true =>
        have hword := hlower (front ++ ['_'])
        rwa [List.append_assoc, List.append_assoc] at hword
      | false =>
        obtain ⟨hupper', hlower'⟩ := toUpper_eq_toLower halpha
        have hrest := hlower front
        rw [hlower'] at hrest
        rw [hupper', if_neg Bool.false_ne_true]
        refine .trans _ _ _ (.rel _ _ (.underscore front ?_)) hrest
        rintro x ⟨⟩
        exact halpha

theorem camel_eq_iff {cs cs' : List Char} :
    camel true cs = camel true cs' ↔ Relation.EqvGen Respelling cs cs' := by
  constructor
  · intro h
    have hplainest (cs : List Char) :
        Relation.EqvGen Respelling cs (plainest (camel true cs)) :=
      .trans _ _ _ (.symm _ _ (.rel _ _ (.start cs))) (respelled_plainest cs []).1
    exact .trans _ _ _ (h ▸ hplainest cs) (.symm _ _ (hplainest cs'))
  · intro h
    induction h with
    | rel _ _ h => exact h.camel_eq
    | refl _ => rfl
    | symm _ _ _ ih => exact ih.symm
    | trans _ _ _ _ _ ih ih' => exact ih.trans ih'

/-- **Names become one type exactly if one is a respelling of the other.** -/
theorem typeName_eq_iff {name name' : String} :
    typeName name = typeName name' ↔ Respelled name name' := by
  rw [← String.toList_inj, toList_typeName, toList_typeName, camel_eq_iff, Respelled]

/-! ## Fields -/

/-- Fields with names of their own clash in one case only. -/
theorem nodup_identifiers_iff {names : List String} (hnodup : names.Nodup)
    (hnames : ∀ name ∈ names, '#' ∉ name.toList) :
    (names.map identifier).Nodup ↔ ∀ word ∈ reserved, word ∈ names → word ++ "_" ∉ names := by
  rw [List.nodup_map_iff_inj_on hnodup]
  constructor
  · intro h word hword hmem hmarked
    have heq := h word hmem _ hmarked
      ((identifier_eq_iff (hnames _ hmem) (hnames _ hmarked)).2 (.inr (.inl ⟨hword, rfl⟩)))
    simp [← String.toList_inj] at heq
  · intro h name hname name' hname' heq
    rcases (identifier_eq_iff (hnames _ hname) (hnames _ hname')).1 heq with
      rfl | ⟨hword, rfl⟩ | ⟨hword, rfl⟩
    · rfl
    · exact absurd hname' (h name hword hname)
    · exact absurd hname (h name' hword hname')

/-! ## Methods for texts -/

/-- When the reader of a text is the writer of another. -/
theorem str_eq_set_iff {name name' : String} :
    name ++ "_str" = "set_" ++ name' ↔
      (name = "set" ∧ name' = "str") ∨ ∃ stem, name = "set_" ++ stem ∧ name' = stem ++ "_str" := by
  constructor
  · intro h
    have hchars : name.toList ++ ['_', 's', 't', 'r'] = ['s', 'e', 't', '_'] ++ name'.toList := by
      simpa using congrArg String.toList h
    rcases List.append_eq_append_iff.1 hchars with ⟨middle, hset, hstr⟩ | ⟨stem, hname, hname'⟩
    · -- The middle is an end of the one and a start of the other: nothing, or the underscore.
      cases middle with
      | nil =>
        refine .inr ⟨"", ?_, ?_⟩
        · rw [← String.toList_inj]
          simpa using hset.symm
        · rw [← String.toList_inj]
          simpa using hstr.symm
      | cons c middle =>
        have hc : c = '_' ∧ middle ++ name'.toList = ['s', 't', 'r'] := by
          simpa [eq_comm] using hstr
        have hmiddle : name.toList = ['s', 'e', 't'] ∧ middle = [] := by
          simpa [hc.1, List.cons_eq_append_iff] using hset
        rw [hmiddle.2, List.nil_append] at hc
        exact .inl ⟨String.toList_inj.1 hmiddle.1, String.toList_inj.1 hc.2⟩
    · refine .inr ⟨String.ofList stem, ?_, ?_⟩
      · rw [← String.toList_inj, hname]
        simp
      · rw [← String.toList_inj, hname']
        simp
  · rintro (⟨rfl, rfl⟩ | ⟨stem, rfl, rfl⟩)
    · rfl
    · rw [String.append_assoc]

theorem nodup_helpers_iff {names : List String} (hnodup : names.Nodup) :
    (names.map (· ++ "_str") ++ names.map ("set_" ++ ·)).Nodup ↔
      ¬("set" ∈ names ∧ "str" ∈ names) ∧
        ∀ stem, ¬("set_" ++ stem ∈ names ∧ stem ++ "_str" ∈ names) := by
  have hstr : (names.map (· ++ "_str")).Nodup :=
    hnodup.map fun a b h => by simpa [← String.toList_inj] using h
  have hset : (names.map ("set_" ++ ·)).Nodup :=
    hnodup.map fun a b h => by simpa [← String.toList_inj] using h
  rw [List.nodup_append, and_iff_right hstr, and_iff_right hset]
  constructor
  · intro h
    have hne {name name' : String} (hmem : name ∈ names ∧ name' ∈ names) :
        name ++ "_str" ≠ "set_" ++ name' :=
      h _ (List.mem_map_of_mem hmem.1) _ (List.mem_map_of_mem hmem.2)
    exact ⟨fun hmem => hne hmem rfl, fun stem hmem => hne hmem (String.append_assoc ..)⟩
  · rintro ⟨hbare, hstem⟩ a ha b hb rfl
    obtain ⟨name, hname, rfl⟩ := List.mem_map.1 ha
    obtain ⟨name', hname', heq⟩ := List.mem_map.1 hb
    rcases str_eq_set_iff.1 heq.symm with ⟨rfl, rfl⟩ | ⟨stem, rfl, rfl⟩
    · exact hbare ⟨hname, hname'⟩
    · exact hstem stem ⟨hname, hname'⟩

/-! ## What modules show -/

variable {m : Message} {sorted : Bool} {plan : LayoutPlan}

/-- Every field has a step, so that the fields of a struct are those of the message, in order. -/
theorem fields_declaredSteps (hp : LayoutPlan.ofMessage m sorted = .ok plan) :
    (declaredSteps m plan).map (·.1) = m.fields := by
  have hstep {f : Field} {i : Nat} (hfield : (f, i) ∈ m.fields.zipIdx) :
      ∃ s, plan.steps.find? (·.index == i) = some s := by
    have hnumber : (f.name, i) ∈ plan.steps.map fun s => (s.field, s.index) :=
      (numbers_steps_perm hp).mem_iff.2 (List.mem_map_of_mem hfield)
    obtain ⟨s, hs, heq⟩ := List.mem_map.1 hnumber
    have hindex : (s.index == i) = true := beq_iff_eq.2 (congrArg Prod.snd heq)
    exact Option.isSome_iff_exists.1 (List.find?_isSome.2 ⟨s, hs, hindex⟩)
  have hfirst : (declaredSteps m plan).map (·.1) = m.fields.zipIdx.filterMap (some ∘ Prod.fst) := by
    rw [declaredSteps, List.map_filterMap]
    apply List.filterMap_congr
    rintro ⟨f, i⟩ hfield
    obtain ⟨s, hs⟩ := hstep hfield
    simp [hs]
  rw [hfirst, List.filterMap_eq_map, List.zipIdx_map_fst]

theorem exists_stands_of_mem (hp : LayoutPlan.ofMessage m sorted = .ok plan) {s : Step}
    (hs : s ∈ plan.steps) : ∃ o start, o.Stands m.fields ∧ s = OrderedField.step o start := by
  obtain ⟨order, horder, -, -, hb, he, -⟩ := LayoutPlan.ofMessage_eq_ok hp
  have hstable := stable_of_wireOrder horder
  rw [LayoutPlan.steps, hb, he] at hs
  rcases List.mem_append.1 hs with hs | hs
  all_goals
    obtain ⟨o, ho, start, rfl⟩ := exists_of_mem_placeSteps hs
    exact ⟨o, start, hstable.mem_all_iff.1 (List.mem_append.2 (by simp [ho])), rfl⟩

/-- The step of a text is that of a field which holds one. -/
theorem isText_of_mem (hp : LayoutPlan.ofMessage m sorted = .ok plan) {f : Field} {s : Step}
    (h : (f, s) ∈ declaredSteps m plan) :
    s.field = f.name ∧ (f.isText = true ↔ ∃ n, s.kind = .text n) := by
  obtain ⟨hs, hfield⟩ := (mem_declaredSteps_iff hp).1 h
  obtain ⟨o, start, ho, rfl⟩ := exists_stands_of_mem hp hs
  rw [List.mem_zipIdx_iff_getElem?] at hfield
  cases hfield.symm.trans ho.1
  exact ⟨rfl, ho.isText_iff start⟩

theorem column_idents (hp : LayoutPlan.ofMessage m sorted = .ok plan) (runtime dialect : String) :
    (messageContext runtime dialect m plan).column "fields" "ident" =
      (m.fields.map (·.name)).map identifier := by
  have hcolumn : (messageContext runtime dialect m plan).column "fields" "ident" =
      ((declaredSteps m plan).map fun p => fieldContext p.1 p.2).filterMap (·.text? "ident") := rfl
  rw [hcolumn, List.filterMap_map, ← fields_declaredSteps hp, List.map_map, List.map_map]
  exact congrFun List.filterMap_eq_map _

theorem textContext?_of_kind {s : Step} (h : ¬∃ n, s.kind = .text n) : textContext? s = none := by
  unfold textContext?
  split
  · exact absurd ⟨_, ‹_›⟩ h
  · rfl

theorem column_texts (hp : LayoutPlan.ofMessage m sorted = .ok plan) (runtime dialect : String)
    (name : String) (helper : String → String)
    (hhelper : ∀ s n, s.kind = .text n →
      (textContext? s).bind (·.text? name) = some (helper s.field)) :
    (messageContext runtime dialect m plan).column "texts" name =
      ((m.fields.filter Field.isText).map (·.name)).map helper := by
  have hcolumn : (messageContext runtime dialect m plan).column "texts" name =
      ((declaredSteps m plan).filterMap fun p => textContext? p.2).filterMap (·.text? name) := rfl
  have hstep : ∀ p ∈ declaredSteps m plan, (textContext? p.2).bind (·.text? name) =
      if p.1.isText then some (helper p.1.name) else none := by
    rintro ⟨f, s⟩ hmem
    obtain ⟨hname, htext⟩ := isText_of_mem hp hmem
    by_cases hkind : ∃ n, s.kind = .text n
    · rw [if_pos (htext.2 hkind), hhelper s _ hkind.choose_spec, hname]
    · rw [if_neg (hkind ∘ htext.1), textContext?_of_kind hkind]
      rfl
  rw [hcolumn, List.filterMap_filterMap, List.filterMap_congr hstep, List.map_map,
    ← List.filterMap_eq_map, List.filterMap_filter, ← fields_declaredSteps hp, List.filterMap_map]
  rfl

theorem getter_of_kind (s : Step) (n : Nat) (h : s.kind = .text n) :
    (textContext? s).bind (·.text? "getter") = some (s.field ++ "_str") := by
  rw [textContext?, h]
  rfl

theorem setter_of_kind (s : Step) (n : Nat) (h : s.kind = .text n) :
    (textContext? s).bind (·.text? "setter") = some ("set_" ++ s.field) := by
  rw [textContext?, h]
  rfl

theorem column_variants (runtime : String) (d : Dialect) (rows : List TableRow) :
    (dialectContext runtime d rows).column "rows" "variant" =
      rows.map fun r => typeName r.name := by
  have hcolumn : (dialectContext runtime d rows).column "rows" "variant" =
      (rows.map (rowContext d.name)).filterMap (·.text? "variant") := rfl
  rw [hcolumn, List.filterMap_map]
  exact congrFun List.filterMap_eq_map _

end Generate

open Generate

/-- **Names that are told apart can clash in generated modules, in four cases.** Take a declared
message whose fields have names of the grammar. Two fields of its struct have one identifier exactly
if a reserved word and the word with an underscore behind it are both among the names. Two of the
methods for its texts have one name exactly if the texts are called `set` and `str`, or `set_` with
some stem behind it and the same stem with `_str` behind it. The messages of a dialect that was
assembled have a variant each exactly if no two of their names are respellings of each other. -/
theorem names_clash_iff (g : Generator) :
    (∀ (dialect : String) (m : Message) (sorted : Bool) (plan : LayoutPlan),
      m.Declared → (∀ f ∈ m.fields, Source.isName f.name = true) →
      LayoutPlan.ofMessage m sorted = .ok plan →
      let context := messageContext g.runtime dialect m plan
      let names := m.fields.map (·.name)
      let texts := (m.fields.filter Field.isText).map (·.name)
      ((context.column "fields" "ident").Nodup ↔
        ∀ word ∈ reserved, word ∈ names → word ++ "_" ∉ names) ∧
      ((context.column "texts" "getter" ++ context.column "texts" "setter").Nodup ↔
        ¬("set" ∈ texts ∧ "str" ∈ texts) ∧
          ∀ stem, ¬("set_" ++ stem ∈ texts ∧ stem ++ "_str" ∈ texts))) ∧
    ∀ (s : DialectSet) (d : Dialect) (output : DialectOutput),
      s.get? d.name = some d → g.assemble s d.name = .ok output →
      let rows := output.tables.rows.values
      emitDialect g.render g.runtime d rows = .ok output.module ∧
      (((dialectContext g.runtime d rows).column "rows" "variant").Nodup ↔
        ∀ r ∈ rows, ∀ r' ∈ rows, Respelled r.name r'.name → r = r') := by
  refine ⟨fun dialect m sorted plan hm hnames hp => ?_, fun s d output hd houtput => ?_⟩
  · obtain ⟨flags, hm⟩ := hm
    have hnodup : (m.fields.map (·.name)).Nodup := (Message.declare_eq_ok_iff.1 hm).2.1
    dsimp only
    rw [column_idents hp, column_texts hp _ _ "getter" (· ++ "_str") getter_of_kind,
      column_texts hp _ _ "setter" ("set_" ++ ·) setter_of_kind]
    refine ⟨nodup_identifiers_iff hnodup ?_, nodup_helpers_iff ?_⟩
    · intro name hname
      obtain ⟨f, hf, rfl⟩ := List.mem_map.1 hname
      exact notMem_of_isName (hnames f hf) (by decide)
    · exact hnodup.sublist (List.filter_sublist.map _)
  · obtain ⟨-, -, ⟨ds, -, htables⟩, -, hmodule⟩ := Generator.assemble_eq_ok hd houtput
    refine ⟨hmodule, ?_⟩
    have hnodup : output.tables.rows.values.Nodup :=
      (MessageTables.lists_ofRows htables).values_ascending.imp fun hlt heq =>
        absurd (congrArg TableRow.id heq) (Nat.ne_of_lt hlt)
    rw [column_variants, List.nodup_map_iff_inj_on hnodup]
    simp only [typeName_eq_iff]

/-- A file with names that come close to each other. -/
def nearText : String :=
  "dialect d; message GPS_RAW = 1 \x7b self: uint8_t; set_x: char[4]; x: char[4]; \x7d " ++
    "message GPSRAW = 2 \x7b type: uint8_t; \x7d"

/-- A message of the file. -/
def Message.near : Message where
  id := 1
  name := "GPS_RAW"
  fields := [⟨"self", "uint8_t", 0, none⟩, ⟨"set_x", "char", 4, none⟩, ⟨"x", "char", 4, none⟩]
  fingerprint := 126
  baseLength := 9
  fullLength := 9

/-- The dialect of the file. -/
def Dialect.near : Dialect where
  name := "d"
  messages := [.near, { id := 2, name := "GPSRAW", fields := [⟨"type", "uint8_t", 0, none⟩]
                        fingerprint := 3, baseLength := 1, fullLength := 1 }]

/-- None of these names clash. -/
theorem names_clash_iff_near :
    Dialect.ofText nearText = .ok Dialect.near ∧ Message.near.Declared ∧
    (∃ plan, LayoutPlan.ofMessage Message.near true = .ok plan ∧
      (messageContext "mavgen" "d" Message.near plan).column "fields" "ident" =
        ["self_", "set_x", "x"] ∧
      ∀ stem, ¬("set_" ++ stem ∈ ["set_x", "x"] ∧ stem ++ "_str" ∈ ["set_x", "x"])) ∧
    ∃ output, ({} : Generator).assemble ⟨[.near]⟩ "d" = .ok output ∧
      ¬Respelled "GPS_RAW" "GPSRAW" := by
  have htext : Dialect.ofText nearText = .ok Dialect.near := eq_ok_of_toOption (by decide +kernel)
  have hnear : Message.near.Declared := ⟨{}, by decide +kernel⟩
  have hnames : ∀ f ∈ Message.near.fields, Source.isName f.name = true :=
    List.all_eq_true.1 (by decide)
  obtain ⟨plan, hplan, hcolumns⟩ := exists_of_toOption_map
    (by decide +kernel : (LayoutPlan.ofMessage Message.near true).toOption.map (fun plan =>
      let context := messageContext "mavgen" "d" Message.near plan
      (context.column "fields" "ident",
        context.column "texts" "getter" ++ context.column "texts" "setter")) =
      some (["self_", "set_x", "x"], ["set_x_str", "x_str", "set_set_x", "set_x"]))
  obtain ⟨output, houtput, hrows⟩ := exists_of_toOption_map
    (by decide +kernel : (({} : Generator).assemble ⟨[.near]⟩ "d").toOption.map
      (fun output => output.tables.rows.values) =
      some [⟨1, "d", "GPS_RAW", 126, 9, 9⟩, ⟨2, "d", "GPSRAW", 3, 1, 1⟩])
  obtain ⟨hidents, htexts⟩ := Prod.mk.inj hcolumns
  have hclash := (names_clash_iff {}).1 "d" Message.near true plan hnear hnames hplan
  have hclash' := ((names_clash_iff {}).2 ⟨[.near]⟩ .near output rfl houtput).2
  refine ⟨htext, hnear, ⟨plan, hplan, hidents, ?_⟩, output, houtput, fun h => ?_⟩
  · exact (hclash.2.1 (htexts ▸ by decide)).2
  · rw [hrows] at hclash'
    have heq := hclash'.1 (by decide +kernel) _ List.mem_cons_self _
      (List.mem_cons_of_mem _ List.mem_cons_self) h
    exact absurd heq (by decide)

/-- A file in which names clash in all ways. -/
def clashText : String :=
  "dialect d; message A_B = 1 \x7b self: uint8_t; self_: uint8_t; \x7d " ++
    "message A__B = 2 \x7b set_x: char[4]; x_str: char[4]; \x7d"

/-- The message whose fields clash. -/
def Message.clashFields : Message where
  id := 1
  name := "A_B"
  fields := [⟨"self", "uint8_t", 0, none⟩, ⟨"self_", "uint8_t", 0, none⟩]
  fingerprint := 93
  baseLength := 2
  fullLength := 2

/-- The message whose texts have methods that clash. -/
def Message.clashTexts : Message where
  id := 2
  name := "A__B"
  fields := [⟨"set_x", "char", 4, none⟩, ⟨"x_str", "char", 4, none⟩]
  fingerprint := 7
  baseLength := 8
  fullLength := 8

/-- The dialect of the file. -/
def Dialect.clash : Dialect where
  name := "d"
  messages := [.clashFields, .clashTexts]

/-- **Generated names are not always distinct.** The file is read, its messages are declared with
names of the grammar, and its dialect is assembled. But in one struct there are two fields `self_`,
in the other one there are two methods `set_x_str`, and both structs have the variant `AB`. -/
theorem generated_names_clash :
    Dialect.ofText clashText = .ok Dialect.clash ∧
    (∀ m ∈ Dialect.clash.messages, m.Declared ∧ ∀ f ∈ m.fields, Source.isName f.name = true) ∧
    (∃ plan, LayoutPlan.ofMessage .clashFields true = .ok plan ∧
      (messageContext "mavgen" "d" .clashFields plan).column "fields" "ident" =
        ["self_", "self_"]) ∧
    (∃ plan, LayoutPlan.ofMessage .clashTexts true = .ok plan ∧
      (messageContext "mavgen" "d" .clashTexts plan).column "texts" "getter" ++
        (messageContext "mavgen" "d" .clashTexts plan).column "texts" "setter" =
          ["set_x_str", "x_str_str", "set_set_x", "set_x_str"]) ∧
    ∃ output, ({} : Generator).assemble ⟨[.clash]⟩ "d" = .ok output ∧
      (dialectContext "mavgen" .clash output.tables.rows.values).column "rows" "variant" =
        ["AB", "AB"] := by
  have hfields : Message.clashFields.Declared := ⟨{}, by decide +kernel⟩
  have htexts : Message.clashTexts.Declared := ⟨{}, by decide +kernel⟩
  refine ⟨eq_ok_of_toOption (by decide +kernel), ?_, ?_, ?_, ?_⟩
  · exact List.forall_mem_cons.2 ⟨⟨hfields, List.all_eq_true.1 (by decide)⟩,
      List.forall_mem_singleton.2 ⟨htexts, List.all_eq_true.1 (by decide)⟩⟩
  · exact exists_of_toOption_map (by decide +kernel)
  · exact exists_of_toOption_map (by decide +kernel)
  · exact exists_of_toOption_map (by decide +kernel)

end Telemetry
