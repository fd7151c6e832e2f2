import Mathlib.Data.List.Perm.Subperm
import Telemetry.Generate.Run
import Telemetry.Proofs.Closure
import Telemetry.Proofs.Planning
import Telemetry.Proofs.Rendering
import Telemetry.Proofs.Tables

/-!
# The dispatch table of a generator

A generator goes through the dialects of a set in their order, and makes tables of each closure. A
receiver goes through closures and leaves out what it has seen. Both come to the same dispatch
table, and one of them fails exactly if the other does.

* `MessageTables.Agrees`: the tables of a closure have room where the dispatch table has.
* `Generator.buildUnits_eq`: the number of jobs does not matter.
* `Generator.assemble_eq_ok`, `Generator.run_eq_ok`: what is generated for a dialect and for a set.
* `Generator.run_eq_ok_iff`: when generation ends without a fault, and with which table.
* `run_dispatches`: generator and receiver have the same table.
-/

namespace Telemetry

open Generate

/-! ## Tables of a closure -/

namespace MessageTables

/-- Tables and a dispatch table with the same ids and names. -/
structure Agrees (t : MessageTables) (table : DispatchTable) : Prop where
  id_iff (id : Nat) : t.rows.get? id = none ↔ table.get? id = none
  name_iff (name : String) : t.ids.get? name = none ↔ table.ids.get? name = none

theorem agrees_empty : ({} : MessageTables).Agrees {} where
  id_iff _ := ⟨fun _ => rfl, fun _ => rfl⟩
  name_iff _ := ⟨fun _ => rfl, fun _ => rfl⟩

theorem Agrees.add {t : MessageTables} {table table' : DispatchTable} {m : Dialect × Message}
    (h : t.Agrees table) (hadd : DialectSet.addMessage table m = .ok table') :
    ∃ t', t.add (m.2.row m.1.name) = .ok t' ∧ t'.Agrees table' := by
  obtain ⟨e, he, hinsert⟩ := bind_eq_ok_iff.1 hadd
  obtain ⟨plan, hplan, rfl⟩ := DialectSet.entry_eq_ok he
  obtain ⟨hid, hname, rfl⟩ := DispatchTable.add_eq_ok_iff.1 hinsert
  obtain ⟨-, -, hplanId, -⟩ := LayoutPlan.ofMessage_eq_ok hplan
  rw [hplanId] at hid
  refine ⟨t.extend (m.2.row m.1.name),
    add_eq_ok_iff.2 ⟨(h.id_iff _).2 hid, (h.name_iff _).2 hname, rfl⟩, fun id => ?_, fun name => ?_⟩
  · rw [rows_extend, DispatchTable.get?_extend, hplanId, Message.row]
    split <;> simp [h.id_iff]
  · rw [ids_extend, DispatchTable.ids_extend, Message.row]
    split <;> simp [h.name_iff]

theorem Agrees.addAll {t : MessageTables} {table table' : DispatchTable}
    {ms : List (Dialect × Message)} (h : t.Agrees table)
    (hadd : ms.foldlM DialectSet.addMessage table = .ok table') :
    ∃ t', (ms.map fun m => m.2.row m.1.name).foldlM MessageTables.add t = .ok t' ∧
      t'.Agrees table' := by
  induction ms generalizing t table with
  | nil =>
    cases hadd
    exact ⟨t, rfl, h⟩
  | cons m ms ih =>
    rw [List.foldlM_cons] at hadd
    obtain ⟨middle, hmiddle, hadd⟩ := bind_eq_ok_iff.1 hadd
    obtain ⟨t₁, ht₁, hagrees⟩ := h.add hmiddle
    obtain ⟨t₂, ht₂, hagrees⟩ := ih hagrees hadd
    exact ⟨t₂, bind_eq_ok_iff.2 ⟨t₁, ht₁, ht₂⟩, hagrees⟩

end MessageTables

namespace Generate.Generator

theorem tablesOf_eq (ds : List Dialect) :
    tablesOf ds =
      MessageTables.ofRows ((DialectSet.messagesOf ds).map fun m => m.2.row m.1.name) := by
  simp [tablesOf, DialectSet.messagesOf, List.map_flatMap, Function.comp_def]

/-- If the messages of a set have ids and names of their own, so have those of a closure. -/
theorem exists_tablesOf {s : DialectSet} {name : String} {ds : List Dialect} {table : DispatchTable}
    (hclosure : s.closure name = .ok ds)
    (htable : s.dialects.foldlM DialectSet.addDialect {} = .ok table) :
    ∃ tables, tablesOf ds = .ok tables := by
  -- The closure can be brought to the front of the set, and its table is then one on the way.
  obtain ⟨ds', hperm, hsub⟩ :=
    (DialectSet.nodup_closure hclosure).subperm (DialectSet.mem_of_closure hclosure)
  obtain ⟨rest, hrest⟩ := hsub.exists_perm_append
  have h := DialectSet.foldlM_addDialect_perm (hrest.trans (hperm.append_right rest)) htable
  rw [List.foldlM_append] at h
  obtain ⟨table', htable', -⟩ := bind_eq_ok_iff.1 h
  rw [DialectSet.foldlM_addDialect] at htable'
  obtain ⟨tables, htables, -⟩ := MessageTables.agrees_empty.addAll htable'
  exact ⟨tables, (tablesOf_eq ds).trans htables⟩

/-! ## Jobs -/

theorem flatten_stretches {α : Type} (size : Nat) (xs : List α) :
    (stretches size xs).flatten = xs := by
  fun_induction stretches size xs with
  | case1 => rfl
  | case2 x rest ih => simp [ih]

theorem mapM_flatten {ε α β : Type} (f : α → Except ε β) (xss : List (List α)) :
    (do return (← xss.mapM fun xs => xs.mapM f).flatten) = xss.flatten.mapM f := by
  induction xss with
  | nil => rfl
  | cons xs xss ih => simp [← ih]

/-- The number of jobs does not matter. -/
theorem buildUnits_eq (g : Generator) (d : Dialect) :
    g.buildUnits d = d.messages.mapM (g.buildUnit d) := by
  simp only [buildUnits]
  split
  · rfl
  · exact (mapM_flatten _ _).trans (by rw [flatten_stretches])

/-! ## Units -/

section Units

variable {g : Generator} {d : Dialect}

/-- A unit carries the dispatch entry of its message. -/
theorem entry_of_buildUnit {m : Message} {u : MessageUnit} (h : g.buildUnit d m = .ok u) :
    DialectSet.entry d m = .ok (u.entry d) ∧ u.id = m.id := by
  obtain ⟨plan, hplan, h⟩ := bind_eq_ok_iff.1 h
  obtain ⟨emission, -, h⟩ := bind_eq_ok_iff.1 h
  cases h
  exact ⟨bind_eq_ok_iff.2 ⟨plan, mapError_eq_ok_iff.1 hplan, rfl⟩, rfl⟩

theorem exists_buildUnit (hg : g.render = Template.render) {m : Message} {e : DispatchEntry}
    (h : DialectSet.entry d m = .ok e) : ∃ u, g.buildUnit d m = .ok u := by
  obtain ⟨plan, hplan, -⟩ := DialectSet.entry_eq_ok h
  obtain ⟨emission, hemission⟩ := exists_emitMessage g.runtime d.name m plan
  rw [← hg] at hemission
  exact ⟨_, bind_eq_ok_iff.2 ⟨plan, mapError_eq_ok_iff.2 hplan,
    bind_eq_ok_iff.2 ⟨emission, mapError_eq_ok_iff.2 hemission, rfl⟩⟩⟩

/-- The entries of the units are those of the messages. -/
theorem foldlM_units {units : List MessageUnit} (h : g.buildUnits d = .ok units)
    (t : DispatchTable) :
    units.foldlM (fun t u => t.add (u.entry d)) t = DialectSet.addDialect t d := by
  rw [buildUnits_eq, mapM_eq_ok_iff] at h
  unfold DialectSet.addDialect
  generalize d.messages = messages at h
  induction h generalizing t with
  | nil => rfl
  | cons hu _ ih =>
    rw [List.foldlM_cons, List.foldlM_cons, (entry_of_buildUnit hu).1]
    exact bind_congr ih

theorem exists_buildUnits (hg : g.render = Template.render) {t t' : DispatchTable}
    (h : DialectSet.addDialect t d = .ok t') : ∃ units, g.buildUnits d = .ok units := by
  rw [buildUnits_eq]
  refine exists_mapM_eq_ok fun m hm => ?_
  obtain ⟨t₁, t₂, hstep⟩ := exists_of_foldlM h hm
  obtain ⟨e, he, -⟩ := bind_eq_ok_iff.1 hstep
  exact exists_buildUnit hg he

end Units

/-! ## Outputs -/

section Outputs

variable {g : Generator} {s : DialectSet} {d : Dialect}

/-- What is generated for a dialect. -/
theorem assemble_eq_ok {output : DialectOutput} (hd : s.get? d.name = some d)
    (h : g.assemble s d.name = .ok output) :
    output.name = d.name ∧ g.buildUnits d = .ok output.units ∧
      (∃ ds, s.closure d.name = .ok ds ∧ tablesOf ds = .ok output.tables) ∧
      d.enums.mapM (emitEnum g.render d.name) = .ok output.enums ∧
      emitDialect g.render g.runtime d output.tables.rows.values = .ok output.module := by
  obtain ⟨ds, hds, h⟩ := bind_eq_ok_iff.1 h
  rw [hd] at h
  obtain ⟨tables, htables, h⟩ := bind_eq_ok_iff.1 h
  obtain ⟨units, hunits, h⟩ := bind_eq_ok_iff.1 h
  obtain ⟨-, -, h⟩ := bind_eq_ok_iff.1 h
  obtain ⟨enums, henums, h⟩ := bind_eq_ok_iff.1 h
  obtain ⟨module, hmodule, h⟩ := bind_eq_ok_iff.1 h
  cases h
  exact ⟨rfl, hunits, ⟨ds, mapError_eq_ok_iff.1 hds, mapError_eq_ok_iff.1 htables⟩,
    mapError_eq_ok_iff.1 henums, mapError_eq_ok_iff.1 hmodule⟩

/-- Units of a dialect of the closure have fingerprints in its tables. -/
theorem checkFingerprint_units {ds : List Dialect} {tables : MessageTables}
    {units : List MessageUnit} (hd : d ∈ ds) (htables : tablesOf ds = .ok tables)
    (hunits : g.buildUnits d = .ok units) : units.forM (checkFingerprint tables) = .ok () := by
  have hcheck : ∀ u ∈ units, checkFingerprint tables u = .ok () := by
    intro u hu
    rw [buildUnits_eq] at hunits
    obtain ⟨m, hm, hu⟩ := exists_of_mapM_right hunits hu
    have hrow : m.row d.name ∈ ds.flatMap fun d => d.messages.map (·.row d.name) :=
      List.mem_flatMap.2 ⟨d, hd, List.mem_map_of_mem hm⟩
    have hget : tables.fingerprints.get? u.id = some m.fingerprint :=
      ((MessageTables.lists_ofRows htables).fingerprints _ _).2
        ⟨_, hrow, (entry_of_buildUnit hu).2.symm, rfl⟩
    exact if_pos (Option.isSome_of_eq_some hget)
  clear hunits
  induction units with
  | nil => rfl
  | cons u units ih =>
    rw [List.forM_eq_forM, List.forM_cons, hcheck u List.mem_cons_self]
    exact ih fun u' hu' => hcheck u' (List.mem_cons_of_mem u hu')

theorem exists_assemble (hg : g.render = Template.render) (hd : s.get? d.name = some d)
    {ds : List Dialect} {tables : MessageTables} {units : List MessageUnit}
    (hclosure : s.closure d.name = .ok ds) (htables : tablesOf ds = .ok tables)
    (hunits : g.buildUnits d = .ok units) :
    ∃ output, g.assemble s d.name = .ok output ∧ output.units = units := by
  obtain ⟨enums, henums⟩ : ∃ enums, d.enums.mapM (emitEnum g.render d.name) = .ok enums := by
    rw [hg]
    exact exists_mapM_eq_ok fun e _ => exists_emitEnum d.name e
  obtain ⟨module, hmodule⟩ := exists_emitDialect g.runtime d tables.rows.values
  rw [← hg] at hmodule
  have hcheck := checkFingerprint_units (DialectSet.self_mem_closure hd hclosure) htables hunits
  refine ⟨⟨d.name, tables, units, enums, module⟩, ?_, rfl⟩
  simp only [assemble, hclosure, hd, htables, hunits, hcheck, henums, hmodule, SchemaError.lift,
    liftTemplate, Except.mapError, bind, Except.bind, pure, Except.pure]

theorem addOutput_eq_ok {state state' : List DialectOutput × DispatchTable}
    (hd : s.get? d.name = some d) (h : g.addOutput s state d = .ok state') :
    (∃ ds, s.closure d.name = .ok ds) ∧ DialectSet.addDialect state.2 d = .ok state'.2 := by
  obtain ⟨output, houtput, h⟩ := bind_eq_ok_iff.1 h
  obtain ⟨dispatch, hdispatch, h⟩ := bind_eq_ok_iff.1 h
  cases h
  obtain ⟨-, hunits, ⟨ds, hclosure, -⟩, -⟩ := assemble_eq_ok hd houtput
  exact ⟨⟨ds, hclosure⟩, (foldlM_units hunits state.2).symm.trans (mapError_eq_ok_iff.1 hdispatch)⟩

theorem exists_addOutput (hg : g.render = Template.render) (hd : s.get? d.name = some d)
    {ds : List Dialect} {tables : MessageTables} (hclosure : s.closure d.name = .ok ds)
    (htables : tablesOf ds = .ok tables) (outputs : List DialectOutput) {t t' : DispatchTable}
    (hadd : DialectSet.addDialect t d = .ok t') :
    ∃ outputs', g.addOutput s (outputs, t) d = .ok (outputs', t') := by
  obtain ⟨units, hunits⟩ := exists_buildUnits hg hadd
  obtain ⟨output, houtput, rfl⟩ := exists_assemble hg hd hclosure htables hunits
  have hdispatch := (foldlM_units hunits t).trans hadd
  exact ⟨outputs ++ [output], bind_eq_ok_iff.2 ⟨output, houtput,
    bind_eq_ok_iff.2 ⟨t', mapError_eq_ok_iff.2 hdispatch, rfl⟩⟩⟩

theorem outputs_of_foldlM {ds : List Dialect} {state state' : List DialectOutput × DispatchTable}
    (h : ds.foldlM (g.addOutput s) state = .ok state') :
    ∃ outputs, ds.mapM (fun d => g.assemble s d.name) = .ok outputs ∧
      state'.1 = state.1 ++ outputs := by
  induction ds generalizing state with
  | nil =>
    cases h
    exact ⟨[], rfl, by simp⟩
  | cons d ds ih =>
    rw [List.foldlM_cons] at h
    obtain ⟨middle, hmiddle, h⟩ := bind_eq_ok_iff.1 h
    obtain ⟨output, houtput, hmiddle⟩ := bind_eq_ok_iff.1 hmiddle
    obtain ⟨dispatch, -, hmiddle⟩ := bind_eq_ok_iff.1 hmiddle
    cases hmiddle
    obtain ⟨outputs, houtputs, hstate⟩ := ih h
    refine ⟨output :: outputs, ?_, by simp [hstate]⟩
    rw [List.mapM_cons]
    exact bind_eq_ok_iff.2 ⟨output, houtput, bind_eq_ok_iff.2 ⟨outputs, houtputs, rfl⟩⟩

/-- What is generated for a set. -/
theorem run_eq_ok {generation : Generation} (h : g.run s = .ok generation) :
    s.dialects.mapM (fun d => g.assemble s d.name) = .ok generation.dialects ∧
      emitRoot g.render (s.dialects.map (·.name)) = .ok generation.root ∧
      ∃ rows, emitFraming g.render g.runtime rows = .ok generation.framing := by
  obtain ⟨⟨outputs, dispatch⟩, hfold, h⟩ := bind_eq_ok_iff.1 h
  obtain ⟨framing, hframing, h⟩ := bind_eq_ok_iff.1 h
  obtain ⟨root, hroot, h⟩ := bind_eq_ok_iff.1 h
  cases h
  obtain ⟨outputs', houtputs, rfl⟩ := outputs_of_foldlM hfold
  exact ⟨houtputs, mapError_eq_ok_iff.1 hroot, _, mapError_eq_ok_iff.1 hframing⟩

end Outputs

/-! ## Sets -/

section Sets

variable {g : Generator} {s : DialectSet} (hs : (s.dialects.map (·.name)).Nodup)
include hs

theorem foldlM_addOutput_eq_ok {ds : List Dialect} (hds : ∀ d ∈ ds, d ∈ s.dialects)
    {state state' : List DialectOutput × DispatchTable}
    (h : ds.foldlM (g.addOutput s) state = .ok state') :
    (∀ d ∈ ds, ∃ closure, s.closure d.name = .ok closure) ∧
      ds.foldlM DialectSet.addDialect state.2 = .ok state'.2 := by
  induction ds generalizing state with
  | nil =>
    cases h
    exact ⟨nofun, rfl⟩
  | cons d ds ih =>
    rw [List.foldlM_cons] at h
    obtain ⟨middle, hmiddle, h⟩ := bind_eq_ok_iff.1 h
    have hd := DialectSet.get?_name hs (hds d List.mem_cons_self)
    obtain ⟨hclosure, hadd⟩ := addOutput_eq_ok hd hmiddle
    obtain ⟨hclosures, htable⟩ := ih (fun d' hd' => hds d' (List.mem_cons_of_mem d hd')) h
    refine ⟨fun d' hd' => ?_, bind_eq_ok_iff.2 ⟨middle.2, hadd, htable⟩⟩
    rcases List.mem_cons.1 hd' with rfl | hd'
    · exact hclosure
    · exact hclosures d' hd'

/-- The dispatch table of a run is made of the messages of the set. -/
theorem dispatch_of_run {generation : Generation} (h : g.run s = .ok generation) :
    (∀ d ∈ s.dialects, ∃ closure, s.closure d.name = .ok closure) ∧
      s.dialects.foldlM DialectSet.addDialect {} = .ok generation.dispatch := by
  obtain ⟨⟨outputs, dispatch⟩, hfold, h⟩ := bind_eq_ok_iff.1 h
  obtain ⟨framing, -, h⟩ := bind_eq_ok_iff.1 h
  obtain ⟨root, -, h⟩ := bind_eq_ok_iff.1 h
  cases h
  exact foldlM_addOutput_eq_ok hs (fun _ hd => hd) hfold

theorem exists_foldlM_addOutput (hg : g.render = Template.render) {ds : List Dialect}
    (hds : ∀ d ∈ ds, d ∈ s.dialects)
    (htables : ∀ d ∈ ds, ∃ closure tables, s.closure d.name = .ok closure ∧
      tablesOf closure = .ok tables) (outputs : List DialectOutput) {t t' : DispatchTable}
    (h : ds.foldlM DialectSet.addDialect t = .ok t') :
    ∃ outputs', ds.foldlM (g.addOutput s) (outputs, t) = .ok (outputs', t') := by
  induction ds generalizing outputs t with
  | nil =>
    cases h
    exact ⟨outputs, rfl⟩
  | cons d ds ih =>
    rw [List.foldlM_cons] at h
    obtain ⟨middle, hmiddle, h⟩ := bind_eq_ok_iff.1 h
    have hd := DialectSet.get?_name hs (hds d List.mem_cons_self)
    obtain ⟨closure, tables, hclosure, htable⟩ := htables d List.mem_cons_self
    obtain ⟨outputs₁, houtputs₁⟩ := exists_addOutput hg hd hclosure htable outputs hmiddle
    obtain ⟨outputs₂, houtputs₂⟩ := ih (fun d' hd' => hds d' (List.mem_cons_of_mem d hd'))
      (fun d' hd' => htables d' (List.mem_cons_of_mem d hd')) outputs₁ h
    exact ⟨outputs₂, bind_eq_ok_iff.2 ⟨_, houtputs₁, houtputs₂⟩⟩

/-- Generation ends without a fault if all includes are known and all messages have ids and names
of their own. -/
theorem run_eq_ok_iff (hg : g.render = Template.render) {table : DispatchTable} :
    (∃ generation, g.run s = .ok generation ∧ generation.dispatch = table) ↔
      (∀ d ∈ s.dialects, ∃ closure, s.closure d.name = .ok closure) ∧
        s.dialects.foldlM DialectSet.addDialect {} = .ok table := by
  constructor
  · rintro ⟨generation, h, rfl⟩
    exact dispatch_of_run hs h
  · rintro ⟨hclosures, htable⟩
    have htables : ∀ d ∈ s.dialects, ∃ closure tables, s.closure d.name = .ok closure ∧
        tablesOf closure = .ok tables := by
      intro d hd
      obtain ⟨closure, hclosure⟩ := hclosures d hd
      obtain ⟨tables, htables⟩ := exists_tablesOf hclosure htable
      exact ⟨closure, tables, hclosure, htables⟩
    obtain ⟨outputs, houtputs⟩ := exists_foldlM_addOutput hs hg (fun _ hd => hd) htables [] htable
    obtain ⟨framing, hframing⟩ := exists_emitFraming g.runtime
      (table.entries.entries.map fun p => entryRow p.1 p.2)
    obtain ⟨root, hroot⟩ := exists_emitRoot (s.dialects.map (·.name))
    rw [← hg] at hframing hroot
    refine ⟨⟨outputs, table, framing, root⟩, ?_, rfl⟩
    exact bind_eq_ok_iff.2 ⟨(outputs, table), houtputs, bind_eq_ok_iff.2
      ⟨framing, mapError_eq_ok_iff.2 hframing, bind_eq_ok_iff.2
        ⟨root, mapError_eq_ok_iff.2 hroot, rfl⟩⟩⟩

end Sets

end Generate.Generator

/-- **A generator and a receiver have the same dispatch table.** For a set that dialects were added
to, with includes of any kind, generation ends without a fault exactly if the dispatch table of all
names can be built, whatever the number of jobs. Its dispatch table is then that one. -/
theorem run_dispatches {dialects : List Dialect} {s : DialectSet}
    (hs : dialects.foldlM DialectSet.insert {} = .ok s) {names : List String}
    (hnames : ∀ n, n ∈ names ↔ n ∈ s.dialects.map (·.name)) {g : Generator}
    (hg : g.render = Template.render) :
    (g.run s).toOption.map (·.dispatch) = (s.dispatchTable names).toOption := by
  have hnodup := DialectSet.names_nodup hs
  ext table
  have hrun : (g.run s).toOption.map (·.dispatch) = some table ↔
      ∃ generation, g.run s = .ok generation ∧ generation.dispatch = table := by
    cases g.run s <;> simp [Except.toOption]
  have htable : (s.dispatchTable names).toOption = some table ↔
      s.dispatchTable names = .ok table := by
    cases s.dispatchTable names <;> simp [Except.toOption]
  rw [hrun, htable, Generator.run_eq_ok_iff hnodup hg,
    DialectSet.dispatchTable_eq_ok_iff hnodup hnames]

/-- Two dialects that include each other. -/
def Dialect.looped : List Dialect :=
  [{ name := "base", includes := ["extra"], messages := [Message.status] },
    { name := "extra", includes := ["base"],
      messages := [{ Message.status with id := 8, name := "OTHER" }] }]

/-- The dialects include each other, the work is split into three jobs, and the names come in
another order. -/
theorem run_dispatches_looped :
    let s : DialectSet := { dialects := Dialect.looped }
    let g : Generator := { jobs := 3 }
    Dialect.looped.foldlM DialectSet.insert {} = .ok s ∧
      (g.run s).toOption.map (·.dispatch) = (s.dispatchTable ["extra", "base"]).toOption ∧
      (s.dispatchTable ["extra", "base"]).toOption.map (·.size) = some 2 := by
  intro s g
  have hs : Dialect.looped.foldlM DialectSet.insert {} = .ok s := rfl
  refine ⟨hs, run_dispatches hs (fun n => ?_) rfl, rfl⟩
  simp [s, Dialect.looped, or_comm]

end Telemetry
