import Telemetry.Proofs.Emissions
import Telemetry.Proofs.IncludeOrder
import Telemetry.Proofs.Registration
import Telemetry.Proofs.StableOrder

/-!
# The fingerprints of closures

The tables of a dialect come from a walk along its includes, the dispatch table comes from the set.
Both are made of messages whose order does not matter, so they say the same of a message that both
have. A dialect is in its own closure, so its tables have all its messages.

* `Generator.fingerprints_of_closure`, `Generator.fingerprints_of_run`: the tables of a closure and
  the dispatch table.
* `Generator.assemble_ne_missingFingerprint`: no message goes without a fingerprint.
* `tables_gather`: rows, sets and runs.
-/

namespace Telemetry

/-! ## Tables of closures -/

/-- The table of dialects has the fingerprint of each message. -/
theorem DialectSet.fingerprint_of_message {ds : List Dialect} {table : DispatchTable}
    (htable : ds.foldlM addDialect {} = .ok table) {d : Dialect} {m : Message} (hd : d ∈ ds)
    (hm : m ∈ d.messages) : table.fingerprints.get? m.id = some m.fingerprint := by
  have hmem : (d, m) ∈ messagesOf ds := mem_messagesOf.2 ⟨hd, hm⟩
  obtain ⟨es, hes, hholds⟩ := holds_of_addDialect htable
  obtain ⟨e, -, hentry⟩ := exists_of_mapM_left hes hmem
  have hdescribes := entry_eq_ok_iff.1 hentry
  have hget : table.get? m.id = some e :=
    (get?_iff_of_entries hes hholds).2 ⟨(d, m), hmem, rfl, hdescribes⟩
  rw [hholds.consistent.fingerprints, hget, Option.map_some, hdescribes.fingerprint]

namespace Generate.Generator

open DialectSet

/-- The tables of a closure have the fingerprints of the dispatch table for its messages, and no
others. -/
theorem fingerprints_of_closure {s : DialectSet} {ds : List Dialect} {table : DispatchTable}
    {tables : MessageTables} (hds : ∀ d ∈ ds, d ∈ s.dialects)
    (htable : s.dialects.foldlM addDialect {} = .ok table) (htables : tablesOf ds = .ok tables)
    (id : Nat) :
    tables.fingerprints.get? id =
      if id ∈ (ds.flatMap (·.messages)).map (·.id) then table.fingerprints.get? id else none := by
  have hlists := MessageTables.lists_ofRows htables
  split
  · rename_i hid
    obtain ⟨m, hm, rfl⟩ := List.mem_map.1 hid
    obtain ⟨d, hd, hm⟩ := List.mem_flatMap.1 hm
    rw [fingerprint_of_message htable (hds d hd) hm]
    refine (hlists.fingerprints m.id m.fingerprint).2 ⟨m.row d.name, ?_, rfl, rfl⟩
    exact List.mem_flatMap.2 ⟨d, hd, List.mem_map_of_mem hm⟩
  · rename_i hid
    rw [hlists.fingerprints.get?_eq_none_iff]
    rintro r hr rfl
    obtain ⟨d, hd, hr⟩ := List.mem_flatMap.1 hr
    obtain ⟨m, hm, rfl⟩ := List.mem_map.1 hr
    exact hid (List.mem_map.2 ⟨m, List.mem_flatMap.2 ⟨d, hd, hm⟩, rfl⟩)

/-- In a run, each dialect has the fingerprints of the dispatch table for its closure. -/
theorem fingerprints_of_run {g : Generator} {s : DialectSet} {generation : Generation}
    (hs : (s.dialects.map (·.name)).Nodup) (h : g.run s = .ok generation) :
    List.Forall₂ (fun d output => output.name = d.name ∧ ∃ ds, s.closure d.name = .ok ds ∧
      ∀ id, output.tables.fingerprints.get? id =
        if id ∈ (ds.flatMap (·.messages)).map (·.id) then generation.dispatch.fingerprints.get? id
        else none) s.dialects generation.dialects := by
  have hdispatch := (dispatch_of_run hs h).2
  have houtputs := mapM_eq_ok_iff.1 (run_eq_ok h).1
  refine (List.forall₂_and_left _ _).2 ⟨fun d hd => hd, houtputs⟩ |>.imp ?_
  rintro d output ⟨hd, houtput⟩
  obtain ⟨hname, -, ⟨ds, hds, htables⟩, -⟩ := assemble_eq_ok (get?_name hs hd) houtput
  exact ⟨hname, ds, hds, fingerprints_of_closure (mem_of_closure hds) hdispatch htables⟩

end Generate.Generator

/-! ## Faults -/

theorem SchemaError.lift_eq_schema_iff {α : Type} {step : Except SchemaError α} {e : SchemaError} :
    lift step = .error (.schema e) ↔ step = .error e := by
  simp only [lift, mapError_eq_error_iff, CompileError.schema.injEq, exists_eq_right]

theorem DialectSet.closure_ne_missingFingerprint {s : DialectSet} {name : String} (id : Nat) :
    s.closure name ≠ .error (.missingFingerprint id) := by
  intro h
  cases hget : s.get? name with
  | none =>
    unfold closure at h
    simp [hget] at h
  | some root =>
    obtain ⟨d, i, -, -, -, he⟩ := closure_eq_error hget h
    cases he

theorem LayoutPlan.ofMessage_ne_missingFingerprint {m : Message} {sorted : Bool} (id : Nat) :
    ofMessage m sorted ≠ .error (.missingFingerprint id) := by
  intro h
  rcases bind_eq_error_iff.1 h with h | ⟨order, -, h⟩
  · obtain ⟨before, f, after, -, -, -, he⟩ := wireOrder_eq_error_iff.1 h
    cases he
  · dsimp only at h
    split at h
    · cases h
    · split at h
      · cases h
      · cases h

namespace Generate.Generator

variable {g : Generator}

theorem liftTemplate_ne_schema {α : Type} {step : Except TemplateError α} {e : SchemaError} :
    liftTemplate step ≠ .error (.schema e) := by
  simp [liftTemplate, mapError_eq_error_iff]

theorem buildUnits_ne_missingFingerprint {d : Dialect} (id : Nat) :
    g.buildUnits d ≠ .error (.schema (.missingFingerprint id)) := by
  intro h
  rw [buildUnits_eq] at h
  obtain ⟨before, m, after, -, -, h⟩ := mapM_eq_error_iff.1 h
  rcases bind_eq_error_iff.1 h with h | ⟨plan, -, h⟩
  · exact LayoutPlan.ofMessage_ne_missingFingerprint id (SchemaError.lift_eq_schema_iff.1 h)
  rcases bind_eq_error_iff.1 h with h | ⟨emission, -, h⟩
  · exact liftTemplate_ne_schema h
  · cases h

/-- A dialect that is generated has fingerprints for its messages: whatever the fault, it is another
one. -/
theorem assemble_ne_missingFingerprint {s : DialectSet} {name : String} (id : Nat) :
    g.assemble s name ≠ .error (.schema (.missingFingerprint id)) := by
  intro h
  rcases bind_eq_error_iff.1 h with h | ⟨ds, hds, h⟩
  · exact DialectSet.closure_ne_missingFingerprint id (SchemaError.lift_eq_schema_iff.1 h)
  cases hget : s.get? name with
  | none =>
    rw [hget] at h
    cases h
  | some d =>
    rw [hget] at h
    rcases bind_eq_error_iff.1 h with h | ⟨tables, htables, h⟩
    · exact MessageTables.ofRows_ne_missingFingerprint id (SchemaError.lift_eq_schema_iff.1 h)
    rcases bind_eq_error_iff.1 h with h | ⟨units, hunits, h⟩
    · exact buildUnits_ne_missingFingerprint id h
    -- The check itself finds nothing, since the dialect is in its own closure.
    have hmem := DialectSet.self_mem_closure hget (mapError_eq_ok_iff.1 hds)
    rw [checkFingerprint_units hmem (mapError_eq_ok_iff.1 htables) hunits] at h
    rcases bind_eq_error_iff.1 h with h | ⟨-, -, h⟩
    · cases h
    rcases bind_eq_error_iff.1 h with h | ⟨enums, -, h⟩
    · exact liftTemplate_ne_schema h
    rcases bind_eq_error_iff.1 h with h | ⟨module, -, h⟩
    · exact liftTemplate_ne_schema h
    · cases h

end Generate.Generator

open Generate

/-- **The order of rows does not matter to tables.** Rows have tables exactly if their ids differ
and their names differ. In another order they have the same tables, or none again. Tables hold the
rows they were made of, each once and with ascending ids, and the fingerprints of these rows and no
others. So a dialect is never generated without the fingerprint of a message. In every run for a set
that dialects were added to, the fingerprints of a dialect are those of the dispatch table,
restricted to the messages of the dialect and of all it includes. -/
theorem tables_gather (rows : List TableRow) :
    ((∃ t, MessageTables.ofRows rows = .ok t) ↔
      (rows.map (·.id)).Nodup ∧ (rows.map (·.name)).Nodup) ∧
    (∀ rows', rows.Perm rows' →
      (MessageTables.ofRows rows').toOption = (MessageTables.ofRows rows).toOption) ∧
    (∀ t, MessageTables.ofRows rows = .ok t →
      t.rows.values.Pairwise (fun r r' => r.id < r'.id) ∧ t.rows.values.Perm rows ∧
      ∀ id fingerprint, t.fingerprints.get? id = some fingerprint ↔
        ∃ r ∈ rows, r.id = id ∧ r.fingerprint = fingerprint) ∧
    (∀ (g : Generator) (s : DialectSet) (name : String) (id : Nat),
      g.assemble s name ≠ .error (.schema (.missingFingerprint id))) ∧
    (∀ (dialects : List Dialect) (s : DialectSet), dialects.foldlM DialectSet.insert {} = .ok s →
      ∀ (g : Generator) (generation : Generation), g.run s = .ok generation →
        List.Forall₂ (fun d output => output.name = d.name ∧ ∃ ds, s.closure d.name = .ok ds ∧
          ∀ id, output.tables.fingerprints.get? id =
            if id ∈ (ds.flatMap (·.messages)).map (·.id) then
              generation.dispatch.fingerprints.get? id
            else none) s.dialects generation.dialects) := by
  refine ⟨MessageTables.exists_ofRows_iff, fun rows' => MessageTables.toOption_ofRows_perm,
    fun t ht => ?_, fun g s name => Generator.assemble_ne_missingFingerprint,
    fun dialects s hs g generation => Generator.fingerprints_of_run (DialectSet.names_nodup hs)⟩
  have hlists := MessageTables.lists_ofRows ht
  obtain ⟨hids, -⟩ := MessageTables.exists_ofRows_iff.1 ⟨t, ht⟩
  exact ⟨hlists.values_ascending, hlists.values_perm hids, hlists.fingerprints⟩

/-- A dialect and another one that includes it. -/
def Dialect.layered : List Dialect :=
  [{ name := "base", messages := [Message.status] },
    { name := "extra", includes := ["base"],
      messages := [{ Message.status with id := 3, name := "ALERT", fingerprint := 25 }] }]

/-- The rows come with the greater id first. In the run, the dialect without includes has one of the
two fingerprints. -/
theorem tables_gather_layered :
    let rows : List TableRow :=
      [Message.status.row "base", { Message.status.row "extra" with id := 3, name := "ALERT" }]
    let s : DialectSet := { dialects := Dialect.layered }
    (∃ t, MessageTables.ofRows rows = .ok t ∧ t.rows.values.map (·.id) = [3, 7] ∧
      t.rows.values.Perm rows) ∧
    Dialect.layered.foldlM DialectSet.insert {} = .ok s ∧
    ∃ generation, nameGenerator.run s = .ok generation ∧
      generation.dispatch.fingerprints.get? 3 = some 25 ∧
      ∃ output ∈ generation.dialects, output.name = "base" ∧
        output.tables.fingerprints.get? 3 = none ∧
        output.tables.fingerprints.get? 7 = generation.dispatch.fingerprints.get? 7 := by
  intro rows s
  obtain ⟨-, -, htables, -, hruns⟩ := tables_gather rows
  have hs : Dialect.layered.foldlM DialectSet.insert {} = .ok s := rfl
  obtain ⟨t, ht, hids⟩ : ∃ t, MessageTables.ofRows rows = .ok t ∧
      t.rows.values.map (·.id) = [3, 7] :=
    exists_of_toOption_map (by decide +kernel)
  obtain ⟨generation, hrun, hdispatch⟩ : ∃ generation, nameGenerator.run s = .ok generation ∧
      generation.dispatch.fingerprints.get? 3 = some 25 :=
    exists_of_toOption_map (by decide +kernel)
  refine ⟨⟨t, ht, hids, (htables t ht).2.1⟩, hs, generation, hrun, hdispatch, ?_⟩
  obtain ⟨output, outputs, ⟨hname, ds, hds, hfingerprints⟩, -, houtputs⟩ :=
    List.forall₂_cons_left_iff.1 (hruns _ s hs _ _ hrun)
  -- The closure of the first dialect is the dialect alone.
  obtain rfl : [{ name := "base", messages := [Message.status] }] = ds :=
    Except.ok.inj hds
  exact ⟨output, by simp [houtputs], hname, hfingerprints 3, hfingerprints 7⟩

end Telemetry
