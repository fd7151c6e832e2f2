import Telemetry.Proofs.Closure

/-!
# Which entries a dispatch table takes

A table takes an entry unless one with the same id or the same name is in it. Its three indexes are
changed one by one, but whatever it was offered before, and whatever it refused, they say the same.

* `DispatchEntry.Clashes`: entries of which a table can hold only one.
* `DispatchTable.kept`: of the entries that a table is offered, those that it takes.
* `DispatchTable.Holds`: a table with given entries and no others; `DispatchTable.Holds.offer` is
  what one attempt does, `DispatchTable.holds_offers` what a row of them does.
* `DispatchTable.exists_adds_iff`, `DispatchTable.Holds.adds`: when all entries of a list are
  taken, and what the table holds then.
* `offers_indexed`: what holds of the indexes after any row of attempts.
* `DispatchEntry.Describes`: the entry of a message. `DialectSet.exists_addDialect_iff` and
  `DialectSet.get?_iff_of_entries` say when the messages of dialects have a table, and which.
-/

namespace Telemetry

/-- Whether two entries stand in each other's way: they share the id or the name. -/
def DispatchEntry.Clashes (e e' : DispatchEntry) : Prop :=
  e.plan.id = e'.plan.id ∨ e.name = e'.name

instance (e e' : DispatchEntry) : Decidable (e.Clashes e') :=
  inferInstanceAs (Decidable (_ ∨ _))

theorem pairwise_not_clashes_iff {es : List DispatchEntry} :
    es.Pairwise (fun e e' => ¬ e.Clashes e') ↔
      (es.map (·.plan.id)).Nodup ∧ (es.map (·.name)).Nodup :=
  pairwise_differ_iff

namespace DispatchTable

/-- The entries of a table, in the order in which they came, after one more was offered. -/
def keep (entries : List DispatchEntry) (e : DispatchEntry) : List DispatchEntry :=
  if ∃ e' ∈ entries, e'.Clashes e then entries else entries ++ [e]

/-- Of the entries that a table is offered one after the other, those that it takes: each that
clashes with none of those it took before. -/
def kept (offered : List DispatchEntry) : List DispatchEntry := offered.foldl keep []

/-! ## Attempts -/

/-- A table with given entries and no others, which are all it was ever given. -/
structure Holds (t : DispatchTable) (entries : List DispatchEntry) : Prop where
  consistent : t.Consistent
  get?_iff {id : Nat} {e : DispatchEntry} : t.get? id = some e ↔ e ∈ entries ∧ e.plan.id = id
  added : entries.foldlM add {} = .ok t
  size : t.size = entries.length

theorem holds_empty : ({} : DispatchTable).Holds [] where
  consistent := consistent_empty
  get?_iff := ⟨fun h => (nomatch h), fun h => absurd h.1 List.not_mem_nil⟩
  added := rfl
  size := rfl

namespace Holds

variable {t t' : DispatchTable} {entries : List DispatchEntry} {e : DispatchEntry}

/-- Id and name of an entry are not in the table if it clashes with none that the table holds. -/
theorem new_iff (h : t.Holds entries) :
    t.get? e.plan.id = none ∧ t.ids.get? e.name = none ↔ ∀ e' ∈ entries, ¬ e'.Clashes e := by
  have hid : t.get? e.plan.id = none ↔ ∀ e' ∈ entries, e'.plan.id ≠ e.plan.id := by
    rw [Option.eq_none_iff_forall_ne_some]
    simp only [ne_eq, h.get?_iff, not_and]
  have hname : t.ids.get? e.name = none ↔ ∀ e' ∈ entries, e'.name ≠ e.name := by
    rw [Option.eq_none_iff_forall_ne_some]
    simp only [ne_eq, h.consistent.ids_iff, h.get?_iff, not_exists, not_and]
    exact ⟨fun hnone e' he' => hnone e'.plan.id e' ⟨he', rfl⟩, fun hnone _ e' he' => hnone e' he'.1⟩
  rw [hid, hname, ← forall₂_and]
  simp only [DispatchEntry.Clashes, not_or, ne_eq]

theorem add_eq_ok_iff (h : t.Holds entries) :
    t.add e = .ok t' ↔ (∀ e' ∈ entries, ¬ e'.Clashes e) ∧ t' = t.extend e := by
  rw [DispatchTable.add_eq_ok_iff, ← and_assoc, h.new_iff]

theorem extend (h : t.Holds entries) (he : ∀ e' ∈ entries, ¬ e'.Clashes e) :
    (t.extend e).Holds (entries ++ [e]) := by
  obtain ⟨hnewId, hnewName⟩ := h.new_iff.2 he
  refine ⟨h.consistent.extend hnewId hnewName, fun {id e'} => ?_, ?_, ?_⟩
  · rw [get?_extend, List.mem_append, List.mem_singleton]
    by_cases hid : id = e.plan.id
    · -- No other entry has this id.
      subst hid
      have hother : ¬ (e' ∈ entries ∧ e'.plan.id = e.plan.id) := fun h' => he e' h'.1 (.inl h'.2)
      rw [if_pos rfl, Option.some.injEq]
      constructor
      · rintro rfl
        exact ⟨.inr rfl, rfl⟩
      · rintro ⟨hmem | rfl, heq⟩
        · exact absurd ⟨hmem, heq⟩ hother
        · rfl
    · rw [if_neg hid, h.get?_iff]
      constructor
      · rintro ⟨hmem, heq⟩
        exact ⟨.inl hmem, heq⟩
      · rintro ⟨hmem | rfl, heq⟩
        · exact ⟨hmem, heq⟩
        · exact absurd heq.symm hid
  · rw [List.foldlM_append]
    have hadd : t.add e = .ok (t.extend e) := h.add_eq_ok_iff.2 ⟨he, rfl⟩
    exact bind_eq_ok_iff.2 ⟨t, h.added, bind_eq_ok_iff.2 ⟨_, hadd, rfl⟩⟩
  · have hplace : (t.extend e).size = t.size + 1 := SortedMap.length_place hnewId
    rw [hplace, h.size, List.length_append, List.length_singleton]

/-- What one attempt does: the entry is taken, or nothing changes. -/
theorem offer (h : t.Holds entries) (e : DispatchEntry) : (t.offer e).Holds (keep entries e) := by
  have hnew : (∃ e' ∈ entries, e'.Clashes e) ↔
      ¬ (t.get? e.plan.id = none ∧ t.ids.get? e.name = none) := by
    rw [h.new_iff]
    simp
  rcases insert_cases t e with ⟨first, hid, hrun⟩ | ⟨-, id, hname, hrun⟩ | ⟨hid, hname, hrun⟩
  · rw [offer_of_error hrun, keep, if_pos (hnew.2 (by simp [hid]))]
    exact h
  · rw [offer_of_error hrun, keep, if_pos (hnew.2 (by simp [hname]))]
    exact h
  · rw [offer_of_ok hrun, keep, if_neg (fun hclash => hnew.1 hclash ⟨hid, hname⟩)]
    exact h.extend (h.new_iff.1 ⟨hid, hname⟩)

end Holds

/-- What a row of attempts does. -/
theorem holds_offers (offered : List DispatchEntry) :
    (offered.foldl offer {}).Holds (kept offered) := by
  suffices h : ∀ (t : DispatchTable) (entries : List DispatchEntry), t.Holds entries →
      (offered.foldl offer t).Holds (offered.foldl keep entries) from h {} [] holds_empty
  induction offered with
  | nil => exact fun _ _ h => h
  | cons e offered ih => exact fun t entries h => ih _ _ (h.offer e)

/-! ## Entries that are all taken -/

/-- A table gathers the entries that it takes. -/
theorem gathers_add : Gathers add DispatchEntry.Clashes Holds where
  exists_iff h := by simp only [h.add_eq_ok_iff, exists_and_left, exists_eq, and_true]
  holds h hadd := by
    obtain ⟨he, rfl⟩ := h.add_eq_ok_iff.1 hadd
    exact h.extend he

/-- All entries of a list are taken if no two of them clash, and none with one of the table. -/
theorem exists_adds_iff {t : DispatchTable} {entries es : List DispatchEntry}
    (h : t.Holds entries) :
    (∃ t', es.foldlM add t = .ok t') ↔
      es.Pairwise (fun e e' => ¬ e.Clashes e') ∧ ∀ e ∈ entries, ∀ e' ∈ es, ¬ e.Clashes e' :=
  gathers_add.exists_foldlM_iff h

/-- An empty table takes all entries of a list if they have ids and names of their own. -/
theorem exists_adds_empty_iff {es : List DispatchEntry} :
    (∃ t, es.foldlM add {} = .ok t) ↔
      (es.map (·.plan.id)).Nodup ∧ (es.map (·.name)).Nodup := by
  rw [exists_adds_iff holds_empty, pairwise_not_clashes_iff]
  exact and_iff_left fun e he => absurd he List.not_mem_nil

theorem Holds.adds {t t' : DispatchTable} {entries es : List DispatchEntry} (h : t.Holds entries)
    (hes : es.foldlM add t = .ok t') : t'.Holds (entries ++ es) :=
  gathers_add.foldlM h hes

/-! ## Indexes -/

namespace Consistent

variable {t : DispatchTable} (ht : t.Consistent)
include ht

/-- The fingerprints are listed as the entries are. -/
theorem fingerprints_entries :
    t.fingerprints.entries = t.entries.entries.map fun p => (p.1, p.2.fingerprint) := by
  refine SortedMap.entries_eq_of_lookup t.fingerprints.ascending ?_ fun id => ?_
  · rw [List.pairwise_map]
    exact t.entries.ascending
  · rw [SortedMap.lookup_map]
    exact ht.fingerprints id

/-- A name leads to the one entry that has it. -/
theorem getNamed?_eq_some_iff {name : String} {e : DispatchEntry} :
    t.getNamed? name = some e ↔ t.get? e.plan.id = some e ∧ e.name = name := by
  constructor
  · intro h
    obtain ⟨hname, hget, -⟩ := ht.getNamed?_eq_some h
    exact ⟨hget, hname⟩
  · rintro ⟨hget, hname⟩
    have hid : t.ids.get? name = some e.plan.id := ht.ids_iff.2 ⟨e, hget, hname⟩
    rw [getNamed?, hid]
    exact hget

theorem name_inj {id id' : Nat} {e e' : DispatchEntry} (h : t.get? id = some e)
    (h' : t.get? id' = some e') (hname : e.name = e'.name) : id = id' := by
  have hid : t.ids.get? e.name = some id := ht.ids_iff.2 ⟨e, h, rfl⟩
  have hid' : t.ids.get? e.name = some id' := ht.ids_iff.2 ⟨e', h', hname.symm⟩
  exact Option.some.inj (hid.symm.trans hid')

/-- An entry is refused if its id or its name is in the table. -/
theorem insert_eq_error_iff {e : DispatchEntry} :
    (∃ fault t', (insert e).run t = .error fault t') ↔
      (∃ e', t.get? e.plan.id = some e') ∨ ∃ id e', t.get? id = some e' ∧ e'.name = e.name := by
  have hname : (∃ id e', t.get? id = some e' ∧ e'.name = e.name) ↔
      ∃ id, t.ids.get? e.name = some id := by
    simp only [ht.ids_iff]
  rw [hname]
  rcases insert_cases t e with ⟨first, hid, h⟩ | ⟨hid, id, hname, h⟩ | ⟨hid, hname, h⟩
  · simp [h, hid]
  · simp [h, hname]
  · simp [h, hid, hname]

end Consistent

end DispatchTable

/-- **The indexes of a dispatch table say the same.** Take a table that any entries were offered to,
one after the other. It has fingerprints for the ids that it has entries for, and they are those of
the entries. Every entry stands under the id of its plan. The ids by name are the inverse of the
names by id, so that names differ and a name leads to the one entry that has it. A further entry is
refused exactly if its id or its name is there, and then the table stays as it is; otherwise the
entry stands under its id, and all others as before. So the table holds the entries that were taken,
and these would have led to the same table without the others. -/
theorem offers_indexed (offered : List DispatchEntry) :
    let t := offered.foldl DispatchTable.offer {}
    t.fingerprints.entries = t.entries.entries.map (fun p => (p.1, p.2.fingerprint)) ∧
    (∀ id e, t.get? id = some e → e.plan.id = id) ∧
    (∀ name id, t.ids.get? name = some id ↔ ∃ e, t.get? id = some e ∧ e.name = name) ∧
    (∀ id id' e e', t.get? id = some e → t.get? id' = some e' → e.name = e'.name → id = id') ∧
    (∀ name e, t.getNamed? name = some e ↔ t.get? e.plan.id = some e ∧ e.name = name) ∧
    (∀ e, (∃ fault t', (DispatchTable.insert e).run t = .error fault t') ↔
      (∃ e', t.get? e.plan.id = some e') ∨ ∃ id e', t.get? id = some e' ∧ e'.name = e.name) ∧
    (∀ e fault t', (DispatchTable.insert e).run t = .error fault t' → t' = t) ∧
    (∀ e t', (DispatchTable.insert e).run t = .ok () t' →
      ∀ id, t'.get? id = if id = e.plan.id then some e else t.get? id) ∧
    (∀ id e, t.get? id = some e ↔ e ∈ DispatchTable.kept offered ∧ e.plan.id = id) ∧
    (DispatchTable.kept offered).foldlM DispatchTable.add {} = .ok t := by
  intro t
  have h : t.Holds (DispatchTable.kept offered) := DispatchTable.holds_offers offered
  have ht := h.consistent
  refine ⟨ht.fingerprints_entries, fun _ _ => ht.plan_id, fun _ _ => ht.ids_iff,
    fun _ _ _ _ => ht.name_inj, fun _ _ => ht.getNamed?_eq_some_iff,
    fun _ => ht.insert_eq_error_iff, fun _ _ _ => DispatchTable.eq_of_insert_eq_error, ?_,
    fun _ _ => h.get?_iff, h.added⟩
  intro e t' hinsert id
  obtain ⟨-, -, rfl⟩ := DispatchTable.insert_eq_ok_iff.1 hinsert
  exact t.get?_extend e id

/-- The entry of a message without fields. -/
def DispatchEntry.fieldless (id : Nat) (name : String) : DispatchEntry where
  dialect := "base"
  name := name
  fingerprint := UInt8.ofNat id
  order := .little
  plan := { id, name, baseSteps := [], extensionSteps := [], baseLength := 0, fullLength := 0 }

/-- A name that is there is offered again under an id of its own, and an id that is there under
another name. Neither is taken, then or later. -/
theorem offers_indexed_renamed :
    let ping : DispatchEntry := .fieldless 1 "PING"
    let pong : DispatchEntry := .fieldless 2 "PONG"
    let renamed : DispatchEntry := .fieldless 3 "PING"
    let pang : DispatchEntry := .fieldless 3 "PANG"
    let offered : List DispatchEntry := [ping, renamed, pong, .fieldless 1 "PANG"]
    let t := offered.foldl DispatchTable.offer {}
    DispatchTable.kept offered = [ping, pong] ∧
    (∀ id e, t.get? id = some e ↔ e ∈ [ping, pong] ∧ e.plan.id = id) ∧
    t.getNamed? "PING" = some ping ∧
    (∃ fault, (DispatchTable.insert renamed).run t = .error fault t) ∧
    ∃ t', (DispatchTable.insert pang).run t = .ok () t' ∧
      t'.get? 3 = some pang ∧ t'.get? 1 = some ping := by
  intro ping pong renamed pang offered t
  obtain ⟨-, -, -, -, hnamed, hfails, hsame, htaken, hget, -⟩ := offers_indexed offered
  have hkept : DispatchTable.kept offered = [ping, pong] := by decide +kernel
  rw [hkept] at hget
  have hping : t.get? 1 = some ping := (hget 1 ping).2 ⟨List.mem_cons_self, rfl⟩
  refine ⟨hkept, hget, (hnamed "PING" ping).2 ⟨hping, rfl⟩, ?_, ?_⟩
  · obtain ⟨fault, t', hrun⟩ := (hfails renamed).2 (.inr ⟨1, ping, hping, rfl⟩)
    rw [hsame renamed fault t' hrun] at hrun
    exact ⟨fault, hrun⟩
  · have hnew : ¬ ∃ fault t', (DispatchTable.insert pang).run t = .error fault t' := by
      rw [hfails]
      simp [hget, ping, pong, pang, DispatchEntry.fieldless]
    cases hrun : (DispatchTable.insert pang).run t with
    | error fault t' => exact absurd ⟨fault, t', hrun⟩ hnew
    | ok _ t' => exact ⟨t', rfl, htaken _ _ hrun 3, (htaken _ _ hrun 1).trans hping⟩

/-! ## Messages of dialects -/

/-- An entry is that of a message of a dialect. -/
structure DispatchEntry.Describes (e : DispatchEntry) (d : Dialect) (m : Message) : Prop where
  dialect : e.dialect = d.name
  order : e.order = d.flags.order
  name : e.name = m.name
  fingerprint : e.fingerprint = m.fingerprint
  plan : LayoutPlan.ofMessage m d.flags.sortFields = .ok e.plan

namespace DialectSet

theorem entry_eq_ok_iff {d : Dialect} {m : Message} {e : DispatchEntry} :
    entry d m = .ok e ↔ e.Describes d m := by
  constructor
  · intro h
    obtain ⟨plan, hplan, rfl⟩ := entry_eq_ok h
    exact ⟨rfl, rfl, rfl, rfl, hplan⟩
  · rintro ⟨hdialect, horder, hname, hfingerprint, hplan⟩
    refine bind_eq_ok_iff.2 ⟨e.plan, hplan, ?_⟩
    rw [← hdialect, ← horder, ← hname, ← hfingerprint]
    rfl

/-- The table of dialects holds the entries of their messages. -/
theorem holds_of_addDialect {ds : List Dialect} {table : DispatchTable}
    (h : ds.foldlM addDialect {} = .ok table) :
    ∃ es, (messagesOf ds).mapM (fun m => entry m.1 m.2) = .ok es ∧ table.Holds es := by
  rw [foldlM_addDialect] at h
  obtain ⟨es, hes, h⟩ := foldlM_found_eq_ok_iff.1 h
  exact ⟨es, hes, DispatchTable.holds_empty.adds h⟩

theorem mem_messagesOf {ds : List Dialect} {m : Dialect × Message} :
    m ∈ messagesOf ds ↔ m.1 ∈ ds ∧ m.2 ∈ m.1.messages := by
  obtain ⟨d, m⟩ := m
  simp [messagesOf]

/-- The entries of messages have their ids and names. -/
theorem keys_of_entries {ms : List (Dialect × Message)} {es : List DispatchEntry}
    (h : ms.mapM (fun m => entry m.1 m.2) = .ok es) :
    es.map (·.plan.id) = ms.map (·.2.id) ∧ es.map (·.name) = ms.map (·.2.name) := by
  rw [mapM_eq_ok_iff] at h
  induction h with
  | nil => exact ⟨rfl, rfl⟩
  | cons hentry _ ih =>
    obtain ⟨-, -, hname, -, hplan⟩ := entry_eq_ok_iff.1 hentry
    obtain ⟨-, -, hid, -⟩ := LayoutPlan.ofMessage_eq_ok hplan
    simp only [List.map_cons, hid, hname, ih.1, ih.2, and_self]

/-- A table of the entries of messages has one for each of them. -/
theorem get?_iff_of_entries {ms : List (Dialect × Message)} {es : List DispatchEntry}
    {table : DispatchTable} (hes : ms.mapM (fun m => entry m.1 m.2) = .ok es) (h : table.Holds es)
    {id : Nat} {e : DispatchEntry} :
    table.get? id = some e ↔ ∃ m ∈ ms, m.2.id = id ∧ e.Describes m.1 m.2 := by
  have hid {m : Dialect × Message} (hm : e.Describes m.1 m.2) : e.plan.id = m.2.id := by
    obtain ⟨-, -, hid, -⟩ := LayoutPlan.ofMessage_eq_ok hm.plan
    exact hid
  rw [h.get?_iff]
  constructor
  · rintro ⟨he, rfl⟩
    obtain ⟨m, hm, hentry⟩ := exists_of_mapM_right hes he
    have hdescribes := entry_eq_ok_iff.1 hentry
    exact ⟨m, hm, (hid hdescribes).symm, hdescribes⟩
  · rintro ⟨m, hm, rfl, hdescribes⟩
    obtain ⟨e', he', hentry⟩ := exists_of_mapM_left hes hm
    cases (entry_eq_ok_iff.2 hdescribes).symm.trans hentry
    exact ⟨he', hid hdescribes⟩

/-- Dialects whose messages can be planned have a table if the messages have ids and names of their
own. -/
theorem exists_addDialect_iff {ds : List Dialect}
    (hplans : ∀ d ∈ ds, ∀ m ∈ d.messages,
      ∃ plan, LayoutPlan.ofMessage m d.flags.sortFields = .ok plan) :
    (∃ table, ds.foldlM addDialect {} = .ok table) ↔
      ((messagesOf ds).map (·.2.id)).Nodup ∧ ((messagesOf ds).map (·.2.name)).Nodup := by
  obtain ⟨es, hes⟩ : ∃ es, (messagesOf ds).mapM (fun m => entry m.1 m.2) = .ok es := by
    refine exists_mapM_eq_ok fun m hm => ?_
    obtain ⟨hd, hm⟩ := mem_messagesOf.1 hm
    obtain ⟨plan, hplan⟩ := hplans m.1 hd m.2 hm
    exact ⟨_, bind_eq_ok_iff.2 ⟨plan, hplan, rfl⟩⟩
  obtain ⟨hids, hnames⟩ := keys_of_entries hes
  rw [← hids, ← hnames, ← DispatchTable.exists_adds_empty_iff]
  refine exists_congr fun table => ?_
  rw [foldlM_addDialect]
  refine foldlM_found_eq_ok_iff.trans ⟨?_, fun h => ⟨es, hes, h⟩⟩
  rintro ⟨es', hes', h⟩
  cases hes.symm.trans hes'
  exact h

end DialectSet

end Telemetry
