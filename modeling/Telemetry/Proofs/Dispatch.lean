import Telemetry.Dialect.Set
import Telemetry.Proofs.Layout

/-!
# The entries of a dispatch table

A table keeps its entries by id and beside them the ids by name and the fingerprints by id. Tables
that are built from a set of dialects hold entries of its messages and nothing else.

* `DispatchTable.insert_cases`: all that an attempt to add an entry can do.
* `DispatchTable.add_eq_ok_iff`: what is added, and when.
* `DispatchTable.offer`: the table after an attempt.
* `DispatchTable.Consistent`: the three indexes of a table say the same.
* `DialectSet.mem_of_closure`: a closure holds dialects of the set.
* `DialectSet.dispatchTable_eq_ok`: the tables of a set are consistent and drawn from its dialects.
-/

namespace Telemetry

namespace DispatchTable

/-- The table with an entry more. -/
def extend (t : DispatchTable) (e : DispatchEntry) : DispatchTable where
  entries := t.entries.insert e.plan.id e
  ids := t.ids.insert e.name e.plan.id
  fingerprints := t.fingerprints.insert e.plan.id e.fingerprint

section Attempts

variable {t t' : DispatchTable} {e : DispatchEntry} {fault : SchemaError}

/-- All that an attempt does: the id is there, or else the name is, or the entry is added. -/
theorem insert_cases (t : DispatchTable) (e : DispatchEntry) :
    (∃ first, t.get? e.plan.id = some first ∧
      (insert e).run t = .error (.duplicateId e.plan.id first.name e.name) t) ∨
    (t.get? e.plan.id = none ∧ ∃ id, t.ids.get? e.name = some id ∧
      (insert e).run t = .error (.duplicateName e.name id e.plan.id) t) ∨
    (t.get? e.plan.id = none ∧ t.ids.get? e.name = none ∧
      (insert e).run t = .ok () (t.extend e)) := by
  unfold insert get?
  simp only [EStateM.run_bind, EStateM.run_get]
  cases t.entries.get? e.plan.id with
  | some first => exact .inl ⟨first, rfl, rfl⟩
  | none =>
    simp only [EStateM.run_bind, EStateM.run_get, true_and]
    cases t.ids.get? e.name with
    | some id => exact .inr (.inl ⟨id, rfl, rfl⟩)
    | none => exact .inr (.inr ⟨rfl, rfl⟩)

theorem insert_eq_ok_iff :
    (insert e).run t = .ok () t' ↔
      t.get? e.plan.id = none ∧ t.ids.get? e.name = none ∧ t' = t.extend e := by
  rcases insert_cases t e with ⟨first, hid, h⟩ | ⟨hid, id, hname, h⟩ | ⟨hid, hname, h⟩
  · simp [h, hid]
  · simp [h, hname]
  · simp [h, hid, hname, eq_comm]

/-- An attempt that fails has changed nothing. -/
theorem eq_of_insert_eq_error (h : (insert e).run t = .error fault t') : t' = t := by
  rcases insert_cases t e with ⟨_, _, hrun⟩ | ⟨_, _, _, hrun⟩ | ⟨_, _, hrun⟩
  · cases hrun.symm.trans h
    rfl
  · cases hrun.symm.trans h
    rfl
  · cases hrun.symm.trans h

theorem add_eq_ok_iff :
    t.add e = .ok t' ↔
      t.get? e.plan.id = none ∧ t.ids.get? e.name = none ∧ t' = t.extend e := by
  rw [← insert_eq_ok_iff, add]
  cases (insert e).run t with
  | ok _ t₁ => simp
  | error fault t₁ => simp

/-- The table after an attempt to add an entry. -/
def offer (t : DispatchTable) (e : DispatchEntry) : DispatchTable :=
  match (insert e).run t with
  | .ok _ t' => t'
  | .error _ t' => t'

theorem offer_of_ok (h : (insert e).run t = .ok () t') : t.offer e = t' := by
  rw [offer, h]

theorem offer_of_error (h : (insert e).run t = .error fault t') : t.offer e = t := by
  rw [offer, h]
  exact eq_of_insert_eq_error h

end Attempts

section Extend

variable (t : DispatchTable) (e : DispatchEntry)

@[simp] theorem get?_extend (id : Nat) :
    (t.extend e).get? id = if id = e.plan.id then some e else t.get? id := by
  simp [get?, extend, SortedMap.get?_insert]

@[simp] theorem ids_extend (name : String) :
    (t.extend e).ids.get? name = if name = e.name then some e.plan.id else t.ids.get? name := by
  simp [extend, SortedMap.get?_insert]

@[simp] theorem fingerprints_extend (id : Nat) :
    (t.extend e).fingerprints.get? id =
      if id = e.plan.id then some e.fingerprint else t.fingerprints.get? id := by
  simp [extend, SortedMap.get?_insert]

end Extend

/-- The indexes of a table say the same. -/
structure Consistent (t : DispatchTable) : Prop where
  /-- An entry stands under the id of its plan. -/
  plan_id {id : Nat} {e : DispatchEntry} (h : t.get? id = some e) : e.plan.id = id
  /-- Names lead to the entries that have them. -/
  ids_iff {name : String} {id : Nat} :
    t.ids.get? name = some id ↔ ∃ e, t.get? id = some e ∧ e.name = name
  /-- The fingerprints are those of the entries. -/
  fingerprints (id : Nat) : t.fingerprints.get? id = (t.get? id).map (·.fingerprint)

theorem consistent_empty : ({} : DispatchTable).Consistent where
  plan_id h := nomatch h
  ids_iff := ⟨fun h => (nomatch h), fun ⟨_, h, _⟩ => (nomatch h)⟩
  fingerprints _ := rfl

theorem Consistent.extend {t : DispatchTable} {e : DispatchEntry} (ht : t.Consistent)
    (hid : t.get? e.plan.id = none) (hname : t.ids.get? e.name = none) :
    (t.extend e).Consistent := by
  refine ⟨fun {id e'} h => ?_, fun {name id} => ?_, fun id => ?_⟩
  · rw [get?_extend] at h
    split at h
    · cases h
      exact Eq.symm ‹_›
    · exact ht.plan_id h
  · rw [ids_extend, get?_extend]
    by_cases hn : name = e.name
    · subst hn
      rw [if_pos rfl]
      by_cases hi : id = e.plan.id
      · simp [hi]
      · -- Another entry of this name would have been in the way of the new one.
        have hnone : ¬ ∃ e', t.get? id = some e' ∧ e'.name = e.name := by
          rw [← ht.ids_iff, hname]
          exact nofun
        rw [if_neg hi]
        exact iff_of_false (fun h => hi (Option.some.inj h).symm) hnone
    · rw [if_neg hn, ht.ids_iff]
      by_cases hi : id = e.plan.id
      · subst hi
        simp [hid, Ne.symm hn]
      · rw [if_neg hi]
  · rw [fingerprints_extend, get?_extend, ht.fingerprints]
    split <;> rfl

theorem Consistent.getNamed?_eq_some {t : DispatchTable} (ht : t.Consistent) {name : String}
    {e : DispatchEntry} (h : t.getNamed? name = some e) :
    e.name = name ∧ t.get? e.plan.id = some e ∧
      t.fingerprints.get? e.plan.id = some e.fingerprint := by
  obtain ⟨id, hid, he⟩ := Option.bind_eq_some_iff.1 h
  obtain rfl := ht.plan_id he
  obtain ⟨e', he', hname⟩ := ht.ids_iff.1 hid
  obtain rfl : e = e' := Option.some.inj (he.symm.trans he')
  exact ⟨hname, he, by rw [ht.fingerprints]; exact congrArg (Option.map _) he⟩

/-- Every entry of the table is that of a message of some dialect. -/
def DrawnFrom (t : DispatchTable) (dialects : List Dialect) : Prop :=
  ∀ id e, t.get? id = some e → ∃ d ∈ dialects, ∃ m ∈ d.messages, DialectSet.entry d m = .ok e

theorem DrawnFrom.extend {t : DispatchTable} {e : DispatchEntry} {dialects : List Dialect}
    (ht : t.DrawnFrom dialects)
    (he : ∃ d ∈ dialects, ∃ m ∈ d.messages, DialectSet.entry d m = .ok e) :
    (t.extend e).DrawnFrom dialects := by
  intro id e' he'
  rw [get?_extend] at he'
  split at he'
  · cases he'
    exact he
  · exact ht id e' he'

end DispatchTable

namespace DialectSet

theorem mem_of_get? {s : DialectSet} {name : String} {d : Dialect} (h : s.get? name = some d) :
    d ∈ s.dialects :=
  List.mem_of_find?_eq_some h

theorem mem_of_visit {s : DialectSet} {depth : Nat} {d : Dialect} {walk walk' : Walk}
    (hd : d ∈ s.dialects) (hwalk : ∀ x ∈ walk.done, x ∈ s.dialects)
    (h : s.visit depth d walk = .ok walk') : ∀ x ∈ walk'.done, x ∈ s.dialects := by
  induction depth generalizing d walk walk' with
  | zero =>
    cases h
    exact hwalk
  | succ depth ih =>
    rw [visit] at h
    split at h
    · cases h
      exact hwalk
    · obtain ⟨inner, hinner, h⟩ := bind_eq_ok_iff.1 h
      cases h
      have hdone : ∀ x ∈ inner.done, x ∈ s.dialects := by
        refine foldlM_preserves (fun w : Walk => ∀ x ∈ w.done, x ∈ s.dialects) ?_ ?_ hinner
        · exact hwalk
        · intro name _ w w' hw hstep
          split at hstep
          · exact ih (mem_of_get? ‹_›) hw hstep
          · cases hstep
      intro x hx
      rcases List.mem_append.1 hx with hx | hx
      · exact hdone x hx
      · rw [List.mem_singleton.1 hx]
        exact hd

/-- A closure holds dialects of the set. -/
theorem mem_of_closure {s : DialectSet} {name : String} {ds : List Dialect}
    (h : s.closure name = .ok ds) : ∀ d ∈ ds, d ∈ s.dialects := by
  unfold closure at h
  split at h
  · cases h
  · obtain ⟨walk, hwalk, h⟩ := bind_eq_ok_iff.1 h
    cases h
    exact mem_of_visit (mem_of_get? ‹_›) (by simp) hwalk

theorem entry_eq_ok {d : Dialect} {m : Message} {e : DispatchEntry} (h : entry d m = .ok e) :
    ∃ plan, LayoutPlan.ofMessage m d.flags.sortFields = .ok plan ∧
      e = ⟨d.name, m.name, m.fingerprint, d.flags.order, plan⟩ := by
  obtain ⟨plan, hplan, h⟩ := bind_eq_ok_iff.1 h
  cases h
  exact ⟨plan, hplan, rfl⟩

/-- What every table of a set has, and each message that is added keeps. -/
def Fits (s : DialectSet) (t : DispatchTable) : Prop := t.Consistent ∧ t.DrawnFrom s.dialects

theorem Fits.addDialect {s : DialectSet} {t t' : DispatchTable} {d : Dialect} (ht : s.Fits t)
    (hd : d ∈ s.dialects) (h : addDialect t d = .ok t') : s.Fits t' := by
  refine foldlM_preserves s.Fits ht ?_ h
  intro m hm t₁ t₂ ht₁ hstep
  obtain ⟨e, he, hadd⟩ := bind_eq_ok_iff.1 hstep
  obtain ⟨hid, hname, rfl⟩ := DispatchTable.add_eq_ok_iff.1 hadd
  exact ⟨ht₁.1.extend hid hname, ht₁.2.extend ⟨d, hd, m, hm, he⟩⟩

/-- The tables of a set are consistent and drawn from its dialects. -/
theorem dispatchTable_eq_ok {s : DialectSet} {names : List String} {table : DispatchTable}
    (h : s.dispatchTable names = .ok table) : s.Fits table := by
  obtain ⟨⟨seen, t⟩, hfold, h⟩ := bind_eq_ok_iff.1 h
  cases h
  refine foldlM_preserves (fun state : List String × DispatchTable => s.Fits state.2) ?_ ?_ hfold
  · exact ⟨DispatchTable.consistent_empty, nofun⟩
  intro name _ state state' hstate hstep
  obtain ⟨ds, hds, hstep⟩ := bind_eq_ok_iff.1 hstep
  refine foldlM_preserves (fun state : List String × DispatchTable => s.Fits state.2) hstate ?_
    hstep
  rintro d hd ⟨seen₁, t₁⟩ state₂ hstate₁ hadd
  simp only [addNew] at hadd
  split at hadd
  · cases hadd
    exact hstate₁
  · obtain ⟨t', ht', hadd⟩ := bind_eq_ok_iff.1 hadd
    cases hadd
    exact hstate₁.addDialect (mem_of_closure hds d hd) ht'

end DialectSet

end Telemetry
