import Mathlib.Data.List.Nodup
import Mathlib.Data.List.Perm.Basic
import Telemetry.Dialect.Tables
import Telemetry.Proofs.Except

/-!
# Rows that are folded into tables

Tables are made row by row, with three maps that grow side by side. Which rows they are made of is
all that counts: the order of the rows decides neither whether there are tables nor what is in them.

* `SortedMap.Indexes`: a map that has a value for each member of a list, and nothing else.
* `MessageTables.Lists`: tables of given rows; `MessageTables.gathers_add` says which row is taken.
* `MessageTables.exists_ofRows_iff`, `MessageTables.lists_ofRows`: which rows have tables, and what
  is in them.
* `MessageTables.ofRows_of_perm`: the order of rows does not matter.
-/

namespace Telemetry

/-! ## Maps that index a list -/

namespace SortedMap

variable {κ α ρ : Type} [Ord κ]

/-- The map leads from the key of each member of a list to its value, and from no other key. -/
def Indexes (m : SortedMap κ α) (key : ρ → κ) (value : ρ → α) (members : List ρ) : Prop :=
  ∀ k a, m.get? k = some a ↔ ∃ r ∈ members, key r = k ∧ value r = a

namespace Indexes

variable {m m' : SortedMap κ α} {key : ρ → κ} {value : ρ → α} {members members' : List ρ}

theorem empty : (SortedMap.empty : SortedMap κ α).Indexes key value [] := by
  intro k a
  simp

theorem get?_eq_none_iff (h : m.Indexes key value members) {k : κ} :
    m.get? k = none ↔ ∀ r ∈ members, key r ≠ k := by
  rw [Option.eq_none_iff_forall_ne_some]
  simp only [ne_eq, h k, not_exists, not_and]
  exact ⟨fun hnone r hr hk => hnone (value r) r hr hk rfl,
    fun hnone _ r hr hk => (hnone r hr hk).elim⟩

variable [Std.TransOrd κ] [Std.LawfulEqOrd κ]

theorem insert (h : m.Indexes key value members) {r : ρ} (hnew : ∀ r' ∈ members, key r' ≠ key r) :
    (m.insert (key r) (value r)).Indexes key value (members ++ [r]) := by
  intro k a
  rw [get?_insert]
  by_cases hk : k = key r
  · -- No earlier member has this key.
    subst hk
    rw [if_pos Std.ReflCmp.compare_self, Option.some.injEq]
    constructor
    · rintro rfl
      exact ⟨r, by simp, rfl, rfl⟩
    · rintro ⟨r', hr', hkey, rfl⟩
      rcases List.mem_append.1 hr' with hr' | hr'
      · exact absurd hkey (hnew r' hr')
      · rw [List.mem_singleton.1 hr']
  · rw [if_neg fun hcompare => hk (Std.LawfulEqOrd.eq_of_compare hcompare), h k a]
    constructor
    · rintro ⟨r', hr', hkey, hvalue⟩
      exact ⟨r', List.mem_append_left _ hr', hkey, hvalue⟩
    · rintro ⟨r', hr', hkey, hvalue⟩
      rcases List.mem_append.1 hr' with hr' | hr'
      · exact ⟨r', hr', hkey, hvalue⟩
      · rw [List.mem_singleton.1 hr'] at hkey
        exact absurd hkey.symm hk

/-- Only the members count, not their order. -/
theorem unique (h : m.Indexes key value members) (h' : m'.Indexes key value members')
    (hmembers : ∀ r, r ∈ members ↔ r ∈ members') : m = m' := by
  refine ext_get? fun k => Option.ext fun a => ?_
  rw [h k a, h' k a]
  simp only [hmembers]

end Indexes

end SortedMap

/-! ## Tables of rows -/

namespace MessageTables

/-- The tables with a row more. -/
def extend (t : MessageTables) (r : TableRow) : MessageTables where
  rows := t.rows.insert r.id r
  ids := t.ids.insert r.name r.id
  fingerprints := t.fingerprints.insert r.id r.fingerprint

theorem add_eq_ok_iff {t t' : MessageTables} {r : TableRow} :
    t.add r = .ok t' ↔
      t.rows.get? r.id = none ∧ t.ids.get? r.name = none ∧ t' = t.extend r := by
  unfold add
  cases t.rows.get? r.id with
  | some first => simp
  | none =>
    cases t.ids.get? r.name with
    | some first => simp
    | none => simp [extend, eq_comm]

section Extend

variable (t : MessageTables) (r : TableRow)

@[simp] theorem rows_extend (id : Nat) :
    (t.extend r).rows.get? id = if id = r.id then some r else t.rows.get? id := by
  simp [extend, SortedMap.get?_insert]

@[simp] theorem ids_extend (name : String) :
    (t.extend r).ids.get? name = if name = r.name then some r.id else t.ids.get? name := by
  simp [extend, SortedMap.get?_insert]

end Extend

/-- The three maps of tables are those of given rows. -/
structure Lists (t : MessageTables) (members : List TableRow) : Prop where
  rows : t.rows.Indexes (·.id) id members
  ids : t.ids.Indexes (·.name) (·.id) members
  fingerprints : t.fingerprints.Indexes (·.id) (·.fingerprint) members

theorem lists_empty : ({} : MessageTables).Lists [] where
  rows := .empty
  ids := .empty
  fingerprints := .empty

namespace Lists

variable {t t' : MessageTables} {rows rows' : List TableRow} {r : TableRow}

theorem add_eq_ok_iff (h : t.Lists rows) :
    t.add r = .ok t' ↔ (∀ r' ∈ rows, ¬ (r'.id = r.id ∨ r'.name = r.name)) ∧ t' = t.extend r := by
  rw [MessageTables.add_eq_ok_iff, h.rows.get?_eq_none_iff, h.ids.get?_eq_none_iff, ← and_assoc,
    ← forall₂_and]
  simp only [ne_eq, not_or]

theorem extend (h : t.Lists rows) (hr : ∀ r' ∈ rows, ¬ (r'.id = r.id ∨ r'.name = r.name)) :
    (t.extend r).Lists (rows ++ [r]) where
  rows := h.rows.insert fun r' hr' hid => hr r' hr' (.inl hid)
  ids := h.ids.insert fun r' hr' hname => hr r' hr' (.inr hname)
  fingerprints := h.fingerprints.insert fun r' hr' hid => hr r' hr' (.inl hid)

theorem unique (h : t.Lists rows) (h' : t'.Lists rows') (hrows : ∀ r, r ∈ rows ↔ r ∈ rows') :
    t = t' := by
  obtain ⟨tableRows, ids, fingerprints⟩ := t
  obtain ⟨tableRows', ids', fingerprints'⟩ := t'
  obtain rfl : tableRows = tableRows' := h.rows.unique h'.rows hrows
  obtain rfl : ids = ids' := h.ids.unique h'.ids hrows
  obtain rfl : fingerprints = fingerprints' := h.fingerprints.unique h'.fingerprints hrows
  rfl

/-- The rows of tables are in the order of their ids. -/
theorem values_ascending (h : t.Lists rows) :
    t.rows.values.Pairwise fun r r' => r.id < r'.id := by
  have hkey : ∀ e ∈ t.rows.entries, e.2.id = e.1 := by
    intro e he
    obtain ⟨r, -, hid, rfl⟩ := (h.rows e.1 e.2).1 (SortedMap.mem_entries_iff.1 he)
    exact hid
  rw [SortedMap.values, List.pairwise_map]
  refine t.rows.ascending.imp_of_mem fun he he' hlt => ?_
  rw [hkey _ he, hkey _ he']
  exact Nat.compare_eq_lt.1 hlt

theorem mem_values_iff (h : t.Lists rows) : r ∈ t.rows.values ↔ r ∈ rows := by
  rw [SortedMap.mem_values_iff]
  constructor
  · rintro ⟨k, hk⟩
    obtain ⟨r', hr', -, rfl⟩ := (h.rows k r).1 hk
    exact hr'
  · intro hr
    exact ⟨r.id, (h.rows r.id r).2 ⟨r, hr, rfl, rfl⟩⟩

theorem values_perm (h : t.Lists rows) (hids : (rows.map (·.id)).Nodup) :
    t.rows.values.Perm rows := by
  have hnodup : t.rows.values.Nodup :=
    h.values_ascending.imp fun hlt heq => absurd (congrArg TableRow.id heq) (Nat.ne_of_lt hlt)
  exact (List.perm_ext_iff_of_nodup hnodup (.of_map _ hids)).2 fun r => h.mem_values_iff

end Lists

/-- Tables gather the rows that they take. -/
theorem gathers_add : Gathers add (fun r r' => r.id = r'.id ∨ r.name = r'.name) Lists where
  exists_iff h := by simp only [h.add_eq_ok_iff, exists_and_left, exists_eq, and_true]
  holds h hadd := by
    obtain ⟨hr, rfl⟩ := h.add_eq_ok_iff.1 hadd
    exact h.extend hr

section Rows

variable {rows rows' : List TableRow} {t : MessageTables}

/-- Rows have tables if they have ids and names of their own. -/
theorem exists_ofRows_iff :
    (∃ t, ofRows rows = .ok t) ↔ (rows.map (·.id)).Nodup ∧ (rows.map (·.name)).Nodup := by
  rw [ofRows, gathers_add.exists_foldlM_iff lists_empty, pairwise_differ_iff]
  exact and_iff_left fun r hr => absurd hr List.not_mem_nil

theorem lists_ofRows (h : ofRows rows = .ok t) : t.Lists rows :=
  gathers_add.foldlM lists_empty h

/-- The order of rows does not matter. -/
theorem ofRows_of_perm (hperm : rows.Perm rows') (h : ofRows rows = .ok t) :
    ofRows rows' = .ok t := by
  obtain ⟨hids, hnames⟩ := exists_ofRows_iff.1 ⟨t, h⟩
  obtain ⟨t', ht'⟩ := exists_ofRows_iff.2
    ⟨(hperm.map _).nodup_iff.1 hids, (hperm.map _).nodup_iff.1 hnames⟩
  rw [ht', (lists_ofRows ht').unique (lists_ofRows h) fun r => hperm.symm.mem_iff]

theorem toOption_ofRows_perm (hperm : rows.Perm rows') :
    (ofRows rows').toOption = (ofRows rows).toOption := by
  ext t
  rw [toOption_eq_some_iff, toOption_eq_some_iff]
  exact ⟨ofRows_of_perm hperm.symm, ofRows_of_perm hperm⟩

theorem ofRows_ne_missingFingerprint (id : Nat) :
    ofRows rows ≠ .error (.missingFingerprint id) := by
  intro h
  obtain ⟨r, -, t, hadd⟩ := exists_of_foldlM_error h
  unfold add at hadd
  split at hadd <;> cases hadd

end Rows

end MessageTables

end Telemetry
