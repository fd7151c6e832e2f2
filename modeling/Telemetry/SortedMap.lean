/-!
# Finite maps in ascending key order

A map is the list of its entries with strictly ascending keys, so entries are listed in key order
and two maps that answer every look-up alike are equal.

* `SortedMap.get?`, `SortedMap.insert`: look-up, and insertion that replaces an entry of the key.
* `SortedMap.get?_insert`: what a look-up finds after an insertion.
* `SortedMap.mem_entries_iff`: the entries are what look-ups find.
* `SortedMap.ext_get?`: a map is determined by its look-ups.
-/

namespace Telemetry

/-- A finite map from `κ` to `α`, as entries with strictly ascending keys. -/
structure SortedMap (κ α : Type) [Ord κ] where
  /-- The entries in key order. -/
  entries : List (κ × α)
  /-- Each key comes before every later one. -/
  ascending : entries.Pairwise fun a b => compare a.1 b.1 = .lt

namespace SortedMap

variable {κ α : Type} [Ord κ]

/-- The map without entries. -/
def empty : SortedMap κ α := ⟨[], .nil⟩

instance : EmptyCollection (SortedMap κ α) := ⟨empty⟩

instance : Inhabited (SortedMap κ α) := ⟨empty⟩

/-- The first entry of `k` in a list of entries. -/
def lookup (k : κ) : List (κ × α) → Option α
  | [] => none
  | e :: rest => if compare k e.1 = .eq then some e.2 else lookup k rest

/-- The value stored under `k`. -/
def get? (m : SortedMap κ α) (k : κ) : Option α := lookup k m.entries

/-- Whether a value is stored under `k`. -/
def contains (m : SortedMap κ α) (k : κ) : Bool := (m.get? k).isSome

/-- The number of entries. -/
def size (m : SortedMap κ α) : Nat := m.entries.length

/-- Whether there is no entry. -/
def isEmpty (m : SortedMap κ α) : Bool := m.entries.isEmpty

/-- The values in key order. -/
def values (m : SortedMap κ α) : List α := m.entries.map (·.2)

/-- Puts `k` at its place in an ascending list of entries, replacing an entry of the same key. -/
def place (k : κ) (a : α) : List (κ × α) → List (κ × α)
  | [] => [(k, a)]
  | e :: rest =>
    match compare k e.1 with
    | .lt => (k, a) :: e :: rest
    | .eq => (k, a) :: rest
    | .gt => e :: place k a rest

theorem mem_place {k : κ} {a : α} {e : κ × α} {l : List (κ × α)} (h : e ∈ place k a l) :
    e = (k, a) ∨ e ∈ l := by
  induction l with
  | nil => simpa [place] using h
  | cons d rest ih =>
    simp only [place] at h
    split at h
    · simpa using h
    · rcases List.mem_cons.1 h with h | h
      · exact .inl h
      · exact .inr (List.mem_cons_of_mem _ h)
    · rcases List.mem_cons.1 h with h | h
      · exact .inr (h ▸ List.mem_cons_self)
      · exact (ih h).imp_right (List.mem_cons_of_mem _)

theorem length_place {k : κ} {a : α} {l : List (κ × α)}
    (h : lookup k l = none) : (place k a l).length = l.length + 1 := by
  induction l with
  | nil => rfl
  | cons e rest ih =>
    rw [lookup] at h
    split at h
    · cases h
    · rename_i hne
      rw [place]
      split
      · rfl
      · exact absurd ‹_› hne
      · simp [ih h]

theorem place_ascending [Std.TransOrd κ] (k : κ) (a : α) {l : List (κ × α)}
    (h : l.Pairwise fun a b => compare a.1 b.1 = .lt) :
    (place k a l).Pairwise fun a b => compare a.1 b.1 = .lt := by
  induction l with
  | nil => simp [place]
  | cons d rest ih =>
    obtain ⟨hd, hr⟩ := List.pairwise_cons.1 h
    simp only [place]
    split
    · rename_i hk
      refine List.pairwise_cons.2 ⟨fun e he => ?_, h⟩
      rcases List.mem_cons.1 he with rfl | he
      · exact hk
      · exact Std.TransCmp.lt_trans hk (hd e he)
    · rename_i hk
      exact List.pairwise_cons.2 ⟨fun e he => Std.TransCmp.lt_of_eq_of_lt hk (hd e he), hr⟩
    · rename_i hk
      refine List.pairwise_cons.2 ⟨fun e he => ?_, ih hr⟩
      rcases mem_place he with rfl | he
      · exact Std.OrientedCmp.lt_of_gt hk
      · exact hd e he

/-- Stores `a` under `k`. -/
def insert [Std.TransOrd κ] (m : SortedMap κ α) (k : κ) (a : α) : SortedMap κ α :=
  ⟨place k a m.entries, place_ascending k a m.ascending⟩

/-- The map of a list of entries; of two entries of one key the later one counts. -/
def ofList [Std.TransOrd κ] (l : List (κ × α)) : SortedMap κ α :=
  l.foldl (fun m e => m.insert e.1 e.2) empty

/-! ## Look-ups -/

@[simp] theorem get?_empty (k : κ) : (empty : SortedMap κ α).get? k = none := rfl

theorem lookup_place [Std.LawfulEqOrd κ] (k k' : κ) (a : α) (l : List (κ × α)) :
    lookup k' (place k a l) = if compare k' k = .eq then some a else lookup k' l := by
  induction l with
  | nil => rfl
  | cons d rest ih =>
    simp only [place]
    split
    · rfl
    · rename_i hk
      have hk := Std.LawfulEqOrd.eq_of_compare hk
      subst hk
      simp only [lookup]
      split <;> rfl
    · rename_i hk
      simp only [lookup, ih]
      by_cases h : compare k' d.1 = .eq
      · have h' := Std.LawfulEqOrd.eq_of_compare h
        have hne : compare k' k ≠ .eq := by
          intro he
          have he := Std.LawfulEqOrd.eq_of_compare he
          subst he
          rw [h] at hk
          cases hk
        simp [h, hne]
      · simp [h]

theorem get?_insert [Std.TransOrd κ] [Std.LawfulEqOrd κ] (m : SortedMap κ α) (k k' : κ) (a : α) :
    (m.insert k a).get? k' = if compare k' k = .eq then some a else m.get? k' :=
  lookup_place k k' a m.entries

theorem lookup_eq_none {k : κ} {l : List (κ × α)} (h : ∀ e ∈ l, compare k e.1 ≠ .eq) :
    lookup k l = none := by
  induction l with
  | nil => rfl
  | cons d rest ih =>
    rw [lookup, if_neg (h d List.mem_cons_self)]
    exact ih fun e he => h e (List.mem_cons_of_mem _ he)

theorem lookup_eq_some_iff [Std.TransOrd κ] [Std.LawfulEqOrd κ] {k : κ} {a : α}
    {l : List (κ × α)} (hl : l.Pairwise fun a b => compare a.1 b.1 = .lt) :
    lookup k l = some a ↔ (k, a) ∈ l := by
  induction l with
  | nil => simp [lookup]
  | cons e rest ih =>
    obtain ⟨he, hrest⟩ := List.pairwise_cons.1 hl
    rw [lookup, List.mem_cons]
    by_cases hk : compare k e.1 = .eq
    · -- The later keys are greater than that of `e`.
      have hkey := Std.LawfulEqOrd.eq_of_compare hk
      have hlater : (k, a) ∉ rest := fun hmem => by
        have hlt := he (k, a) hmem
        simp [← hkey] at hlt
      rw [if_pos hk, or_iff_left hlater]
      constructor
      · intro h
        exact Prod.ext hkey (Option.some.inj h).symm
      · intro h
        rw [← h]
    · have hne : (k, a) ≠ e := by
        rintro rfl
        exact hk Std.ReflCmp.compare_self
      rw [if_neg hk, or_iff_right hne]
      exact ih hrest

theorem lookup_map {β : Type} (f : α → β) (k : κ) (l : List (κ × α)) :
    lookup k (l.map fun e => (e.1, f e.2)) = (lookup k l).map f := by
  induction l with
  | nil => rfl
  | cons e rest ih =>
    rw [List.map_cons, lookup, lookup, ih]
    split <;> rfl

/-- The entries of a map are what look-ups find. -/
theorem mem_entries_iff [Std.TransOrd κ] [Std.LawfulEqOrd κ] {m : SortedMap κ α} {k : κ} {a : α} :
    (k, a) ∈ m.entries ↔ m.get? k = some a :=
  (lookup_eq_some_iff m.ascending).symm

theorem mem_values_iff [Std.TransOrd κ] [Std.LawfulEqOrd κ] {m : SortedMap κ α} {a : α} :
    a ∈ m.values ↔ ∃ k, m.get? k = some a := by
  simp [values, ← mem_entries_iff]

theorem entries_eq_of_lookup [Std.TransOrd κ] [Std.LawfulEqOrd κ] {l l' : List (κ × α)}
    (hl : l.Pairwise fun a b => compare a.1 b.1 = .lt)
    (hl' : l'.Pairwise fun a b => compare a.1 b.1 = .lt)
    (h : ∀ k, lookup k l = lookup k l') : l = l' := by
  induction l generalizing l' with
  | nil =>
    cases l' with
    | nil => rfl
    | cons e r =>
      have := h e.1
      simp [lookup] at this
  | cons d rest ih =>
    cases l' with
    | nil =>
      have := h d.1
      simp [lookup] at this
    | cons e r =>
      obtain ⟨hd, hr⟩ := List.pairwise_cons.1 hl
      obtain ⟨he, hr'⟩ := List.pairwise_cons.1 hl'
      have absent : ∀ {a b : κ × α} {t : List (κ × α)}, compare a.1 b.1 = .lt →
          (∀ c ∈ t, compare b.1 c.1 = .lt) → lookup a.1 (b :: t) = none := by
        intro a b t hab hbt
        refine lookup_eq_none fun c hc => ?_
        rcases List.mem_cons.1 hc with rfl | hc
        · simp [hab]
        · simp [Std.TransCmp.lt_trans hab (hbt c hc)]
      rcases hc : compare d.1 e.1 with _ | _ | _
      · have := h d.1
        rw [absent hc he] at this
        simp [lookup] at this
      · have hk := Std.LawfulEqOrd.eq_of_compare hc
        have hv := h d.1
        simp only [lookup, hk, Std.ReflCmp.compare_self, if_true, Option.some.injEq] at hv
        have hde : d = e := Prod.ext hk hv
        subst hde
        congr 1
        refine ih hr hr' fun k => ?_
        by_cases hkd : compare k d.1 = .eq
        · have hkd := Std.LawfulEqOrd.eq_of_compare hkd
          subst hkd
          rw [lookup_eq_none fun c hc => by simp [hd c hc],
            lookup_eq_none fun c hc => by simp [he c hc]]
        · have := h k
          simpa [lookup, hkd] using this
      · have := h e.1
        rw [absent (Std.OrientedCmp.lt_of_gt hc) hd] at this
        simp [lookup] at this

theorem ext_get? [Std.TransOrd κ] [Std.LawfulEqOrd κ] {m m' : SortedMap κ α}
    (h : ∀ k, m.get? k = m'.get? k) : m = m' := by
  obtain ⟨l, hl⟩ := m
  obtain ⟨l', hl'⟩ := m'
  have := entries_eq_of_lookup hl hl' h
  subst this
  rfl

end SortedMap

end Telemetry
