import Mathlib.Data.List.Nodup
import Mathlib.Data.List.Perm.Basic
import Telemetry.Proofs.Dispatch

/-!
# Dialects and all that they include

Whatever the includes of a set are, a closure holds its dialect and none twice. So the closures of
all dialects, without repetitions, are the dialects of the set in some order, and the dispatch table
of all names is that of the dialects one after the other.

* `DialectSet.names_nodup`: the dialects of a set have names of their own.
* `Walk.Extends`: what a walk keeps of the one it goes on from.
* `DialectSet.nodup_closure`, `DialectSet.self_mem_closure`: closures.
* `DialectSet.unseen`: a list of dialects without repetitions.
* `DialectSet.foldlM_addDialect_perm`: the order of dialects does not matter to their table.
* `DialectSet.dispatchTable_eq_ok_iff_unseen`: the dispatch table of any names.
* `DialectSet.dispatchTable_eq_ok_iff`: the dispatch table of all names.
-/

namespace Telemetry

namespace DialectSet

/-! ## Names -/

theorem get?_eq_none_iff {s : DialectSet} {name : String} :
    s.get? name = none ↔ name ∉ s.dialects.map (·.name) := by
  simp [get?]

theorem insert_eq_ok_iff {s s' : DialectSet} {d : Dialect} :
    s.insert d = .ok s' ↔ d.name ∉ s.dialects.map (·.name) ∧ s'.dialects = s.dialects ++ [d] := by
  rw [← get?_eq_none_iff, insert]
  cases s.get? d.name with
  | some first => simp
  | none =>
    cases s'
    simp [eq_comm]

/-- Sets that are built by adding dialects have names of their own. -/
theorem names_nodup {dialects : List Dialect} {s : DialectSet}
    (h : dialects.foldlM insert {} = .ok s) : (s.dialects.map (·.name)).Nodup := by
  refine foldlM_preserves (fun s : DialectSet => (s.dialects.map (·.name)).Nodup) ?_ ?_ h
  · exact List.nodup_nil
  · intro d _ s s' hs hinsert
    obtain ⟨hnew, hdialects⟩ := insert_eq_ok_iff.1 hinsert
    rw [hdialects, List.map_append, List.nodup_append]
    refine ⟨hs, List.nodup_singleton _, ?_⟩
    rintro name hname _ hmem rfl
    rw [List.mem_singleton.1 hmem] at hname
    exact hnew hname

section Names

variable {s : DialectSet} (hs : (s.dialects.map (·.name)).Nodup)
include hs

theorem eq_of_name {d d' : Dialect} (hd : d ∈ s.dialects) (hd' : d' ∈ s.dialects)
    (hname : d.name = d'.name) : d = d' :=
  List.inj_on_of_nodup_map hs hd hd' hname

theorem get?_name {d : Dialect} (hd : d ∈ s.dialects) : s.get? d.name = some d := by
  cases hget : s.get? d.name with
  | none => exact absurd (List.mem_map_of_mem hd) (get?_eq_none_iff.1 hget)
  | some d' =>
    have hname : d'.name = d.name := by simpa using List.find?_some hget
    rw [eq_of_name hs (mem_of_get? hget) hd hname]

end Names

end DialectSet

/-! ## Walks -/

/-- A walk that goes on from another one: it is done with further dialects, which it has come to
meanwhile, each once. -/
structure Walk.Extends (w w' : Walk) : Prop where
  visited : w.visited ⊆ w'.visited
  done : ∃ new, w'.done = w.done ++ new ∧ (new.map (·.name)).Nodup ∧
    ∀ d ∈ new, d.name ∉ w.visited ∧ d.name ∈ w'.visited

namespace Walk.Extends

theorem refl (w : Walk) : w.Extends w where
  visited := fun _ h => h
  done := ⟨[], by simp, by simp, by simp⟩

theorem trans {w₁ w₂ w₃ : Walk} (h : w₁.Extends w₂) (h' : w₂.Extends w₃) : w₁.Extends w₃ := by
  obtain ⟨new, hdone, hnodup, hnew⟩ := h.done
  obtain ⟨new', hdone', hnodup', hnew'⟩ := h'.done
  refine ⟨fun _ hn => h'.visited (h.visited hn), new ++ new', ?_, ?_, ?_⟩
  · rw [hdone', hdone, List.append_assoc]
  · rw [List.map_append, List.nodup_append]
    refine ⟨hnodup, hnodup', ?_⟩
    rintro _ hn _ hn' rfl
    obtain ⟨d, hd, rfl⟩ := List.mem_map.1 hn
    obtain ⟨d', hd', hname⟩ := List.mem_map.1 hn'
    exact (hnew' d' hd').1 (hname ▸ (hnew d hd).2)
  · intro d hd
    rcases List.mem_append.1 hd with hd | hd
    · exact ⟨(hnew d hd).1, h'.visited (hnew d hd).2⟩
    · exact ⟨fun hn => (hnew' d hd).1 (h.visited hn), (hnew' d hd).2⟩

/-- A dialect that was not come to, put behind what was done after coming to it. -/
theorem finish {w w' : Walk} {d : Dialect} (hd : d.name ∉ w.visited)
    (h : Extends { w with visited := d.name :: w.visited } w') :
    w.Extends { w' with done := w'.done ++ [d] } := by
  obtain ⟨new, hdone, hnodup, hnew⟩ := h.done
  refine ⟨fun _ hn => h.visited (List.mem_cons_of_mem _ hn), new ++ [d], ?_, ?_, ?_⟩
  · simp [hdone]
  · rw [List.map_append, List.nodup_append]
    refine ⟨hnodup, List.nodup_singleton _, ?_⟩
    rintro _ hn _ hn' rfl
    obtain ⟨d', hd', hname⟩ := List.mem_map.1 hn
    rw [List.mem_singleton.1 hn'] at hname
    exact (hnew d' hd').1 (hname ▸ List.mem_cons_self)
  · intro d' hd'
    rcases List.mem_append.1 hd' with hd' | hd'
    · exact ⟨fun hn => (hnew d' hd').1 (List.mem_cons_of_mem _ hn), (hnew d' hd').2⟩
    · rw [List.mem_singleton.1 hd']
      exact ⟨hd, h.visited List.mem_cons_self⟩

end Walk.Extends

namespace DialectSet

theorem visit_extends {s : DialectSet} {depth : Nat} {d : Dialect} {w w' : Walk}
    (h : s.visit depth d w = .ok w') : w.Extends w' := by
  induction depth generalizing d w w' with
  | zero =>
    cases h
    exact .refl w
  | succ depth ih =>
    rw [visit] at h
    split at h
    · cases h
      exact .refl w
    · obtain ⟨inner, hinner, h⟩ := bind_eq_ok_iff.1 h
      cases h
      -- The includes are walked with the name already visited, so none of them can add it again.
      refine .finish ‹_› (foldlM_preserves (Walk.Extends _) (.refl _) ?_ hinner)
      intro name _ w₁ w₂ hw hstep
      split at hstep
      · exact hw.trans (ih hstep)
      · cases hstep

theorem closure_eq_ok {s : DialectSet} {name : String} {ds : List Dialect}
    (h : s.closure name = .ok ds) :
    ∃ d w, s.get? name = some d ∧ s.visit (s.dialects.length + 1) d {} = .ok w ∧ w.done = ds := by
  unfold closure at h
  split at h
  · cases h
  · obtain ⟨w, hw, h⟩ := bind_eq_ok_iff.1 h
    cases h
    exact ⟨_, w, ‹_›, hw, rfl⟩

/-- A closure holds no dialect twice. -/
theorem nodup_closure {s : DialectSet} {name : String} {ds : List Dialect}
    (h : s.closure name = .ok ds) : ds.Nodup := by
  obtain ⟨d, w, -, hw, rfl⟩ := closure_eq_ok h
  obtain ⟨new, hdone, hnodup, -⟩ := (visit_extends hw).done
  rw [hdone]
  exact hnodup.of_map

/-- A closure holds the dialect it is of. -/
theorem self_mem_closure {s : DialectSet} {name : String} {d : Dialect} {ds : List Dialect}
    (hd : s.get? name = some d) (h : s.closure name = .ok ds) : d ∈ ds := by
  obtain ⟨d', w, hget, hw, rfl⟩ := closure_eq_ok h
  cases hd.symm.trans hget
  rw [visit] at hw
  obtain ⟨inner, -, hw⟩ := bind_eq_ok_iff.1 hw
  cases hw
  simp

/-! ## Without repetitions -/

/-- The dialects of a list whose names were not seen before, in the list or elsewhere. -/
def unseen (seen : List String) : List Dialect → List Dialect
  | [] => []
  | d :: ds => if d.name ∈ seen then unseen seen ds else d :: unseen (d.name :: seen) ds

theorem foldlM_addNew (seen : List String) (ds : List Dialect) (t : DispatchTable) :
    (·.2) <$> ds.foldlM addNew (seen, t) = (unseen seen ds).foldlM addDialect t := by
  induction ds generalizing seen t with
  | nil => rfl
  | cons d ds ih =>
    rw [List.foldlM_cons, addNew, unseen]
    split
    · simpa using ih seen t
    · simp [ih]

theorem mem_unseen {seen : List String} {ds : List Dialect}
    (hnames : ∀ d ∈ ds, ∀ d' ∈ ds, d.name = d'.name → d = d') {x : Dialect} :
    x ∈ unseen seen ds ↔ x ∈ ds ∧ x.name ∉ seen := by
  induction ds generalizing seen with
  | nil => simp [unseen]
  | cons d ds ih =>
    have hrest : ∀ y ∈ ds, ∀ z ∈ ds, y.name = z.name → y = z := fun y hy z hz =>
      hnames y (List.mem_cons_of_mem d hy) z (List.mem_cons_of_mem d hz)
    rw [unseen]
    split
    · rw [ih hrest, List.mem_cons]
      refine ⟨fun ⟨hmem, hx⟩ => ⟨.inr hmem, hx⟩, ?_⟩
      rintro ⟨rfl | hmem, hx⟩
      · exact absurd ‹_› hx
      · exact ⟨hmem, hx⟩
    · rw [List.mem_cons, List.mem_cons, ih hrest, List.mem_cons, not_or]
      constructor
      · rintro (rfl | ⟨hmem, -, hx⟩)
        · exact ⟨.inl rfl, ‹_›⟩
        · exact ⟨.inr hmem, hx⟩
      · rintro ⟨rfl | hmem, hx⟩
        · exact .inl rfl
        · by_cases hname : x.name = d.name
          · exact .inl (hnames x (List.mem_cons_of_mem d hmem) d List.mem_cons_self hname)
          · exact .inr ⟨hmem, hname, hx⟩

theorem name_notMem_of_unseen {seen : List String} {ds : List Dialect} :
    ∀ x ∈ unseen seen ds, x.name ∉ seen := by
  induction ds generalizing seen with
  | nil => simp [unseen]
  | cons d ds ih =>
    rw [unseen]
    split
    · exact ih
    · intro x hx
      rcases List.mem_cons.1 hx with rfl | hx
      · assumption
      · exact fun hseen => ih x hx (List.mem_cons_of_mem _ hseen)

theorem nodup_unseen (seen : List String) (ds : List Dialect) : (unseen seen ds).Nodup := by
  induction ds generalizing seen with
  | nil => exact List.nodup_nil
  | cons d ds ih =>
    rw [unseen]
    split
    · exact ih seen
    · exact List.nodup_cons.2
        ⟨fun hd => name_notMem_of_unseen d hd List.mem_cons_self, ih (d.name :: seen)⟩

/-- Dialects of a set, without repetitions, are in some order the list that holds the same ones. -/
theorem unseen_perm {s : DialectSet} (hs : (s.dialects.map (·.name)).Nodup)
    {ds target : List Dialect} (hds : ∀ d ∈ ds, d ∈ s.dialects) (htarget : target.Nodup)
    (hmem : ∀ d, d ∈ ds ↔ d ∈ target) : (unseen [] ds).Perm target := by
  have hinj : ∀ d ∈ ds, ∀ d' ∈ ds, d.name = d'.name → d = d' :=
    fun d hd d' hd' => eq_of_name hs (hds d hd) (hds d' hd')
  refine (List.perm_ext_iff_of_nodup (nodup_unseen _ _) htarget).2 fun d => ?_
  rw [mem_unseen hinj, ← hmem]
  exact and_iff_left List.not_mem_nil

theorem mem_of_closures {s : DialectSet} {names : List String} {closures : List (List Dialect)}
    (h : names.mapM s.closure = .ok closures) : ∀ d ∈ closures.flatten, d ∈ s.dialects := by
  intro d hd
  obtain ⟨ds, hds, hd⟩ := List.mem_flatten.1 hd
  obtain ⟨name, -, hclosure⟩ := exists_of_mapM_right h hds
  exact mem_of_closure hclosure d hd

/-- The closures of all dialects, without repetitions, are the dialects in some order. -/
theorem unseen_closures_perm {s : DialectSet} (hs : (s.dialects.map (·.name)).Nodup)
    {names : List String} (hnames : ∀ n, n ∈ names ↔ n ∈ s.dialects.map (·.name))
    {closures : List (List Dialect)} (h : names.mapM s.closure = .ok closures) :
    (unseen [] closures.flatten).Perm s.dialects := by
  refine unseen_perm hs (mem_of_closures h) (List.Nodup.of_map _ hs) fun d => ?_
  refine ⟨mem_of_closures h d, fun hd => ?_⟩
  have hname := (hnames d.name).2 (List.mem_map_of_mem hd)
  obtain ⟨ds, hds, hclosure⟩ := exists_of_mapM_left h hname
  exact List.mem_flatten.2 ⟨ds, hds, self_mem_closure (get?_name hs hd) hclosure⟩

end DialectSet

/-! ## Order -/

namespace DispatchTable

theorem extend_comm (t : DispatchTable) {x y : DispatchEntry} (hid : x.plan.id ≠ y.plan.id)
    (hname : x.name ≠ y.name) : (t.extend x).extend y = (t.extend y).extend x := by
  simp only [extend, mk.injEq]
  refine ⟨SortedMap.ext_get? fun id => ?_, SortedMap.ext_get? fun name => ?_,
    SortedMap.ext_get? fun id => ?_⟩
  all_goals
    simp only [SortedMap.get?_insert]
    split <;> split <;> simp_all

/-- Two entries can be added in either order. -/
theorem add_comm {t u v : DispatchTable} {x y : DispatchEntry} (hx : t.add x = .ok u)
    (hy : u.add y = .ok v) : ∃ u', t.add y = .ok u' ∧ u'.add x = .ok v := by
  obtain ⟨hxid, hxname, rfl⟩ := add_eq_ok_iff.1 hx
  obtain ⟨hyid, hyname, rfl⟩ := add_eq_ok_iff.1 hy
  rw [get?_extend] at hyid
  rw [ids_extend] at hyname
  split at hyid
  · cases hyid
  split at hyname
  · cases hyname
  refine ⟨t.extend y, add_eq_ok_iff.2 ⟨hyid, hyname, rfl⟩, add_eq_ok_iff.2 ⟨?_, ?_, ?_⟩⟩
  · rwa [get?_extend, if_neg (Ne.symm ‹_›)]
  · rwa [ids_extend, if_neg (Ne.symm ‹_›)]
  · exact extend_comm t (Ne.symm ‹_›) (Ne.symm ‹_›)

end DispatchTable

namespace DialectSet

/-- Adds a message of a dialect to a table. -/
def addMessage (t : DispatchTable) (m : Dialect × Message) : Except SchemaError DispatchTable := do
  t.add (← entry m.1 m.2)

/-- The messages of dialects, with their dialects. -/
def messagesOf (ds : List Dialect) : List (Dialect × Message) :=
  ds.flatMap fun d => d.messages.map (d, ·)

theorem foldlM_addDialect (ds : List Dialect) (t : DispatchTable) :
    ds.foldlM addDialect t = (messagesOf ds).foldlM addMessage t := by
  induction ds generalizing t with
  | nil => rfl
  | cons d ds ih =>
    have hd : addDialect t d = (d.messages.map (d, ·)).foldlM addMessage t := by
      rw [List.foldlM_map]
      rfl
    rw [List.foldlM_cons, messagesOf, List.flatMap_cons, List.foldlM_append, hd]
    exact bind_congr ih

theorem addMessage_comm (x y : Dialect × Message) (t u v : DispatchTable)
    (hx : addMessage t x = .ok u) (hy : addMessage u y = .ok v) :
    ∃ u', addMessage t y = .ok u' ∧ addMessage u' x = .ok v := by
  obtain ⟨e, he, hx⟩ := bind_eq_ok_iff.1 hx
  obtain ⟨e', he', hy⟩ := bind_eq_ok_iff.1 hy
  obtain ⟨u', hy', hx'⟩ := DispatchTable.add_comm hx hy
  exact ⟨u', bind_eq_ok_iff.2 ⟨e', he', hy'⟩, bind_eq_ok_iff.2 ⟨e, he, hx'⟩⟩

/-- Dialects give the same table in every order. -/
theorem foldlM_addDialect_perm {ds ds' : List Dialect} (hperm : ds.Perm ds')
    {t t' : DispatchTable} (h : ds.foldlM addDialect t = .ok t') :
    ds'.foldlM addDialect t = .ok t' := by
  rw [foldlM_addDialect] at h ⊢
  exact foldlM_perm addMessage_comm (hperm.flatMap_right _) h

/-- The dispatch table of names is that of their closures one after the other, without
repetitions. -/
theorem dispatchTable_eq_ok_iff_unseen {s : DialectSet} {names : List String}
    {table : DispatchTable} :
    s.dispatchTable names = .ok table ↔ ∃ closures, names.mapM s.closure = .ok closures ∧
      (unseen [] closures.flatten).foldlM addDialect {} = .ok table := by
  have hfold : ∀ closures : List (List Dialect),
      (∃ state, closures.flatten.foldlM addNew ([], {}) = .ok state ∧ state.2 = table) ↔
        (unseen [] closures.flatten).foldlM addDialect {} = .ok table := by
    intro closures
    rw [← foldlM_addNew]
    cases closures.flatten.foldlM addNew ([], {}) <;> simp [Functor.map, Except.map]
  constructor
  · intro h
    obtain ⟨state, hstate, h⟩ := bind_eq_ok_iff.1 h
    obtain ⟨closures, hclosures, hstate⟩ := foldlM_lists_eq_ok_iff.1 hstate
    exact ⟨closures, hclosures, (hfold closures).1 ⟨state, hstate, Except.ok.inj h⟩⟩
  · rintro ⟨closures, hclosures, h⟩
    obtain ⟨state, hstate, rfl⟩ := (hfold closures).2 h
    exact bind_eq_ok_iff.2 ⟨state, foldlM_lists_eq_ok_iff.2 ⟨closures, hclosures, hstate⟩, rfl⟩

/-- The dispatch table of all names is that of the dialects in the order of the set. -/
theorem dispatchTable_eq_ok_iff {s : DialectSet} (hs : (s.dialects.map (·.name)).Nodup)
    {names : List String} (hnames : ∀ n, n ∈ names ↔ n ∈ s.dialects.map (·.name))
    {table : DispatchTable} :
    s.dispatchTable names = .ok table ↔
      (∀ d ∈ s.dialects, ∃ ds, s.closure d.name = .ok ds) ∧
        s.dialects.foldlM addDialect {} = .ok table := by
  rw [dispatchTable_eq_ok_iff_unseen]
  constructor
  · rintro ⟨closures, hclosures, h⟩
    refine ⟨fun d hd => ?_, ?_⟩
    · have hname := (hnames d.name).2 (List.mem_map_of_mem hd)
      obtain ⟨ds, -, hclosure⟩ := exists_of_mapM_left hclosures hname
      exact ⟨ds, hclosure⟩
    · exact foldlM_addDialect_perm (unseen_closures_perm hs hnames hclosures) h
  · rintro ⟨hclosures, h⟩
    obtain ⟨closures, hclosures⟩ : ∃ closures, names.mapM s.closure = .ok closures := by
      refine exists_mapM_eq_ok fun n hn => ?_
      obtain ⟨d, hd, rfl⟩ := List.mem_map.1 ((hnames n).1 hn)
      exact hclosures d hd
    have hperm := unseen_closures_perm hs hnames hclosures
    exact ⟨closures, hclosures, foldlM_addDialect_perm hperm.symm h⟩

end DialectSet

end Telemetry
