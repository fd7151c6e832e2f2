import Mathlib.Logic.Relation
import Telemetry.Proofs.Planning
import Telemetry.Proofs.Registration

/-!
# What a dialect reaches by its includes

A walk along includes comes to every dialect that can be reached, whatever cycles and detours there
are. So a closure holds these dialects, and its only fault is an include that is not in the set. A
dispatch table of names is then determined by the dialects that the names reach.

* `DialectSet.Reaches`, `DialectSet.Complete`: reachability, and that no include on the way is
  unknown.
* `Walk.Explores`: what a walk has found since an earlier state of it. `DialectSet.visit_explores`
  is the case of one visit, which is deep enough as long as few dialects remain to be found.
* `DialectSet.exists_closure_iff`, `DialectSet.mem_closure_iff`: when there is a closure, and what
  it holds.
* `DialectSet.reached`: the dialects that names reach.
* `dispatchTable_of_reached`: the dispatch table of names.
-/

namespace Telemetry

namespace DialectSet

/-- A dialect includes another one of the set. -/
def Includes (s : DialectSet) (d d' : Dialect) : Prop :=
  ∃ name ∈ d.includes, s.get? name = some d'

/-- A dialect is another one or includes it, directly or not. -/
def Reaches (s : DialectSet) : Dialect → Dialect → Prop := Relation.ReflTransGen s.Includes

/-- All that a dialect includes, directly or not, is in the set. -/
def Complete (s : DialectSet) (d : Dialect) : Prop :=
  ∀ d', s.Reaches d d' → ∀ name ∈ d'.includes, ∃ d'', s.get? name = some d''

theorem name_of_get? {s : DialectSet} {name : String} {d : Dialect} (h : s.get? name = some d) :
    d.name = name := by
  simpa using List.find?_some h

theorem Reaches.mem {s : DialectSet} {d d' : Dialect} (h : s.Reaches d d') (hd : d ∈ s.dialects) :
    d' ∈ s.dialects := by
  induction h with
  | refl => exact hd
  | tail _ hstep _ =>
    obtain ⟨name, -, hget⟩ := hstep
    exact mem_of_get? hget

/-! ## Depth -/

/-- How many dialects a walk has not come to. -/
def remaining (s : DialectSet) (w : Walk) : Nat :=
  (s.dialects.filter fun d => d.name ∉ w.visited).length

theorem remaining_le_of_subset {s : DialectSet} {w w' : Walk} (h : w.visited ⊆ w'.visited) :
    s.remaining w' ≤ s.remaining w := by
  refine (List.monotone_filter_right _ fun d hd => ?_).length_le
  simp only [decide_eq_true_eq] at hd ⊢
  exact fun hmem => hd (h hmem)

theorem remaining_lt_of_notMem {s : DialectSet} {d : Dialect} {w : Walk} (hd : d ∈ s.dialects)
    (hnew : d.name ∉ w.visited) :
    s.remaining { w with visited := d.name :: w.visited } < s.remaining w := by
  have hfilter : s.dialects.filter (fun x => x.name ∉ d.name :: w.visited) =
      (s.dialects.filter fun x => x.name ∉ w.visited).filter fun x => x.name ≠ d.name := by
    rw [List.filter_filter]
    refine List.filter_congr fun x _ => ?_
    simp
  unfold remaining
  rw [hfilter, List.length_filter_lt_length_iff_exists]
  exact ⟨d, by simp [hd, hnew], by simp⟩

end DialectSet

/-! ## Walks -/

/-- A walk that goes on from another one along what a dialect includes. What it has come to
meanwhile, it is done with, and has come to all that this includes. -/
structure Walk.Explores (s : DialectSet) (d : Dialect) (w w' : Walk) : Prop
    extends w.Extends w' where
  found : ∀ x ∈ s.dialects, x.name ∈ w'.visited → x.name ∉ w.visited →
    s.Reaches d x ∧ x ∈ w'.done ∧
      ∀ name ∈ x.includes, (∃ d', s.get? name = some d') ∧ name ∈ w'.visited

namespace Walk

theorem Extends.done_subset {w w' : Walk} (h : w.Extends w') : w.done ⊆ w'.done := by
  obtain ⟨new, hdone, -⟩ := h.done
  rw [hdone]
  exact List.subset_append_left _ _

namespace Explores

variable {s : DialectSet} {d d' : Dialect} {w w₁ w₂ w' : Walk}

theorem refl (s : DialectSet) (d : Dialect) (w : Walk) : Explores s d w w where
  toExtends := .refl w
  found := fun _ _ hmem hnew => absurd hmem hnew

theorem trans (h : Explores s d w w₁) (h' : Explores s d w₁ w₂) : Explores s d w w₂ where
  toExtends := h.toExtends.trans h'.toExtends
  found := by
    intro x hx hmem hnew
    by_cases hfirst : x.name ∈ w₁.visited
    · obtain ⟨hreach, hdone, hincludes⟩ := h.found x hx hfirst hnew
      refine ⟨hreach, h'.done_subset hdone, fun name hname => ?_⟩
      exact ⟨(hincludes name hname).1, h'.visited (hincludes name hname).2⟩
    · exact h'.found x hx hmem hfirst

/-- A walk from an include. -/
theorem of_includes (hd : s.Includes d d') (h : Explores s d' w w') : Explores s d w w' where
  toExtends := h.toExtends
  found := by
    intro x hx hmem hnew
    obtain ⟨hreach, hrest⟩ := h.found x hx hmem hnew
    exact ⟨.head hd hreach, hrest⟩

/-- Walks from some names one after the other. -/
theorem foldlM {step : Walk → String → Except SchemaError Walk} {names : List String}
    (hstep : ∀ name ∈ names, ∀ w₁ w₂, w.Extends w₁ → step w₁ name = .ok w₂ →
      Explores s d w₁ w₂ ∧ (∃ d', s.get? name = some d') ∧ name ∈ w₂.visited)
    (h : names.foldlM step w = .ok w') :
    Explores s d w w' ∧
      ∀ name ∈ names, (∃ d', s.get? name = some d') ∧ name ∈ w'.visited := by
  induction names generalizing w with
  | nil =>
    cases h
    exact ⟨.refl s d _, by simp⟩
  | cons name names ih =>
    rw [List.foldlM_cons] at h
    obtain ⟨w₁, hfirst, h⟩ := bind_eq_ok_iff.1 h
    obtain ⟨hw₁, hknown, hvisited⟩ := hstep name List.mem_cons_self w w₁ (.refl w) hfirst
    obtain ⟨hw', hnames⟩ := ih (fun name hname w₂ w₃ hw₂ => hstep name
      (List.mem_cons_of_mem _ hname) w₂ w₃ (hw₁.toExtends.trans hw₂)) h
    refine ⟨hw₁.trans hw', fun x hx => ?_⟩
    rcases List.mem_cons.1 hx with rfl | hx
    · exact ⟨hknown, hw'.visited hvisited⟩
    · exact hnames x hx

/-- A dialect that was not come to, put behind what was found after coming to it. -/
theorem finish (hs : (s.dialects.map (·.name)).Nodup) (hd : d ∈ s.dialects)
    (hnew : d.name ∉ w.visited)
    (h : Explores s d { w with visited := d.name :: w.visited } w')
    (hincludes : ∀ name ∈ d.includes, (∃ d', s.get? name = some d') ∧ name ∈ w'.visited) :
    Explores s d w { w' with done := w'.done ++ [d] } where
  toExtends := h.toExtends.finish hnew
  found := by
    intro x hx hmem hnotMem
    by_cases hname : x.name = d.name
    · rw [DialectSet.eq_of_name hs hx hd hname]
      exact ⟨.refl, by simp, hincludes⟩
    · obtain ⟨hreach, hdone, hrest⟩ := h.found x hx hmem (by simp [hname, hnotMem])
      exact ⟨hreach, List.mem_append_left _ hdone, hrest⟩

end Explores

end Walk

namespace DialectSet

section Visit

variable {s : DialectSet} {depth : Nat} {d : Dialect} {w w' : Walk}

/-- A visit that is not cut short finds all that it has to. -/
theorem visit_explores (hs : (s.dialects.map (·.name)).Nodup) (hd : d ∈ s.dialects)
    (hdepth : s.remaining w < depth) (h : s.visit depth d w = .ok w') :
    Walk.Explores s d w w' ∧ d.name ∈ w'.visited := by
  induction depth generalizing d w w' with
  | zero => omega
  | succ depth ih =>
    rw [visit] at h
    split at h
    · cases h
      exact ⟨.refl s d w, ‹_›⟩
    · obtain ⟨inner, hinner, h⟩ := bind_eq_ok_iff.1 h
      cases h
      rename_i hnew
      -- Coming to the dialect leaves one dialect less, which pays for the level of depth.
      have hless := remaining_lt_of_notMem hd hnew
      have hfold := Walk.Explores.foldlM (s := s) (d := d) ?_ hinner
      · exact ⟨hfold.1.finish hs hd hnew hfold.2, hfold.1.visited List.mem_cons_self⟩
      · intro name hname w₁ w₂ hw₁ hstep
        split at hstep
        · rename_i d' hget
          have hle := remaining_le_of_subset (s := s) hw₁.visited
          obtain ⟨hw₂, hvisited⟩ := ih (mem_of_get? hget) (by omega) hstep
          rw [name_of_get? hget] at hvisited
          exact ⟨hw₂.of_includes ⟨name, hname, hget⟩, ⟨d', hget⟩, hvisited⟩
        · cases hstep

/-- The only fault of a visit is an include that is not in the set. -/
theorem visit_eq_error {fault : SchemaError} (h : s.visit depth d w = .error fault) :
    ∃ d' name, s.Reaches d d' ∧ name ∈ d'.includes ∧ s.get? name = none ∧
      fault = .unknownInclude d'.name name := by
  induction depth generalizing d w with
  | zero => cases h
  | succ depth ih =>
    rw [visit] at h
    split at h
    · cases h
    · rcases bind_eq_error_iff.1 h with h | ⟨inner, -, h⟩
      · obtain ⟨name, hname, w₁, hstep⟩ := exists_of_foldlM_error h
        split at hstep
        · rename_i d₁ hget
          obtain ⟨d', name', hreach, hrest⟩ := ih hstep
          exact ⟨d', name', .head ⟨name, hname, hget⟩ hreach, hrest⟩
        · rename_i hget
          cases hstep
          exact ⟨d, name, .refl, hname, hget, rfl⟩
      · cases h

end Visit

/-! ## Closures -/

section Closure

variable {s : DialectSet} (hs : (s.dialects.map (·.name)).Nodup) {name : String} {d : Dialect}
include hs

theorem explores_of_closure {ds : List Dialect} (hd : s.get? name = some d)
    (h : s.closure name = .ok ds) :
    ∃ w, Walk.Explores s d {} w ∧ d.name ∈ w.visited ∧ w.done = ds := by
  obtain ⟨d', w, hget, hw, hdone⟩ := closure_eq_ok h
  cases hd.symm.trans hget
  have hdepth : s.remaining {} < s.dialects.length + 1 :=
    Nat.lt_succ_of_le (List.length_filter_le _ _)
  obtain ⟨hfound, hroot⟩ := visit_explores hs (mem_of_get? hd) hdepth hw
  exact ⟨w, hfound, hroot, hdone⟩

/-- A closure holds what its dialect reaches, and the set has all that this includes. -/
theorem closure_of_reaches {ds : List Dialect} (hd : s.get? name = some d)
    (h : s.closure name = .ok ds) {x : Dialect} (hx : s.Reaches d x) :
    x ∈ ds ∧ ∀ n ∈ x.includes, ∃ d', s.get? n = some d' := by
  obtain ⟨w, hfound, hroot, rfl⟩ := explores_of_closure hs hd h
  have hvisited : x.name ∈ w.visited := by
    induction hx with
    | refl => exact hroot
    | tail hreach hstep ih =>
      obtain ⟨n, hn, hget⟩ := hstep
      have hmem := Reaches.mem hreach (mem_of_get? hd)
      rw [name_of_get? hget]
      exact ((hfound.found _ hmem ih List.not_mem_nil).2.2 n hn).2
  obtain ⟨-, hdone, hincludes⟩ :=
    hfound.found x (Reaches.mem hx (mem_of_get? hd)) hvisited List.not_mem_nil
  exact ⟨hdone, fun n hn => (hincludes n hn).1⟩

theorem mem_closure_iff {ds : List Dialect} (hd : s.get? name = some d)
    (h : s.closure name = .ok ds) {x : Dialect} : x ∈ ds ↔ s.Reaches d x := by
  refine ⟨fun hx => ?_, fun hx => (closure_of_reaches hs hd h hx).1⟩
  have hmem : x ∈ s.dialects := mem_of_closure h x hx
  obtain ⟨w, hfound, -, rfl⟩ := explores_of_closure hs hd h
  obtain ⟨new, hdone, -, hnew⟩ := hfound.done
  rw [hdone, List.nil_append] at hx
  exact (hfound.found x hmem (hnew x hx).2 (hnew x hx).1).1

theorem exists_closure_iff :
    (∃ ds, s.closure name = .ok ds) ↔ ∃ d, s.get? name = some d ∧ s.Complete d := by
  constructor
  · rintro ⟨ds, h⟩
    obtain ⟨d, -, hd, -⟩ := closure_eq_ok h
    exact ⟨d, hd, fun x hx => (closure_of_reaches hs hd h hx).2⟩
  · rintro ⟨d, hd, hcomplete⟩
    cases hw : s.visit (s.dialects.length + 1) d {} with
    | ok w => exact ⟨w.done, by simp [closure, hd, hw, bind, Except.bind, pure, Except.pure]⟩
    | error fault =>
      obtain ⟨d', n, hreach, hn, hnone, -⟩ := visit_eq_error hw
      obtain ⟨d'', hget⟩ := hcomplete d' hreach n hn
      rw [hnone] at hget
      cases hget

end Closure

/-! ## Dispatch tables -/

/-- A dialect is reached from one of some names. -/
def Reached (s : DialectSet) (names : List String) (d : Dialect) : Prop :=
  ∃ name ∈ names, ∃ root, s.get? name = some root ∧ s.Reaches root d

open Classical in
/-- The dialects that names reach, in the order of the set. -/
noncomputable def reached (s : DialectSet) (names : List String) : List Dialect :=
  s.dialects.filter fun d => s.Reached names d

theorem mem_reached_iff {s : DialectSet} {names : List String} {d : Dialect} :
    d ∈ s.reached names ↔ s.Reached names d := by
  simp only [reached, List.mem_filter, decide_eq_true_eq, and_iff_right_iff_imp]
  rintro ⟨name, -, root, hget, hreach⟩
  exact hreach.mem (mem_of_get? hget)

theorem mem_of_reached {s : DialectSet} {names : List String} {d : Dialect}
    (h : d ∈ s.reached names) : d ∈ s.dialects :=
  List.mem_of_mem_filter h

theorem reached_congr {s : DialectSet} {names names' : List String}
    (h : ∀ n, n ∈ names ↔ n ∈ names') : s.reached names = s.reached names' := by
  refine List.filter_congr fun d _ => decide_eq_decide.2 ?_
  simp only [Reached, h]

theorem complete_iff_reached {s : DialectSet} {names : List String} :
    (∀ name ∈ names, ∃ d, s.get? name = some d ∧ s.Complete d) ↔
      (∀ name ∈ names, ∃ d, s.get? name = some d) ∧
        ∀ d, s.Reached names d → ∀ name ∈ d.includes, ∃ d', s.get? name = some d' := by
  constructor
  · intro h
    refine ⟨fun name hname => (h name hname).imp fun d hd => hd.1, ?_⟩
    rintro d ⟨name, hname, root, hroot, hreach⟩
    obtain ⟨root', hroot', hcomplete⟩ := h name hname
    cases hroot.symm.trans hroot'
    exact hcomplete d hreach
  · rintro ⟨hknown, hincludes⟩ name hname
    obtain ⟨root, hroot⟩ := hknown name hname
    exact ⟨root, hroot, fun d hreach => hincludes d ⟨name, hname, root, hroot, hreach⟩⟩

/-- The closures of names, without repetitions, are in some order what the names reach. -/
theorem unseen_closures_perm_reached {s : DialectSet} (hs : (s.dialects.map (·.name)).Nodup)
    {names : List String} {closures : List (List Dialect)}
    (h : names.mapM s.closure = .ok closures) :
    (unseen [] closures.flatten).Perm (s.reached names) := by
  have hnodup : (s.reached names).Nodup := (List.Nodup.of_map _ hs).filter _
  refine unseen_perm hs (mem_of_closures h) hnodup fun d => ?_
  rw [mem_reached_iff, List.mem_flatten]
  constructor
  · rintro ⟨ds, hds, hd⟩
    obtain ⟨name, hname, hclosure⟩ := exists_of_mapM_right h hds
    obtain ⟨root, -, hget, -⟩ := closure_eq_ok hclosure
    exact ⟨name, hname, root, hget, (mem_closure_iff hs hget hclosure).1 hd⟩
  · rintro ⟨name, hname, root, hget, hreach⟩
    obtain ⟨ds, hds, hclosure⟩ := exists_of_mapM_left h hname
    exact ⟨ds, hds, (mem_closure_iff hs hget hclosure).2 hreach⟩

/-- The dispatch table of names is that of what they reach, in the order of the set. -/
theorem dispatchTable_eq_ok_iff_reached {s : DialectSet} (hs : (s.dialects.map (·.name)).Nodup)
    {names : List String} {table : DispatchTable} :
    s.dispatchTable names = .ok table ↔
      (∀ name ∈ names, ∃ d, s.get? name = some d ∧ s.Complete d) ∧
        (s.reached names).foldlM addDialect {} = .ok table := by
  rw [dispatchTable_eq_ok_iff_unseen]
  constructor
  · rintro ⟨closures, hclosures, h⟩
    refine ⟨fun name hname => ?_, ?_⟩
    · obtain ⟨ds, -, hclosure⟩ := exists_of_mapM_left hclosures hname
      exact (exists_closure_iff hs).1 ⟨ds, hclosure⟩
    · exact foldlM_addDialect_perm (unseen_closures_perm_reached hs hclosures) h
  · rintro ⟨hcomplete, h⟩
    obtain ⟨closures, hclosures⟩ : ∃ closures, names.mapM s.closure = .ok closures :=
      exists_mapM_eq_ok fun name hname => (exists_closure_iff hs).2 (hcomplete name hname)
    have hperm := unseen_closures_perm_reached hs hclosures
    exact ⟨closures, hclosures, foldlM_addDialect_perm hperm.symm h⟩

/-- The table of names lists the messages of what the names reach and nothing else. -/
theorem entries_of_dispatchTable {s : DialectSet} (hs : (s.dialects.map (·.name)).Nodup)
    {names : List String} {table : DispatchTable} (h : s.dispatchTable names = .ok table) :
    (∀ d, s.Reached names d → ∀ m ∈ d.messages,
      ∃ e, e.Describes d m ∧ (m.id, e) ∈ table.entries.entries) ∧
    ∀ id e, (id, e) ∈ table.entries.entries →
      ∃ d, s.Reached names d ∧ ∃ m ∈ d.messages, m.id = id ∧ e.Describes d m := by
  obtain ⟨es, hes, hholds⟩ := holds_of_addDialect ((dispatchTable_eq_ok_iff_reached hs).1 h).2
  refine ⟨fun d hd m hm => ?_, fun id e he => ?_⟩
  · have hmem : (d, m) ∈ messagesOf (s.reached names) :=
      mem_messagesOf.2 ⟨mem_reached_iff.2 hd, hm⟩
    obtain ⟨e, -, hentry⟩ := exists_of_mapM_left hes hmem
    have hdescribes := entry_eq_ok_iff.1 hentry
    have hget := (get?_iff_of_entries hes hholds).2 ⟨(d, m), hmem, rfl, hdescribes⟩
    exact ⟨e, hdescribes, SortedMap.mem_entries_iff.2 hget⟩
  · have hget := SortedMap.mem_entries_iff.1 he
    obtain ⟨⟨d, m⟩, hmem, hid, hdescribes⟩ := (get?_iff_of_entries hes hholds).1 hget
    obtain ⟨hd, hm⟩ := mem_messagesOf.1 hmem
    exact ⟨d, mem_reached_iff.1 hd, m, hm, hid, hdescribes⟩

end DialectSet

/-- **A dispatch table depends on what its names reach.** Take a set of dialects whose messages were
declared under the flags of their dialects. Names have a dispatch table exactly if the set has them
and all that the dialects they reach include, and the messages of those dialects have ids and names
of their own. The table lists these messages and nothing else in ascending order of their ids, each
with the name and byte order of its dialect, its fingerprint and its plan. So it does not matter in
which order the names come, or how often. -/
theorem dispatchTable_of_reached {dialects : List Dialect} {s : DialectSet}
    (hs : dialects.foldlM DialectSet.insert {} = .ok s)
    (hdeclared : ∀ d ∈ s.dialects, ∀ m ∈ d.messages,
      Message.declare m.id m.name m.fields m.extensionsStart d.flags =
        .ok { m with description := none })
    (names : List String) :
    ((∃ table, s.dispatchTable names = .ok table) ↔
      (∀ name ∈ names, ∃ d, s.get? name = some d) ∧
      (∀ d, s.Reached names d → ∀ name ∈ d.includes, ∃ d', s.get? name = some d') ∧
      ((DialectSet.messagesOf (s.reached names)).map (·.2.id)).Nodup ∧
      ((DialectSet.messagesOf (s.reached names)).map (·.2.name)).Nodup) ∧
    (∀ table, s.dispatchTable names = .ok table →
      (table.entries.entries.map (·.1)).Pairwise (· < ·) ∧
      (∀ d, s.Reached names d → ∀ m ∈ d.messages,
        ∃ e, e.Describes d m ∧ (m.id, e) ∈ table.entries.entries) ∧
      ∀ id e, (id, e) ∈ table.entries.entries →
        ∃ d, s.Reached names d ∧ ∃ m ∈ d.messages, m.id = id ∧ e.Describes d m) ∧
    ∀ names' : List String, (∀ n, n ∈ names ↔ n ∈ names') →
      (s.dispatchTable names).toOption = (s.dispatchTable names').toOption := by
  have hnodup := DialectSet.names_nodup hs
  refine ⟨?_, fun table h => ⟨?_, ?_⟩, fun names' hnames => ?_⟩
  · have hplans : ∀ d ∈ s.reached names, ∀ m ∈ d.messages,
        ∃ plan, LayoutPlan.ofMessage m d.flags.sortFields = .ok plan := by
      intro d hd m hm
      exact LayoutPlan.exists_ofMessage (hdeclared d (DialectSet.mem_of_reached hd) m hm) _
    simp only [DialectSet.dispatchTable_eq_ok_iff_reached hnodup, exists_and_left,
      DialectSet.exists_addDialect_iff hplans, DialectSet.complete_iff_reached, and_assoc]
  · rw [List.pairwise_map]
    exact table.entries.ascending.imp Nat.compare_eq_lt.1
  · exact DialectSet.entries_of_dispatchTable hnodup h
  · ext table
    rw [toOption_eq_some_iff, toOption_eq_some_iff,
      DialectSet.dispatchTable_eq_ok_iff_reached hnodup,
      DialectSet.dispatchTable_eq_ok_iff_reached hnodup, DialectSet.reached_congr hnames]
    simp only [hnames]

/-- Dialects with two ways to one of them and from there back to the first. -/
def Dialect.diamond : List Dialect :=
  [{ name := "top", includes := ["left", "right"] },
    { name := "left", includes := ["base"],
      messages := [{ id := 3, name := "ALERT", fields := [⟨"level", "uint8_t", 0, none⟩],
                     fingerprint := 25, baseLength := 1, fullLength := 1 }] },
    { name := "right", includes := ["base", "base"] },
    { name := "base", includes := ["top"], messages := [Message.status] }]

/-- Each dialect reaches all others, and one of them is named twice. -/
theorem dispatchTable_of_reached_diamond :
    let s : DialectSet := { dialects := Dialect.diamond }
    Dialect.diamond.foldlM DialectSet.insert {} = .ok s ∧
      (∃ table, s.dispatchTable ["right", "top"] = .ok table ∧
        table.entries.entries.map (·.1) = [3, 7]) ∧
      ((DialectSet.messagesOf (s.reached ["right", "top"])).map (·.2.id)).Nodup ∧
      (s.dispatchTable ["right", "top"]).toOption =
        (s.dispatchTable ["top", "right", "top"]).toOption := by
  intro s
  have hs : Dialect.diamond.foldlM DialectSet.insert {} = .ok s := rfl
  have hdeclared : ∀ d ∈ s.dialects, ∀ m ∈ d.messages,
      Message.declare m.id m.name m.fields m.extensionsStart d.flags =
        .ok { m with description := none } := by
    decide +kernel
  obtain ⟨htable, -, hsame⟩ := dispatchTable_of_reached hs hdeclared ["right", "top"]
  obtain ⟨table, hok, hids⟩ : ∃ table, s.dispatchTable ["right", "top"] = .ok table ∧
      table.entries.entries.map (·.1) = [3, 7] :=
    exists_of_toOption_map (by decide +kernel)
  exact ⟨hs, ⟨table, hok, hids⟩, (htable.1 ⟨table, hok⟩).2.2.1, hsame _ (by simp [or_comm])⟩

end Telemetry
