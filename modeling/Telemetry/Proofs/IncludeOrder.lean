import Telemetry.Proofs.Reachability

/-!
# The order of a closure

A walk puts a dialect behind all that it includes, but for what it has come from: only a dialect
that leads back to the one at hand can still be open when this is done. A closure has its own
dialect last.

* `DialectSet.Walks`: the walk along includes with nothing to bound its depth.
  `DialectSet.walks_visit` says that a bounded walk is this one, so that it ends by itself.
* `DialectSet.Ordered`: dialects behind what they include.
* `Walk.Leads`: what a walk has come to and is not done with leads to where it is.
  `DialectSet.visit_ordered` keeps the order with it.
* `closure_postorder`: closures and their faults.
-/

namespace Telemetry

namespace DialectSet

/-! ## Walks without a bound -/

/-- What a walk ends in that goes on from a dialect along the names that it still has to include.
Nothing bounds its depth. -/
inductive Walks (s : DialectSet) :
    Dialect → List String → Walk → Except SchemaError Walk → Prop where
  | done {d : Dialect} {w : Walk} : Walks s d [] w (.ok { w with done := w.done ++ [d] })
  | unknown {d : Dialect} {name : String} {names : List String} {w : Walk}
    (hget : s.get? name = none) :
    Walks s d (name :: names) w (.error (.unknownInclude d.name name))
  | again {d d' : Dialect} {name : String} {names : List String} {w : Walk}
    {result : Except SchemaError Walk} (hget : s.get? name = some d')
    (hseen : d'.name ∈ w.visited) (hrest : Walks s d names w result) :
    Walks s d (name :: names) w result
  | enter {d d' : Dialect} {name : String} {names : List String} {w w' : Walk}
    {result : Except SchemaError Walk} (hget : s.get? name = some d')
    (hnew : d'.name ∉ w.visited)
    (hinner : Walks s d' d'.includes { w with visited := d'.name :: w.visited } (.ok w'))
    (hrest : Walks s d names w' result) : Walks s d (name :: names) w result
  | fault {d d' : Dialect} {name : String} {names : List String} {w : Walk} {e : SchemaError}
    (hget : s.get? name = some d') (hnew : d'.name ∉ w.visited)
    (hinner : Walks s d' d'.includes { w with visited := d'.name :: w.visited } (.error e)) :
    Walks s d (name :: names) w (.error e)

section Walks

variable {s : DialectSet} {d : Dialect} {w : Walk} {depth : Nat}

theorem visit_of_mem (hdepth : 0 < depth) (hseen : d.name ∈ w.visited) :
    s.visit depth d w = .ok w := by
  obtain ⟨n, rfl⟩ : ∃ n, depth = n + 1 := ⟨depth - 1, by omega⟩
  rw [visit, if_pos hseen]

/-- The includes of a dialect one after the other, each of them walked with a bound that is not
reached. -/
theorem walks_foldlM {step : Walk → String → Except SchemaError Walk} {names : List String}
    (hunknown : ∀ w name, s.get? name = none → step w name = .error (.unknownInclude d.name name))
    (hknown : ∀ w name d', s.get? name = some d' → step w name = s.visit depth d' w)
    (hvisit : ∀ w d', d' ∈ s.dialects → d'.name ∉ w.visited → s.remaining w < depth →
      s.Walks d' d'.includes { w with visited := d'.name :: w.visited } (s.visit depth d' w))
    (hdepth : s.remaining w < depth) :
    s.Walks d names w (do
      let w' ← names.foldlM step w
      return { w' with done := w'.done ++ [d] }) := by
  induction names generalizing w with
  | nil => exact .done
  | cons name names ih =>
    rw [List.foldlM_cons]
    cases hget : s.get? name with
    | none =>
      rw [hunknown w name hget]
      exact .unknown hget
    | some d' =>
      rw [hknown w name d' hget]
      by_cases hseen : d'.name ∈ w.visited
      · rw [visit_of_mem (by omega) hseen]
        exact .again hget hseen (ih hdepth)
      · have hinner := hvisit w d' (mem_of_get? hget) hseen hdepth
        cases hw : s.visit depth d' w with
        | error e =>
          rw [hw] at hinner
          exact .fault hget hseen hinner
        | ok w' =>
          rw [hw] at hinner
          have hle := remaining_le_of_subset (s := s) (visit_extends hw).visited
          exact .enter hget hseen hinner (ih (by omega))

/-- **A walk ends by itself**, before its bound is reached: each dialect that it enters is one less
that remains. -/
theorem walks_visit (hd : d ∈ s.dialects) (hnew : d.name ∉ w.visited)
    (hdepth : s.remaining w < depth) :
    s.Walks d d.includes { w with visited := d.name :: w.visited } (s.visit depth d w) := by
  induction depth generalizing d w with
  | zero => omega
  | succ depth ih =>
    have hless := remaining_lt_of_notMem hd hnew
    rw [visit, if_neg hnew]
    refine walks_foldlM (fun w name hget => ?_) (fun w name d' hget => ?_)
      (fun w d' hd' hnew' hdepth' => ih hd' hnew' hdepth') (by omega)
    · rw [hget]
    · rw [hget]

/-- A walk ends in one way only. -/
theorem Walks.unique {names : List String} {result result' : Except SchemaError Walk}
    (h : s.Walks d names w result) (h' : s.Walks d names w result') : result = result' := by
  induction h generalizing result' with
  | done =>
    cases h'
    rfl
  | unknown hget => cases h' <;> grind
  | again hget hseen _ ih => cases h' <;> grind
  | enter hget hnew _ _ ih ih' => cases h' <;> grind
  | fault hget hnew _ ih => cases h' <;> grind

end Walks

/-! ## Order -/

/-- Dialects each of which comes behind what it includes, unless that leads back to it. -/
def Ordered (s : DialectSet) (ds : List Dialect) : Prop :=
  ∀ before d after, ds = before ++ d :: after →
    ∀ name ∈ d.includes, ∀ d', s.get? name = some d' → d' ∈ before ∨ s.Reaches d' d

theorem Ordered.append {s : DialectSet} {ds : List Dialect} {d : Dialect} (h : s.Ordered ds)
    (hd : ∀ name ∈ d.includes, ∀ d', s.get? name = some d' → d' ∈ ds ∨ s.Reaches d' d) :
    s.Ordered (ds ++ [d]) := by
  intro before x after hds
  rcases List.eq_nil_or_concat after with rfl | ⟨after', y, rfl⟩
  · obtain ⟨rfl, hx⟩ := List.append_inj' hds rfl
    obtain rfl : d = x := by simpa using hx
    exact hd
  · have hsplit : ds ++ [d] = (before ++ x :: after') ++ [y] := by simpa using hds
    obtain ⟨hinit, -⟩ := List.append_inj' hsplit rfl
    exact h before x after' hinit

end DialectSet

/-- All that a walk has come to leads to a dialect, or the walk is done with it. -/
def Walk.Leads (s : DialectSet) (w : Walk) (d : Dialect) : Prop :=
  ∀ x ∈ s.dialects, x.name ∈ w.visited → x ∈ w.done ∨ s.Reaches x d

namespace Walk.Leads

variable {s : DialectSet} {d d' : Dialect} {w w' : Walk}

theorem enter (hs : (s.dialects.map (·.name)).Nodup) (hd : d ∈ s.dialects) (h : w.Leads s d) :
    Walk.Leads s { w with visited := d.name :: w.visited } d := by
  intro x hx hvisited
  rcases List.mem_cons.1 hvisited with hname | hvisited
  · obtain rfl := DialectSet.eq_of_name hs hx hd hname
    exact .inr .refl
  · exact h x hx hvisited

/-- What a walk comes to on the way it is done with, and all else is as it was. -/
theorem explore (h : w.Leads s d) (hw : Walk.Explores s d w w') : w'.Leads s d := by
  intro x hx hvisited
  by_cases hold : x.name ∈ w.visited
  · exact (h x hx hold).imp_left fun hdone => hw.done_subset hdone
  · exact .inl (hw.found x hx hvisited hold).2.1

theorem step (h : w.Leads s d) (hd : s.Includes d d') : w.Leads s d' :=
  fun x hx hvisited => (h x hx hvisited).imp_right fun hreach => hreach.tail hd

end Walk.Leads

namespace DialectSet

/-- A visit keeps the order. When it puts a dialect behind its includes, the walk has come to all of
these, and what it is not done with among them leads to the dialect. -/
theorem visit_ordered {s : DialectSet} {depth : Nat} {d : Dialect} {w w' : Walk}
    (hs : (s.dialects.map (·.name)).Nodup) (hd : d ∈ s.dialects) (hdepth : s.remaining w < depth)
    (hleads : w.Leads s d) (hordered : s.Ordered w.done) (h : s.visit depth d w = .ok w') :
    s.Ordered w'.done := by
  induction depth generalizing d w w' with
  | zero => omega
  | succ depth ih =>
    obtain ⟨hexplores, hself⟩ := visit_explores hs hd hdepth h
    rw [visit] at h
    split at h
    · cases h
      exact hordered
    · rename_i hnew
      obtain ⟨inner, hinner, h⟩ := bind_eq_ok_iff.1 h
      cases h
      have hless := remaining_lt_of_notMem hd hnew
      have henter := hleads.enter hs hd
      have hfold : Walk.Explores s d { w with visited := d.name :: w.visited } inner ∧
          s.Ordered inner.done := by
        refine foldlM_preserves (fun w₁ => Walk.Explores s d _ w₁ ∧ s.Ordered w₁.done)
          ⟨.refl s d _, hordered⟩ (fun name hname w₁ w₂ hw₁ hstep => ?_) hinner
        split at hstep
        · rename_i d' hget
          have hincludes : s.Includes d d' := ⟨name, hname, hget⟩
          have hd' := mem_of_get? hget
          have hle := remaining_le_of_subset (s := s) hw₁.1.visited
          obtain ⟨hw₂, -⟩ := visit_explores hs hd' (by omega) hstep
          have hleads₁ := (henter.explore hw₁.1).step hincludes
          exact ⟨hw₁.1.trans (hw₂.of_includes hincludes),
            ih hd' (by omega) hleads₁ hw₁.2 hstep⟩
        · cases hstep
      obtain ⟨hexplored, hdone⟩ := hfold
      refine hdone.append fun name hname d' hget => ?_
      have hvisited : d'.name ∈ inner.visited := by
        rw [name_of_get? hget]
        exact ((hexplores.found d hd hself hnew).2.2 name hname).2
      exact henter.explore hexplored d' (mem_of_get? hget) hvisited

/-! ## Closures -/

section Closure

variable {s : DialectSet} {name : String} {root : Dialect}

theorem closure_eq (hroot : s.get? name = some root) :
    s.closure name = (s.visit (s.dialects.length + 1) root {}).map (·.done) := by
  unfold closure
  simp only [hroot]
  cases s.visit (s.dialects.length + 1) root {} with
  | ok w => rfl
  | error e => rfl

theorem remaining_empty_lt (s : DialectSet) : s.remaining {} < s.dialects.length + 1 :=
  Nat.lt_succ_of_le (List.length_filter_le _ _)

theorem getLast?_closure {ds : List Dialect} (hroot : s.get? name = some root)
    (h : s.closure name = .ok ds) : ds.getLast? = some root := by
  obtain ⟨d, w, hget, hw, rfl⟩ := closure_eq_ok h
  cases hroot.symm.trans hget
  rw [visit] at hw
  obtain ⟨inner, -, hw⟩ := bind_eq_ok_iff.1 hw
  cases hw
  simp

theorem ordered_closure (hs : (s.dialects.map (·.name)).Nodup) {ds : List Dialect}
    (h : s.closure name = .ok ds) : s.Ordered ds := by
  obtain ⟨d, w, hget, hw, rfl⟩ := closure_eq_ok h
  have hleads : Walk.Leads s {} d := fun x _ hvisited => absurd hvisited List.not_mem_nil
  have hempty : s.Ordered [] := by
    intro before d after hds
    simp at hds
  exact visit_ordered hs (mem_of_get? hget) s.remaining_empty_lt hleads hempty hw

/-- The only fault of a closure is an include that is not in the set. -/
theorem closure_eq_error {e : SchemaError} (hroot : s.get? name = some root)
    (h : s.closure name = .error e) :
    ∃ d i, s.Reaches root d ∧ i ∈ d.includes ∧ s.get? i = none ∧
      e = .unknownInclude d.name i := by
  rw [closure_eq hroot] at h
  cases hw : s.visit (s.dialects.length + 1) root {} with
  | ok w =>
    rw [hw] at h
    cases h
  | error e' =>
    rw [hw] at h
    cases h
    exact visit_eq_error hw

theorem closure_eq_unknownDialect_iff {n : String} :
    s.closure name = .error (.unknownDialect n) ↔ s.get? name = none ∧ n = name := by
  cases hget : s.get? name with
  | none =>
    unfold closure
    simp [hget, eq_comm]
  | some root =>
    refine ⟨fun h => ?_, fun h => by cases h.1⟩
    obtain ⟨d, i, -, -, -, he⟩ := closure_eq_error hget h
    cases he

theorem closure_eq_unknownInclude_iff (hs : (s.dialects.map (·.name)).Nodup) :
    (∃ d i, s.closure name = .error (.unknownInclude d i)) ↔
      ∃ root, s.get? name = some root ∧
        ∃ d, s.Reaches root d ∧ ∃ i ∈ d.includes, s.get? i = none := by
  constructor
  · rintro ⟨x, i, h⟩
    cases hget : s.get? name with
    | none =>
      unfold closure at h
      simp [hget] at h
    | some root =>
      obtain ⟨d, i, hreach, hi, hnone, -⟩ := closure_eq_error hget h
      exact ⟨root, rfl, d, hreach, i, hi, hnone⟩
  · rintro ⟨root, hroot, d, hreach, i, hi, hnone⟩
    cases hc : s.closure name with
    | ok ds =>
      obtain ⟨d', hget⟩ := (closure_of_reaches hs hroot hc hreach).2 i hi
      rw [hnone] at hget
      cases hget
    | error e =>
      obtain ⟨d', i', -, -, -, rfl⟩ := closure_eq_error hroot hc
      exact ⟨_, _, rfl⟩

/-- Where no dialect leads back to itself, each comes behind all that it includes. -/
theorem Ordered.of_acyclic {ds : List Dialect} (h : s.Ordered ds)
    (hacyclic : ∀ d ∈ ds, ¬ Relation.TransGen s.Includes d d) {before after : List Dialect}
    {d d' : Dialect} (hds : ds = before ++ d :: after) {i : String} (hi : i ∈ d.includes)
    (hget : s.get? i = some d') : d' ∈ before := by
  refine (h before d after hds i hi d' hget).resolve_right fun hreach => ?_
  have hincludes : s.Includes d d' := ⟨i, hi, hget⟩
  exact hacyclic d (by simp [hds]) (.head' hincludes hreach)

end Closure

end DialectSet

/-- **A closure lists what its dialect reaches, includes first.** The walk that makes it ends by
itself, whatever the includes are. Its faults are a name that is not in the set and, if this is
there, an include of some dialect that is reached and is not in the set. Otherwise the closure holds
each dialect that is reached once, the one asked for last. Each comes behind what it includes,
unless that leads back to it; so behind all that it includes, if none leads back to itself. -/
theorem closure_postorder {dialects : List Dialect} {s : DialectSet}
    (hs : dialects.foldlM DialectSet.insert {} = .ok s) (name : String) :
    (∀ root, s.get? name = some root →
      ∃ result, s.closure name = result.map (·.done) ∧
        ∀ result', s.Walks root root.includes { visited := [root.name] } result' ↔
          result' = result) ∧
    (∀ n, s.closure name = .error (.unknownDialect n) ↔ s.get? name = none ∧ n = name) ∧
    ((∃ d i, s.closure name = .error (.unknownInclude d i)) ↔
      ∃ root, s.get? name = some root ∧
        ∃ d, s.Reaches root d ∧ ∃ i ∈ d.includes, s.get? i = none) ∧
    ∀ root, s.get? name = some root →
      (∀ d, s.Reaches root d → ∀ i ∈ d.includes, ∃ d', s.get? i = some d') →
      ∃ ds, s.closure name = .ok ds ∧ ds.Nodup ∧ (∀ d, d ∈ ds ↔ s.Reaches root d) ∧
        ds.getLast? = some root ∧
        (∀ before d after, ds = before ++ d :: after → ∀ i ∈ d.includes,
          ∃ d', s.get? i = some d' ∧ (d' ∈ before ∨ s.Reaches d' d)) ∧
        ((∀ d, s.Reaches root d → ¬ Relation.TransGen s.Includes d d) →
          ∀ before d after, ds = before ++ d :: after → ∀ i ∈ d.includes,
            ∃ d' ∈ before, s.get? i = some d') := by
  have hnodup := DialectSet.names_nodup hs
  refine ⟨fun root hroot => ?_, fun n => DialectSet.closure_eq_unknownDialect_iff,
    DialectSet.closure_eq_unknownInclude_iff hnodup, fun root hroot hcomplete => ?_⟩
  · have hwalks := DialectSet.walks_visit (DialectSet.mem_of_get? hroot) List.not_mem_nil
      s.remaining_empty_lt
    refine ⟨_, DialectSet.closure_eq hroot, fun result' => ⟨fun h => h.unique hwalks, ?_⟩⟩
    rintro rfl
    exact hwalks
  · obtain ⟨ds, hds⟩ := (DialectSet.exists_closure_iff hnodup).2 ⟨root, hroot, hcomplete⟩
    have hmem {d : Dialect} : d ∈ ds ↔ s.Reaches root d :=
      DialectSet.mem_closure_iff hnodup hroot hds
    have hordered := DialectSet.ordered_closure hnodup hds
    have hknown {before after : List Dialect} {d : Dialect} (h : ds = before ++ d :: after) :
        ∀ i ∈ d.includes, ∃ d', s.get? i = some d' :=
      hcomplete d (hmem.1 (by simp [h]))
    refine ⟨ds, hds, DialectSet.nodup_closure hds, fun d => hmem,
      DialectSet.getLast?_closure hroot hds, fun before d after h i hi => ?_,
      fun hacyclic before d after h i hi => ?_⟩
    · obtain ⟨d', hget⟩ := hknown h i hi
      exact ⟨d', hget, hordered before d after h i hi d' hget⟩
    · obtain ⟨d', hget⟩ := hknown h i hi
      exact ⟨d', hordered.of_acyclic (fun d hd => hacyclic d (hmem.1 hd)) h hi hget, hget⟩

/-- Dialects of which one includes something that is nowhere. -/
def Dialect.dangling : List Dialect :=
  [{ name := "common", includes := ["minimal", "extras"] }, { name := "minimal" },
    { name := "vendor", includes := ["minimal"] }]

/-- Includes that lead back to the dialect asked for, an include that is missing, and a dialect whose
includes lead nowhere back. -/
theorem closure_postorder_diamond :
    let s : DialectSet := { dialects := Dialect.diamond }
    let s' : DialectSet := { dialects := Dialect.dangling }
    Dialect.diamond.foldlM DialectSet.insert {} = .ok s ∧
    Dialect.dangling.foldlM DialectSet.insert {} = .ok s' ∧
    (∃ ds, s.closure "top" = .ok ds ∧ ds.map (·.name) = ["base", "left", "right", "top"] ∧
      ds.Nodup ∧ ∀ before d after, ds = before ++ d :: after → ∀ i ∈ d.includes,
        ∃ d', s.get? i = some d' ∧ (d' ∈ before ∨ s.Reaches d' d)) ∧
    s.closure "bottom" = .error (.unknownDialect "bottom") ∧
    (∃ d i, s'.closure "common" = .error (.unknownInclude d i)) ∧
    ∃ ds, s'.closure "vendor" = .ok ds ∧ ∀ before d after, ds = before ++ d :: after →
      ∀ i ∈ d.includes, ∃ d' ∈ before, s'.get? i = some d' := by
  intro s s'
  have hs : Dialect.diamond.foldlM DialectSet.insert {} = .ok s := rfl
  have hs' : Dialect.dangling.foldlM DialectSet.insert {} = .ok s' := rfl
  refine ⟨hs, hs', ?_, ?_, ?_, ?_⟩
  · obtain ⟨root, hroot⟩ : ∃ root, s.get? "top" = some root := ⟨_, rfl⟩
    have hknown : ∀ d ∈ s.dialects, ∀ i ∈ d.includes, (s.get? i).isSome = true := by
      decide +kernel
    obtain ⟨ds, hds, hnodup, -, -, hordered, -⟩ :=
      (closure_postorder hs "top").2.2.2 root hroot fun d hd i hi =>
        Option.isSome_iff_exists.1 (hknown d (hd.mem (DialectSet.mem_of_get? hroot)) i hi)
    have hnames : (s.closure "top").toOption.map (·.map (·.name)) =
        some ["base", "left", "right", "top"] := by decide +kernel
    rw [hds] at hnames
    exact ⟨ds, hds, Option.some.inj hnames, hnodup, hordered⟩
  · exact ((closure_postorder hs "bottom").2.1 _).2 ⟨by decide +kernel, rfl⟩
  · refine (closure_postorder hs' "common").2.2.1.2 ⟨_, rfl, _, .refl, "extras", ?_, ?_⟩
    · decide
    · decide +kernel
  · obtain ⟨root, hroot⟩ : ∃ root, s'.get? "vendor" = some root := ⟨_, rfl⟩
    have hleaf : ∀ d d', d.includes = ["minimal"] ∨ d.includes = [] → s'.Includes d d' →
        d'.includes = [] := by
      rintro d d' (h | h) ⟨i, hi, hget⟩
      · rw [h, List.mem_singleton] at hi
        subst hi
        cases hget
        rfl
      · rw [h] at hi
        cases hi
    have hreached : ∀ d, s'.Reaches root d → d.includes = ["minimal"] ∨ d.includes = [] := by
      intro d hd
      induction hd with
      | refl =>
        cases hroot
        exact .inl rfl
      | tail _ hstep ih => exact .inr (hleaf _ _ ih hstep)
    obtain ⟨ds, hds, -, -, -, -, hbehind⟩ :=
      (closure_postorder hs' "vendor").2.2.2 root hroot fun d hd i hi => by
        rcases hreached d hd with h | h
        · rw [h, List.mem_singleton] at hi
          subst hi
          exact ⟨_, rfl⟩
        · rw [h] at hi
          cases hi
    refine ⟨ds, hds, hbehind fun d hd hcycle => ?_⟩
    obtain ⟨x, hx, hlast⟩ := Relation.TransGen.tail'_iff.1 hcycle
    obtain ⟨y, ⟨i, hi, -⟩, -⟩ := Relation.TransGen.head'_iff.1 hcycle
    rw [hleaf x d (hreached x (hd.trans hx)) hlast] at hi
    cases hi

end Telemetry
