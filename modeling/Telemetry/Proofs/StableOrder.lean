import Mathlib.Data.List.Nodup
import Mathlib.Logic.Equiv.Basic
import Telemetry.Proofs.Tiling

/-!
# The order of fields on the wire

Fields come on the wire in the one order that keeps base and extension apart, has the widest
elements of either part first, and leaves fields of one width as they were declared. So nothing but
the order of fields of one width matters to it.

* `WireOrder.Stable`: what such an order is. `WireOrder.Stable.unique` says that there is only one.
* `widestFirst_pairwise`: sorting by width is stable. `widestFirst_eq_mergeSort` says that it gives
  what a merge sort by width gives.
* `stable_of_wireOrder`, `wireOrder_eq_error_iff`: the wire order of fields, and the fault of fields
  that have none.
* `Shuffles`: another order of the same declarations, in which no part and no width is disturbed.
* `wireOrder_sorts`: all of it together.
-/

namespace Telemetry

/-! ## Stable orders -/

/-- An entry for the field that was declared at its place, with the type that the field names. -/
def OrderedField.Stands (fields : List Field) (o : OrderedField) : Prop :=
  fields[o.index]? = some o.field ∧ ScalarType.ofTag? o.field.tag = some o.type

theorem OrderedField.Stands.eq_of_index {fields : List Field} {o o' : OrderedField}
    (h : o.Stands fields) (h' : o'.Stands fields) (hindex : o.index = o'.index) : o = o' := by
  obtain ⟨index, field, type⟩ := o
  obtain ⟨index', field', type'⟩ := o'
  simp only [Stands] at h h' hindex
  subst hindex
  have hfield : field = field' := by simpa [h.1] using h'.1
  subst hfield
  have htype : type = type' := by simpa [h.2] using h'.2
  rw [htype]

/-- Whether fields that may be sorted come one behind the other: the wider first, and else the one
that was declared first. -/
def OrderedField.Precedes (sorted : Bool) (a b : OrderedField) : Prop :=
  sorted = true ∧ b.type.width < a.type.width ∨
    (sorted = true → a.type.width = b.type.width) ∧ a.index < b.index

theorem OrderedField.Precedes.asymm {sorted : Bool} {a b : OrderedField} (h : a.Precedes sorted b)
    (h' : b.Precedes sorted a) : False := by
  unfold Precedes at h h'
  cases sorted with
  | false => simp at h h'; omega
  | true => simp at h h'; omega

theorem OrderedField.Precedes.width_le {a b : OrderedField} (h : a.Precedes true b) :
    b.type.width ≤ a.type.width := by
  simp only [Precedes, forall_const] at h
  omega

theorem OrderedField.Precedes.index_lt {a b : OrderedField} (h : a.Precedes true b)
    (hwidth : a.type.width = b.type.width) : a.index < b.index := by
  simp only [Precedes, forall_const] at h
  omega

/-- An order of fields of which `split` come before the extensions: each field once, the base before
the extensions, and either part as it was declared or with the widest elements first. -/
structure WireOrder.Stable (fields : List Field) (split : Nat) (sorted : Bool)
    (order : WireOrder) : Prop where
  once : (order.all.map (·.index)).Perm (List.range fields.length)
  base : ∀ o ∈ order.base, o.index < split
  extension : ∀ o ∈ order.extension, split ≤ o.index
  stands : ∀ o ∈ order.all, fields[o.index]? = some o.field ∧
    ScalarType.ofTag? o.field.tag = some o.type
  declared : sorted = false → order.all.map (·.index) = List.range fields.length
  widest : sorted = true → ∀ part ∈ [order.base, order.extension],
    part.Pairwise fun a b => b.type.width ≤ a.type.width
  ties : sorted = true → ∀ part ∈ [order.base, order.extension],
    part.Pairwise fun a b => a.type.width = b.type.width → a.index < b.index

namespace WireOrder.Stable

variable {fields : List Field} {split : Nat} {sorted : Bool} {order order' : WireOrder}

theorem nodup (h : order.Stable fields split sorted) : order.all.Nodup :=
  List.Nodup.of_map _ (h.once.nodup_iff.2 List.nodup_range)

theorem mem_all_iff (h : order.Stable fields split sorted) {o : OrderedField} :
    o ∈ order.all ↔ o.Stands fields := by
  refine ⟨h.stands o, fun ho => ?_⟩
  have hindex : o.index ∈ order.all.map (·.index) := by
    rw [h.once.mem_iff, List.mem_range]
    exact (List.getElem?_eq_some_iff.1 ho.1).1
  obtain ⟨o', ho', hsame⟩ := List.mem_map.1 hindex
  exact OrderedField.Stands.eq_of_index (h.stands o' ho') ho hsame ▸ ho'

theorem mem_base_iff (h : order.Stable fields split sorted) {o : OrderedField} :
    o ∈ order.base ↔ o.Stands fields ∧ o.index < split := by
  rw [← h.mem_all_iff, WireOrder.all, List.mem_append]
  constructor
  · exact fun ho => ⟨.inl ho, h.base o ho⟩
  · rintro ⟨ho | ho, hlt⟩
    · exact ho
    · exact absurd hlt (Nat.not_lt.2 (h.extension o ho))

theorem mem_extension_iff (h : order.Stable fields split sorted) {o : OrderedField} :
    o ∈ order.extension ↔ o.Stands fields ∧ split ≤ o.index := by
  rw [← h.mem_all_iff, WireOrder.all, List.mem_append]
  constructor
  · exact fun ho => ⟨.inr ho, h.extension o ho⟩
  · rintro ⟨ho | ho, hle⟩
    · exact absurd hle (Nat.not_le.2 (h.base o ho))
    · exact ho

theorem pairwise (h : order.Stable fields split sorted) :
    ∀ part ∈ [order.base, order.extension], part.Pairwise (OrderedField.Precedes sorted) := by
  intro part hpart
  cases sorted with
  | true =>
    refine ((h.widest rfl part hpart).and (h.ties rfl part hpart)).imp fun {a b} hab => ?_
    unfold OrderedField.Precedes
    by_cases hwidth : a.type.width = b.type.width
    · exact .inr ⟨fun _ => hwidth, hab.2 hwidth⟩
    · exact .inl ⟨rfl, by omega⟩
  | false =>
    have hall : order.all.Pairwise fun a b => a.index < b.index := by
      rw [← List.pairwise_map, h.declared rfl]
      exact List.pairwise_lt_range
    have hsublist : part.Sublist order.all := by
      simp only [List.mem_cons, List.not_mem_nil, or_false] at hpart
      rcases hpart with rfl | rfl
      · exact List.sublist_append_left _ _
      · exact List.sublist_append_right _ _
    exact (hall.sublist hsublist).imp fun hab => .inr ⟨fun hsorted => (by cases hsorted), hab⟩

/-- There is only one stable order: both have the same members in either part, and no two of them
can change places. -/
theorem unique (h : order.Stable fields split sorted) (h' : order'.Stable fields split sorted) :
    order = order' := by
  have hnodup := List.nodup_append.1 h.nodup
  have hnodup' := List.nodup_append.1 h'.nodup
  have heq {part part' : List OrderedField} (hpart : part ∈ [order.base, order.extension])
      (hpart' : part' ∈ [order'.base, order'.extension]) (hperm : part.Perm part') :
      part = part' :=
    hperm.eq_of_pairwise (fun a b _ _ hab hba => (hab.asymm hba).elim) (h.pairwise part hpart)
      (h'.pairwise part' hpart')
  have hbase : order.base = order'.base := by
    refine heq (by simp) (by simp) ((List.perm_ext_iff_of_nodup hnodup.1 hnodup'.1).2 fun o => ?_)
    rw [h.mem_base_iff, h'.mem_base_iff]
  have hextension : order.extension = order'.extension := by
    refine heq (by simp) (by simp)
      ((List.perm_ext_iff_of_nodup hnodup.2.1 hnodup'.2.1).2 fun o => ?_)
    rw [h.mem_extension_iff, h'.mem_extension_iff]
  cases order
  cases order'
  simp_all

end WireOrder.Stable

/-! ## Sorting -/

/-- Fields in the order of their declaration are sorted by width, and those of one width stay in
that order. -/
theorem widestFirst_pairwise {os : List OrderedField}
    (h : os.Pairwise fun a b => a.index < b.index) :
    (widestFirst os).Pairwise (OrderedField.Precedes true) := by
  unfold widestFirst
  rw [List.pairwise_flatMap]
  constructor
  · intro width _
    refine (h.filter _).imp_of_mem fun {a b} ha hb hab => ?_
    have hwidth : a.type.width = b.type.width := by
      have hwa := (List.mem_filter.1 ha).2
      have hwb := (List.mem_filter.1 hb).2
      simp only [decide_eq_true_eq] at hwa hwb
      rw [hwa, hwb]
    exact .inr ⟨fun _ => hwidth, hab⟩
  · have hdescending : [8, 4, 2, 1].Pairwise fun w w' : Nat => w' < w := by decide
    refine hdescending.imp fun {w w'} hlt a ha b hb => ?_
    have hwa := (List.mem_filter.1 ha).2
    have hwb := (List.mem_filter.1 hb).2
    simp only [decide_eq_true_eq] at hwa hwb
    exact .inl ⟨rfl, by omega⟩

/-- A field that is not narrower than the others comes first. -/
theorem widestFirst_cons {o : OrderedField} {os : List OrderedField}
    (h : ∀ b ∈ os, b.type.width ≤ o.type.width) : widestFirst (o :: os) = o :: widestFirst os := by
  have hnone (width : Nat) (hlt : o.type.width < width) :
      os.filter (·.type.width = width) = [] := by
    refine List.filter_eq_nil_iff.2 fun b hb => ?_
    have hle := h b hb
    simp only [decide_eq_true_eq]
    omega
  have hwidth := o.type.width_mem
  simp only [List.mem_cons, List.not_mem_nil, or_false] at hwidth
  rcases hwidth with hw | hw | hw | hw
  · simp [widestFirst, hw]
  · simp [widestFirst, hw, hnone 8 (by omega)]
  · simp [widestFirst, hw, hnone 8 (by omega), hnone 4 (by omega)]
  · simp [widestFirst, hw, hnone 8 (by omega), hnone 4 (by omega), hnone 2 (by omega)]

theorem widestFirst_of_pairwise {os : List OrderedField}
    (h : os.Pairwise fun a b => b.type.width ≤ a.type.width) : widestFirst os = os := by
  induction h with
  | nil => rfl
  | cons hfirst _ ih => rw [widestFirst_cons hfirst, ih]

namespace OrderedField

/-- The comparison of a sort by width: a field may come before those that are not wider. -/
def notNarrower (a b : OrderedField) : Bool := decide (b.type.width ≤ a.type.width)

theorem notNarrower_iff {a b : OrderedField} :
    a.notNarrower b = true ↔ b.type.width ≤ a.type.width :=
  decide_eq_true_iff

theorem notNarrower_trans (a b c : OrderedField) (hab : a.notNarrower b = true)
    (hbc : b.notNarrower c = true) : a.notNarrower c = true := by
  rw [notNarrower_iff] at hab hbc ⊢
  omega

theorem notNarrower_total (a b : OrderedField) : (a.notNarrower b || b.notNarrower a) = true := by
  rw [Bool.or_eq_true, notNarrower_iff, notNarrower_iff]
  omega

end OrderedField

/-- A merge sort leaves the fields of one width in their order: they are a sorted part of the list,
and so they come in this order in the result. -/
theorem filter_mergeSort (os : List OrderedField) (width : Nat) :
    (os.mergeSort OrderedField.notNarrower).filter (·.type.width = width) =
      os.filter (·.type.width = width) := by
  have hsame : (os.filter (·.type.width = width)).Pairwise fun a b => a.notNarrower b := by
    rw [List.pairwise_filter]
    refine List.pairwise_of_forall fun a b ha hb => ?_
    rw [decide_eq_true_iff] at ha hb
    rw [OrderedField.notNarrower_iff]
    omega
  have hsublist := (List.sublist_mergeSort OrderedField.notNarrower_trans
    OrderedField.notNarrower_total hsame List.filter_sublist).filter (·.type.width = width)
  simp only [List.filter_filter, Bool.and_self] at hsublist
  have hperm := (List.mergeSort_perm os OrderedField.notNarrower).filter (·.type.width = width)
  exact (hsublist.eq_of_length hperm.length_eq.symm).symm

/-- Picking the fields of each width, the greatest first, is a merge sort by width. -/
theorem widestFirst_eq_mergeSort (os : List OrderedField) :
    widestFirst os = os.mergeSort OrderedField.notNarrower := by
  have hsorted : (os.mergeSort OrderedField.notNarrower).Pairwise
      fun a b => b.type.width ≤ a.type.width :=
    (List.pairwise_mergeSort OrderedField.notNarrower_trans OrderedField.notNarrower_total os).imp
      OrderedField.notNarrower_iff.1
  calc widestFirst os
      = widestFirst (os.mergeSort OrderedField.notNarrower) := by
        simp only [widestFirst, filter_mergeSort]
    _ = os.mergeSort OrderedField.notNarrower := widestFirst_of_pairwise hsorted

/-- The fields of one part, in whatever order they come. -/
theorem arrange_pairwise {os : List OrderedField} (sorted : Bool)
    (h : os.Pairwise fun a b => a.index < b.index) :
    (arrange sorted os).Pairwise (OrderedField.Precedes sorted) := by
  cases sorted with
  | true => exact widestFirst_pairwise h
  | false => exact h.imp fun hab => .inr ⟨fun hsorted => (by cases hsorted), hab⟩

/-! ## Wire order -/

section WireOrder

variable {message : String} {fields : List Field} {start : Option Nat} {sorted : Bool}

theorem stands_of_resolveFields {part : List (Field × Nat)} {os : List OrderedField}
    (h : resolveFields message part = .ok os) (hpart : part ⊆ fields.zipIdx) :
    ∀ o ∈ os, o.Stands fields := by
  intro o ho
  have hmem : (o.field, o.index) ∈ part := by
    rw [← numbers_of_resolveFields h]
    exact List.mem_map.2 ⟨o, ho, rfl⟩
  exact ⟨List.mem_zipIdx_iff_getElem?.1 (hpart hmem), ofTag?_of_resolveFields h o ho⟩

/-- The wire order of fields is stable. -/
theorem stable_of_wireOrder {order : WireOrder}
    (h : wireOrder message fields start sorted = .ok order) :
    order.Stable fields (splitIndex start fields.length) sorted := by
  obtain ⟨base, extension, hbase, hext, rfl⟩ := wireOrder_eq_ok_iff.1 h
  have hsplit : splitIndex start fields.length ≤ fields.length := Nat.min_le_right _ _
  generalize splitIndex start fields.length = split at hbase hext hsplit ⊢
  -- Before they are sorted, the fields come as they were declared.
  have hbaseIndex : base.map (·.index) = List.range split :=
    (indices_of_resolveFields hbase).trans (indices_take_zipIdx hsplit)
  have hextIndex : extension.map (·.index) = List.range' split (fields.length - split) :=
    (indices_of_resolveFields hext).trans (indices_drop_zipIdx fields split)
  have hallIndex : (base ++ extension).map (·.index) = List.range fields.length := by
    rw [List.map_append, indices_of_resolveFields hbase, indices_of_resolveFields hext,
      ← List.map_append, List.take_append_drop, List.zipIdx_map_snd, List.range_eq_range']
  have hbaseSorted : (arrange sorted base).Pairwise (OrderedField.Precedes sorted) := by
    apply arrange_pairwise
    rw [← List.pairwise_map, hbaseIndex]
    exact List.pairwise_lt_range
  have hextSorted : (arrange sorted extension).Pairwise (OrderedField.Precedes sorted) := by
    apply arrange_pairwise
    rw [← List.pairwise_map, hextIndex]
    exact List.pairwise_lt_range'
  have hpairwise : ∀ part ∈ [arrange sorted base, arrange sorted extension],
      part.Pairwise (OrderedField.Precedes sorted) := by
    simp [hbaseSorted, hextSorted]
  have hbasePerm := arrange_perm sorted base
  have hextPerm := arrange_perm sorted extension
  constructor
  case once =>
    rw [← hallIndex]
    exact (hbasePerm.append hextPerm).map _
  case base =>
    intro o ho
    have hindex : o.index ∈ base.map (·.index) := List.mem_map_of_mem (hbasePerm.mem_iff.1 ho)
    rw [hbaseIndex] at hindex
    exact List.mem_range.1 hindex
  case extension =>
    intro o ho
    have hindex : o.index ∈ extension.map (·.index) := List.mem_map_of_mem (hextPerm.mem_iff.1 ho)
    rw [hextIndex] at hindex
    exact (List.mem_range'_1.1 hindex).1
  case stands =>
    intro o ho
    rcases List.mem_append.1 ho with ho | ho
    · exact stands_of_resolveFields hbase (List.take_subset _ _) o (hbasePerm.mem_iff.1 ho)
    · exact stands_of_resolveFields hext (List.drop_subset _ _) o (hextPerm.mem_iff.1 ho)
  case declared =>
    rintro rfl
    exact hallIndex
  case widest =>
    rintro rfl part hpart
    exact (hpairwise part hpart).imp OrderedField.Precedes.width_le
  case ties =>
    rintro rfl part hpart
    exact (hpairwise part hpart).imp OrderedField.Precedes.index_lt

theorem ScalarType.resolve_eq_error_iff {field tag : String} {e : SchemaError} :
    resolve message field tag = .error e ↔
      ofTag? tag = none ∧ e = .unknownType message field tag := by
  unfold resolve
  cases ofTag? tag with
  | none => simp [eq_comm]
  | some t => simp

theorem ScalarType.exists_resolve_iff {field tag : String} :
    (∃ t, resolve message field tag = .ok t) ↔ ∃ t, ofTag? tag = some t := by
  unfold resolve
  cases ofTag? tag with
  | none => simp
  | some t => simp

/-- The parts are resolved one after the other, which is the order of the declaration. -/
theorem wireOrder_eq_error_iff_resolveFields {e : SchemaError} :
    wireOrder message fields start sorted = .error e ↔
      resolveFields message fields.zipIdx = .error e := by
  have hparts : resolveFields message fields.zipIdx = (do
      let base ← resolveFields message (fields.zipIdx.take (splitIndex start fields.length))
      let extension ← resolveFields message (fields.zipIdx.drop (splitIndex start fields.length))
      return base ++ extension) := by
    conv => lhs; rw [← List.take_append_drop (splitIndex start fields.length) fields.zipIdx]
    exact List.mapM_append
  rw [hparts, wireOrder, bind_eq_error_iff, bind_eq_error_iff]
  refine or_congr_right (exists_congr fun base => and_congr_right fun _ => ?_)
  rw [bind_pure_eq_error_iff]
  cases sorted with
  | true => exact bind_pure_eq_error_iff
  | false => exact bind_pure_eq_error_iff

/-- Fields have no wire order exactly if one of them has a type that does not exist, and the first
of those is at fault. -/
theorem wireOrder_eq_error_iff {e : SchemaError} :
    wireOrder message fields start sorted = .error e ↔
      ∃ before f after, fields = before ++ f :: after ∧
        (∀ g ∈ before, ∃ t, ScalarType.ofTag? g.tag = some t) ∧
        ScalarType.ofTag? f.tag = none ∧ e = .unknownType message f.name f.tag := by
  rw [wireOrder_eq_error_iff_resolveFields, resolveFields, mapM_eq_error_iff]
  simp only [exists_bind_pure_iff, bind_pure_eq_error_iff, ScalarType.exists_resolve_iff,
    ScalarType.resolve_eq_error_iff]
  constructor
  · rintro ⟨before, x, after, hfields, hbefore, hx⟩
    have hfst := congrArg (List.map Prod.fst) hfields
    rw [List.zipIdx_map_fst, List.map_append, List.map_cons] at hfst
    refine ⟨_, x.1, _, hfst, fun g hg => ?_, hx⟩
    obtain ⟨y, hy, rfl⟩ := List.mem_map.1 hg
    exact hbefore y hy
  · rintro ⟨before, f, after, rfl, hbefore, hf⟩
    refine ⟨before.zipIdx, (f, before.length), after.zipIdx (before.length + 1), ?_,
      fun y hy => ?_, hf⟩
    · rw [List.zipIdx_append, List.zipIdx_cons, Nat.zero_add]
    · exact hbefore y.1 (List.fst_mem_of_mem_zipIdx hy)

/-- Fields have a wire order exactly if all their types exist. -/
theorem exists_wireOrder_iff :
    (∃ order, wireOrder message fields start sorted = .ok order) ↔
      ∀ f ∈ fields, ∃ t, ScalarType.ofTag? f.tag = some t := by
  constructor
  · rintro ⟨order, h⟩ f hf
    have hstable := stable_of_wireOrder h
    obtain ⟨i, hi⟩ := List.mem_iff_getElem?.1 hf
    have hindex : i ∈ order.all.map (·.index) := by
      rw [hstable.once.mem_iff, List.mem_range]
      exact (List.getElem?_eq_some_iff.1 hi).1
    obtain ⟨o, ho, rfl⟩ := List.mem_map.1 hindex
    obtain ⟨hfield, htype⟩ := hstable.stands o ho
    cases hfield.symm.trans hi
    exact ⟨o.type, htype⟩
  · intro h
    cases hw : wireOrder message fields start sorted with
    | ok order => exact ⟨order, rfl⟩
    | error e =>
      obtain ⟨before, f, after, rfl, -, hnone, -⟩ := wireOrder_eq_error_iff.1 hw
      obtain ⟨t, ht⟩ := h f (by simp)
      rw [hnone] at ht
      cases ht

end WireOrder

/-! ## Declarations that change places -/

/-- The width of a field's elements, if its type exists. -/
def Field.width? (f : Field) : Option Nat := (ScalarType.ofTag? f.tag).map (·.width)

/-- The same declarations in another order, `σ i` being the former place of what is now at `i`. None
leaves its part, and those of one width keep their order. -/
structure Shuffles (σ : Equiv.Perm Nat) (split : Nat) (fields fields' : List Field) : Prop where
  length : fields'.length = fields.length
  moved : ∀ i, fields'[i]? = fields[σ i]?
  parts : ∀ i, σ i < split ↔ i < split
  ties : ∀ i j f g, i < j → fields'[i]? = some f → fields'[j]? = some g → f.width? = g.width? →
    σ i < σ j

/-- An entry that goes by the former place of its field. -/
def OrderedField.renumber (σ : Equiv.Perm Nat) (o : OrderedField) : OrderedField :=
  { o with index := σ o.index }

/-- An order whose entries go by the former places of their fields. -/
def WireOrder.renumber (σ : Equiv.Perm Nat) (order : WireOrder) : WireOrder :=
  ⟨order.base.map (·.renumber σ), order.extension.map (·.renumber σ)⟩

theorem WireOrder.all_renumber (σ : Equiv.Perm Nat) (order : WireOrder) :
    (order.renumber σ).all = order.all.map (·.renumber σ) := by
  simp [all, renumber]

namespace Shuffles

variable {σ : Equiv.Perm Nat} {split : Nat} {fields fields' : List Field}

theorem lt_length_iff (h : Shuffles σ split fields fields') (i : Nat) :
    σ i < fields.length ↔ i < fields.length := by
  have hmoved := h.moved i
  rw [← h.length]
  by_cases hi : i < fields'.length
  · rw [List.getElem?_eq_getElem hi, eq_comm, List.getElem?_eq_some_iff] at hmoved
    have hlt := hmoved.1
    rw [← h.length] at hlt
    simp [hi, hlt]
  · rw [List.getElem?_eq_none (by omega), eq_comm, List.getElem?_eq_none_iff] at hmoved
    have hlen := h.length
    omega

theorem map_range_perm (h : Shuffles σ split fields fields') :
    ((List.range fields.length).map σ).Perm (List.range fields.length) := by
  rw [List.perm_ext_iff_of_nodup (List.nodup_range.map σ.injective) List.nodup_range]
  intro i
  rw [List.mem_map, List.mem_range]
  constructor
  · rintro ⟨j, hj, rfl⟩
    exact (h.lt_length_iff j).2 (List.mem_range.1 hj)
  · intro hi
    refine ⟨σ.symm i, ?_, σ.apply_symm_apply i⟩
    rw [List.mem_range, ← h.lt_length_iff, σ.apply_symm_apply]
    exact hi

/-- The order of shuffled fields is, by their former places, a stable order of these. -/
theorem stable_renumber (h : Shuffles σ split fields fields') {order : WireOrder}
    (horder : order.Stable fields' split true) :
    (order.renumber σ).Stable fields split true := by
  -- Entries that precede each other still do: ties are those of the shuffled fields.
  have hparts : ∀ part ∈ [(order.renumber σ).base, (order.renumber σ).extension],
      part.Pairwise (OrderedField.Precedes true) := by
    have hpart : ∀ part ∈ [order.base, order.extension], part ⊆ order.all →
        (part.map (·.renumber σ)).Pairwise (OrderedField.Precedes true) := by
      intro part hpart hsub
      rw [List.pairwise_map]
      refine (horder.pairwise part hpart).imp_of_mem fun {a b} ha hb hab => ?_
      by_cases hwidth : a.type.width = b.type.width
      · obtain ⟨hfa, hta⟩ := horder.stands a (hsub ha)
        obtain ⟨hfb, htb⟩ := horder.stands b (hsub hb)
        refine .inr ⟨fun _ => hwidth, h.ties _ _ _ _ (hab.index_lt hwidth) hfa hfb ?_⟩
        simp [Field.width?, hta, htb, hwidth]
      · exact .inl ⟨rfl, Nat.lt_of_le_of_ne hab.width_le (Ne.symm hwidth)⟩
    simpa [WireOrder.renumber] using ⟨hpart order.base (by simp) (List.subset_append_left _ _),
      hpart order.extension (by simp) (List.subset_append_right _ _)⟩
  constructor
  case once =>
    have hindex : (order.renumber σ).all.map (·.index) = (order.all.map (·.index)).map σ := by
      rw [WireOrder.all_renumber, List.map_map, List.map_map]
      rfl
    have honce := horder.once.map σ
    rw [h.length] at honce
    rw [hindex]
    exact honce.trans h.map_range_perm
  case base =>
    intro _ ho
    obtain ⟨o, hmem, rfl⟩ := List.mem_map.1 ho
    exact (h.parts o.index).2 (horder.base o hmem)
  case extension =>
    intro _ ho
    obtain ⟨o, hmem, rfl⟩ := List.mem_map.1 ho
    have hle := horder.extension o hmem
    exact Nat.le_of_not_lt fun hlt => absurd ((h.parts o.index).1 hlt) (Nat.not_lt.2 hle)
  case stands =>
    intro _ ho
    rw [WireOrder.all_renumber] at ho
    obtain ⟨o, hmem, rfl⟩ := List.mem_map.1 ho
    obtain ⟨hfield, htype⟩ := horder.stands o hmem
    rw [h.moved] at hfield
    exact ⟨hfield, htype⟩
  case declared => exact fun hsorted => by cases hsorted
  case widest => exact fun _ part hpart => (hparts part hpart).imp OrderedField.Precedes.width_le
  case ties => exact fun _ part hpart => (hparts part hpart).imp OrderedField.Precedes.index_lt

/-- Shuffled fields have the same wire order. -/
theorem wireOrder_eq (h : Shuffles σ split fields fields') {message : String}
    {start : Option Nat} (hsplit : split = splitIndex start fields.length) {order : WireOrder}
    (horder : wireOrder message fields start true = .ok order) :
    ∃ order', wireOrder message fields' start true = .ok order' ∧ order = order'.renumber σ := by
  have htypes := exists_wireOrder_iff.1 ⟨order, horder⟩
  obtain ⟨order', horder'⟩ : ∃ order', wireOrder message fields' start true = .ok order' := by
    refine exists_wireOrder_iff.2 fun f hf => ?_
    obtain ⟨i, hi⟩ := List.mem_iff_getElem?.1 hf
    rw [h.moved] at hi
    exact htypes f (List.mem_of_getElem? hi)
  have hstable' := stable_of_wireOrder horder'
  rw [h.length, ← hsplit] at hstable'
  have hstable := stable_of_wireOrder horder
  rw [← hsplit] at hstable
  exact ⟨order', horder', hstable.unique (h.stable_renumber hstable')⟩

end Shuffles

/-- **The wire order is the one stable order of the fields.** Fields whose types all exist have a
wire order. It holds each field once, with its type, and the base before the extensions. Unsorted,
the fields come as they were declared; sorted, in either part the widest elements come first, and
fields of one width as they were declared. No other order is like this. If a type does not exist,
the fault is that of the first field with such a type. And sorted fields come on the wire in the
same order of names and types if the declarations change places, as long as none leaves its part
and those of one width keep their order. -/
theorem wireOrder_sorts (message : String) (fields : List Field) (start : Option Nat)
    (sorted : Bool) :
    let split := min (start.getD fields.length) fields.length
    ((∀ f ∈ fields, ∃ t, ScalarType.ofTag? f.tag = some t) →
      ∃ order, wireOrder message fields start sorted = .ok order ∧
        order.Stable fields split sorted ∧
        ∀ order' : WireOrder, order'.Stable fields split sorted → order' = order) ∧
    (∀ before f after, fields = before ++ f :: after →
      (∀ g ∈ before, ∃ t, ScalarType.ofTag? g.tag = some t) → ScalarType.ofTag? f.tag = none →
      wireOrder message fields start sorted = .error (.unknownType message f.name f.tag)) ∧
    ∀ (σ : Equiv.Perm Nat) (fields' : List Field), Shuffles σ split fields fields' →
      ∀ order, wireOrder message fields start true = .ok order →
        ∃ order', wireOrder message fields' start true = .ok order' ∧
          order'.base.map (fun o => (o.type, o.field.name)) =
            order.base.map (fun o => (o.type, o.field.name)) ∧
          order'.extension.map (fun o => (o.type, o.field.name)) =
            order.extension.map (fun o => (o.type, o.field.name)) := by
  intro split
  refine ⟨fun htypes => ?_, fun before f after hfields hbefore hf => ?_,
    fun σ fields' hshuffle order horder => ?_⟩
  · obtain ⟨order, horder⟩ := exists_wireOrder_iff.2 htypes
    have hstable := stable_of_wireOrder horder
    exact ⟨order, horder, hstable, fun order' hstable' => hstable'.unique hstable⟩
  · exact wireOrder_eq_error_iff.2 ⟨before, f, after, hfields, hbefore, hf, rfl⟩
  · obtain ⟨order', horder', rfl⟩ := hshuffle.wireOrder_eq rfl horder
    refine ⟨order', horder', ?_, ?_⟩
    · simp [WireOrder.renumber, OrderedField.renumber, Function.comp_def]
    · simp [WireOrder.renumber, OrderedField.renumber, Function.comp_def]

/-- Fields of three widths, two of them extensions. -/
def Field.beacon : List Field :=
  [⟨"mode", "uint8_t", 0, none⟩, ⟨"uptime", "uint32_t", 0, none⟩, ⟨"kind", "uint8_t", 0, none⟩,
    ⟨"flags", "uint16_t", 0, none⟩, ⟨"seed", "uint32_t", 0, none⟩]

/-- The same fields with the first two of them the other way round. -/
def Field.beaconSwapped : List Field :=
  [⟨"uptime", "uint32_t", 0, none⟩, ⟨"mode", "uint8_t", 0, none⟩, ⟨"kind", "uint8_t", 0, none⟩,
    ⟨"flags", "uint16_t", 0, none⟩, ⟨"seed", "uint32_t", 0, none⟩]

theorem Field.beacon_shuffles : Shuffles (Equiv.swap 0 1) 3 Field.beacon Field.beaconSwapped := by
  have hfixed (i : Nat) : Equiv.swap 0 1 (i + 2) = i + 2 :=
    Equiv.swap_apply_of_ne_of_ne (by omega) (by omega)
  constructor
  case length => rfl
  case moved =>
    intro i
    rcases i with _ | _ | i
    · rfl
    · rfl
    · rw [hfixed]
      rfl
  case parts =>
    intro i
    rcases i with _ | _ | i
    · decide
    · decide
    · rw [hfixed]
  case ties =>
    intro i j f g hij hf hg hwidth
    have hsmall (i : Nat) (hi : i < 2) : Equiv.swap 0 1 i < 2 := by
      obtain rfl | rfl : i = 0 ∨ i = 1 := by omega
      · decide
      · decide
    rcases j with _ | _ | j
    · omega
    · obtain rfl : i = 0 := by omega
      cases hf
      cases hg
      exact absurd hwidth (by decide +kernel)
    · rw [hfixed]
      by_cases hi : i < 2
      · exact Nat.lt_of_lt_of_le (hsmall i hi) (Nat.le_add_left 2 j)
      · obtain ⟨k, rfl⟩ : ∃ k, i = k + 2 := ⟨i - 2, by omega⟩
        rw [hfixed]
        exact hij

/-- The wide extension stays behind the base, and a field of an unknown type is at fault though a
later one has an unknown type, too. -/
theorem wireOrder_sorts_beacon :
    (∃ order, wireOrder "BEACON" Field.beacon (some 3) true = .ok order ∧
      order.all.map (·.index) = [1, 0, 2, 4, 3] ∧ order.Stable Field.beacon 3 true) ∧
    (∃ order, wireOrder "BEACON" Field.beaconSwapped (some 3) true = .ok order ∧
      order.base.map (fun o => (o.type, o.field.name)) =
        [(.integer .u32, "uptime"), (.integer .u8, "mode"), (.integer .u8, "kind")]) ∧
    wireOrder "BEACON" [⟨"mode", "uint8_t", 0, none⟩, ⟨"a", "int9_t", 0, none⟩,
      ⟨"b", "int7_t", 0, none⟩] none true = .error (.unknownType "BEACON" "a" "int9_t") := by
  obtain ⟨hsorts, -, hshuffle⟩ := wireOrder_sorts "BEACON" Field.beacon (some 3) true
  have htypes : ∀ f ∈ Field.beacon, ∃ t, ScalarType.ofTag? f.tag = some t := by
    intro f hf
    exact Option.isSome_iff_exists.1 ((by decide +kernel : ∀ f ∈ Field.beacon,
      (ScalarType.ofTag? f.tag).isSome = true) f hf)
  obtain ⟨order, horder, hstable, -⟩ := hsorts htypes
  obtain ⟨order', horder', hbase, -⟩ := hshuffle _ _ Field.beacon_shuffles order horder
  cases horder
  refine ⟨⟨_, rfl, rfl, hstable⟩, ⟨order', horder', hbase⟩, ?_⟩
  refine (wireOrder_sorts "BEACON" _ none true).2.1 [_] _ [_] rfl ?_ ?_
  · intro g hg
    rw [List.mem_singleton.1 hg]
    exact ⟨.integer .u8, by decide +kernel⟩
  · decide +kernel

end Telemetry
