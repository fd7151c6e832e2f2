import Mathlib.Data.List.Forall2

/-!
# Steps that can fail

What is known of a row of steps when it ends without a fault.

* `bind_eq_ok_iff`: a step and what follows it.
* `mapM_eq_ok_iff`, `mapM_eq_error_iff`: the same step for each member of a list.
* `foldlM_preserves`: a state that steps change one after the other.
* `foldlM_found_eq_ok_iff`, `foldlM_lists_eq_ok_iff`: finding first, and the steps after that.
* `foldlM_perm`: steps that can change places.
* `Gathers`: steps that take members unless these clash with members taken before.
* `Alike`: two rows of steps that end in the same way.
-/

namespace Telemetry

variable {ε α β : Type}

theorem bind_eq_ok_iff {x : Except ε α} {f : α → Except ε β} {b : β} :
    (x >>= f) = .ok b ↔ ∃ a, x = .ok a ∧ f a = .ok b := by
  cases x with
  | error e => simp [bind, Except.bind]
  | ok a => simp [bind, Except.bind]

theorem bind_eq_error_iff {x : Except ε α} {f : α → Except ε β} {e : ε} :
    (x >>= f) = .error e ↔ x = .error e ∨ ∃ a, x = .ok a ∧ f a = .error e := by
  cases x with
  | error e' => simp [bind, Except.bind]
  | ok a => simp [bind, Except.bind]

/-- What only makes something else of a result has a result, or a fault, when that is there. -/
theorem exists_bind_pure_iff {x : Except ε α} {f : α → β} :
    (∃ b, (x >>= fun a => pure (f a)) = .ok b) ↔ ∃ a, x = .ok a := by
  cases x <;> simp [bind, Except.bind, pure, Except.pure]

theorem bind_pure_eq_error_iff {x : Except ε α} {f : α → β} {e : ε} :
    (x >>= fun a => pure (f a)) = .error e ↔ x = .error e := by
  cases x <;> simp [bind, Except.bind, pure, Except.pure]

@[simp] theorem mapError_eq_ok_iff {ε' : Type} {x : Except ε α} {f : ε → ε'} {a : α} :
    x.mapError f = .ok a ↔ x = .ok a := by
  cases x <;> simp [Except.mapError]

theorem mapError_eq_error_iff {ε' : Type} {x : Except ε α} {f : ε → ε'} {e' : ε'} :
    x.mapError f = .error e' ↔ ∃ e, x = .error e ∧ f e = e' := by
  cases x <;> simp [Except.mapError]

theorem toOption_eq_some_iff {x : Except ε α} {a : α} : x.toOption = some a ↔ x = .ok a := by
  cases x <;> simp [Except.toOption]

theorem eq_ok_of_toOption {x : Except ε α} {a : α} (h : x.toOption = some a) : x = .ok a :=
  toOption_eq_some_iff.1 h

/-- A result that shows something is there. -/
theorem exists_of_toOption_map {f : α → β} {x : Except ε α} {b : β}
    (h : x.toOption.map f = some b) : ∃ a, x = .ok a ∧ f a = b := by
  cases x with
  | error e => cases h
  | ok a => exact ⟨a, rfl, Option.some.inj h⟩

/-- A list of steps ends without a fault if each of them does, with their results in order. -/
theorem mapM_eq_ok_iff {f : α → Except ε β} {xs : List α} {ys : List β} :
    xs.mapM f = .ok ys ↔ List.Forall₂ (fun x y => f x = .ok y) xs ys := by
  induction xs generalizing ys with
  | nil => simp [pure, Except.pure, eq_comm]
  | cons x xs ih =>
    rw [List.mapM_cons, List.forall₂_cons_left_iff]
    constructor
    · intro h
      obtain ⟨y, hy, h⟩ := bind_eq_ok_iff.1 h
      obtain ⟨zs, hzs, h⟩ := bind_eq_ok_iff.1 h
      cases h
      exact ⟨y, zs, hy, ih.1 hzs, rfl⟩
    · rintro ⟨y, zs, hy, hzs, rfl⟩
      exact bind_eq_ok_iff.2 ⟨y, hy, bind_eq_ok_iff.2 ⟨zs, ih.2 hzs, rfl⟩⟩

theorem exists_mapM_eq_ok {f : α → Except ε β} {xs : List α} (h : ∀ x ∈ xs, ∃ y, f x = .ok y) :
    ∃ ys, xs.mapM f = .ok ys := by
  induction xs with
  | nil => exact ⟨[], rfl⟩
  | cons x xs ih =>
    obtain ⟨y, hy⟩ := h x List.mem_cons_self
    obtain ⟨ys, hys⟩ := ih fun z hz => h z (List.mem_cons_of_mem _ hz)
    exact ⟨y :: ys, mapM_eq_ok_iff.2 (.cons hy (mapM_eq_ok_iff.1 hys))⟩

theorem exists_of_mapM_left {f : α → Except ε β} {xs : List α} {ys : List β}
    (h : xs.mapM f = .ok ys) {x : α} (hx : x ∈ xs) : ∃ y ∈ ys, f x = .ok y := by
  rw [mapM_eq_ok_iff] at h
  induction h with
  | nil => cases hx
  | cons hy _ ih =>
    rcases List.mem_cons.1 hx with rfl | hx
    · exact ⟨_, List.mem_cons_self, hy⟩
    · obtain ⟨y, hmem, hy⟩ := ih hx
      exact ⟨y, List.mem_cons_of_mem _ hmem, hy⟩

theorem exists_of_mapM_right {f : α → Except ε β} {xs : List α} {ys : List β}
    (h : xs.mapM f = .ok ys) {y : β} (hy : y ∈ ys) : ∃ x ∈ xs, f x = .ok y := by
  rw [mapM_eq_ok_iff] at h
  induction h with
  | nil => cases hy
  | cons hx _ ih =>
    rcases List.mem_cons.1 hy with rfl | hy
    · exact ⟨_, List.mem_cons_self, hx⟩
    · obtain ⟨x, hmem, hx⟩ := ih hy
      exact ⟨x, List.mem_cons_of_mem _ hmem, hx⟩

theorem exists_mapM_iff {f : α → Except ε β} {xs : List α} :
    (∃ ys, xs.mapM f = .ok ys) ↔ ∀ x ∈ xs, ∃ y, f x = .ok y := by
  refine ⟨fun ⟨ys, hys⟩ x hx => ?_, exists_mapM_eq_ok⟩
  obtain ⟨y, -, hy⟩ := exists_of_mapM_left hys hx
  exact ⟨y, hy⟩

/-- The fault of a list of steps is that of the first which has one. -/
theorem mapM_eq_error_iff {f : α → Except ε β} {xs : List α} {e : ε} :
    xs.mapM f = .error e ↔ ∃ before x after, xs = before ++ x :: after ∧
      (∀ y ∈ before, ∃ z, f y = .ok z) ∧ f x = .error e := by
  constructor
  · intro h
    induction xs with
    | nil => cases h
    | cons x xs ih =>
      rw [List.mapM_cons] at h
      rcases bind_eq_error_iff.1 h with h | ⟨y, hy, h⟩
      · exact ⟨[], x, xs, rfl, List.forall_mem_nil _, h⟩
      · rcases bind_eq_error_iff.1 h with h | ⟨ys, -, h⟩
        · obtain ⟨before, x', after, rfl, hbefore, hx'⟩ := ih h
          exact ⟨x :: before, x', after, rfl, List.forall_mem_cons.2 ⟨⟨y, hy⟩, hbefore⟩, hx'⟩
        · cases h
  · rintro ⟨before, x, after, rfl, hbefore, hx⟩
    obtain ⟨ys, hys⟩ := exists_mapM_eq_ok hbefore
    rw [List.mapM_append, hys, List.mapM_cons, hx]
    rfl

theorem mapM_congr {f g : α → Except ε β} {xs : List α} (h : ∀ x ∈ xs, f x = g x) :
    xs.mapM f = xs.mapM g := by
  induction xs with
  | nil => rfl
  | cons x xs ih =>
    rw [List.mapM_cons, List.mapM_cons, h x List.mem_cons_self,
      ih fun y hy => h y (List.mem_cons_of_mem _ hy)]

/-- What each step keeps, all of them keep. -/
theorem foldlM_preserves {f : β → α → Except ε β} (P : β → Prop) {xs : List α} {b b' : β}
    (hb : P b) (hstep : ∀ x ∈ xs, ∀ c c', P c → f c x = .ok c' → P c')
    (h : xs.foldlM f b = .ok b') : P b' := by
  induction xs generalizing b with
  | nil =>
    cases h
    exact hb
  | cons x xs ih =>
    rw [List.foldlM_cons] at h
    obtain ⟨c, hc, h⟩ := bind_eq_ok_iff.1 h
    exact ih (hstep x List.mem_cons_self b c hb hc)
      (fun y hy => hstep y (List.mem_cons_of_mem _ hy)) h

theorem exists_of_foldlM {f : β → α → Except ε β} {xs : List α} {b b' : β}
    (h : xs.foldlM f b = .ok b') {x : α} (hx : x ∈ xs) : ∃ c c', f c x = .ok c' := by
  induction xs generalizing b with
  | nil => cases hx
  | cons y xs ih =>
    rw [List.foldlM_cons] at h
    obtain ⟨c, hc, h⟩ := bind_eq_ok_iff.1 h
    rcases List.mem_cons.1 hx with rfl | hx
    · exact ⟨b, c, hc⟩
    · exact ih h hx

/-- A fault is that of one of the steps. -/
theorem exists_of_foldlM_error {f : β → α → Except ε β} {xs : List α} {b : β} {e : ε}
    (h : xs.foldlM f b = .error e) : ∃ x ∈ xs, ∃ c, f c x = .error e := by
  induction xs generalizing b with
  | nil => cases h
  | cons x xs ih =>
    rw [List.foldlM_cons] at h
    rcases bind_eq_error_iff.1 h with h | ⟨c, -, h⟩
    · exact ⟨x, List.mem_cons_self, b, h⟩
    · obtain ⟨y, hy, hfault⟩ := ih h
      exact ⟨y, List.mem_cons_of_mem x hy, hfault⟩

/-- Steps of which any two can change places can be made in any order. -/
theorem foldlM_perm {f : β → α → Except ε β}
    (hcomm : ∀ x y b c d, f b x = .ok c → f c y = .ok d → ∃ c', f b y = .ok c' ∧ f c' x = .ok d)
    {xs ys : List α} (hperm : xs.Perm ys) {b b' : β} (h : xs.foldlM f b = .ok b') :
    ys.foldlM f b = .ok b' := by
  induction hperm generalizing b with
  | nil => exact h
  | cons x _ ih =>
    rw [List.foldlM_cons] at h ⊢
    obtain ⟨c, hc, h⟩ := bind_eq_ok_iff.1 h
    exact bind_eq_ok_iff.2 ⟨c, hc, ih h⟩
  | swap x y xs =>
    simp only [List.foldlM_cons] at h ⊢
    obtain ⟨c, hc, h⟩ := bind_eq_ok_iff.1 h
    obtain ⟨d, hd, h⟩ := bind_eq_ok_iff.1 h
    obtain ⟨c', hc', hd'⟩ := hcomm y x b c d hc hd
    exact bind_eq_ok_iff.2 ⟨c', hc', bind_eq_ok_iff.2 ⟨d, hd', h⟩⟩
  | trans _ _ ih ih' => exact ih' (ih h)

/-- Steps for members that have to be found first. -/
theorem foldlM_found_eq_ok_iff {γ : Type} {find : α → Except ε γ} {f : β → γ → Except ε β}
    {xs : List α} {b b' : β} :
    xs.foldlM (fun b x => do f b (← find x)) b = .ok b' ↔
      ∃ ys, xs.mapM find = .ok ys ∧ ys.foldlM f b = .ok b' := by
  induction xs generalizing b with
  | nil => simp [pure, Except.pure]
  | cons x xs ih =>
    rw [List.foldlM_cons, List.mapM_cons]
    constructor
    · intro h
      obtain ⟨c, hc, h⟩ := bind_eq_ok_iff.1 h
      obtain ⟨y, hy, hc⟩ := bind_eq_ok_iff.1 hc
      obtain ⟨ys, hys, h⟩ := ih.1 h
      exact ⟨y :: ys, bind_eq_ok_iff.2 ⟨y, hy, bind_eq_ok_iff.2 ⟨ys, hys, rfl⟩⟩,
        bind_eq_ok_iff.2 ⟨c, hc, h⟩⟩
    · rintro ⟨zs, hzs, h⟩
      obtain ⟨y, hy, hzs⟩ := bind_eq_ok_iff.1 hzs
      obtain ⟨ys, hys, hzs⟩ := bind_eq_ok_iff.1 hzs
      cases hzs
      obtain ⟨c, hc, h⟩ := bind_eq_ok_iff.1 h
      exact bind_eq_ok_iff.2 ⟨c, bind_eq_ok_iff.2 ⟨y, hy, hc⟩, ih.2 ⟨ys, hys, h⟩⟩

theorem foldlM_flatten {γ : Type} (f : β → γ → Except ε β) (yss : List (List γ)) (b : β) :
    yss.flatten.foldlM f b = yss.foldlM (fun b ys => ys.foldlM f b) b := by
  induction yss generalizing b with
  | nil => rfl
  | cons ys yss ih =>
    rw [List.flatten_cons, List.foldlM_append, List.foldlM_cons]
    exact bind_congr ih

/-- Steps for lists that have to be found first, and steps for all their members. -/
theorem foldlM_lists_eq_ok_iff {γ : Type} {find : α → Except ε (List γ)} {f : β → γ → Except ε β}
    {xs : List α} {b b' : β} :
    xs.foldlM (fun b x => do (← find x).foldlM f b) b = .ok b' ↔
      ∃ yss, xs.mapM find = .ok yss ∧ yss.flatten.foldlM f b = .ok b' := by
  simp only [foldlM_flatten]
  exact foldlM_found_eq_ok_iff

/-! ## Steps that gather members -/

/-- Each step takes a member, unless it clashes with one that was taken before. `Holds` says of a
state which members were taken. -/
structure Gathers (f : β → α → Except ε β) (clashes : α → α → Prop) (Holds : β → List α → Prop) :
    Prop where
  exists_iff {b : β} {xs : List α} {x : α} (h : Holds b xs) :
    (∃ b', f b x = .ok b') ↔ ∀ y ∈ xs, ¬ clashes y x
  holds {b b' : β} {xs : List α} {x : α} (h : Holds b xs) (hx : f b x = .ok b') :
    Holds b' (xs ++ [x])

namespace Gathers

variable {f : β → α → Except ε β} {clashes : α → α → Prop} {Holds : β → List α → Prop}
  {b b' : β} {xs ys : List α}

theorem foldlM (hf : Gathers f clashes Holds) (h : Holds b xs) (hys : ys.foldlM f b = .ok b') :
    Holds b' (xs ++ ys) := by
  induction ys generalizing b xs with
  | nil =>
    cases hys
    rwa [List.append_nil]
  | cons y ys ih =>
    rw [List.foldlM_cons] at hys
    obtain ⟨c, hc, hys⟩ := bind_eq_ok_iff.1 hys
    rw [List.append_cons]
    exact ih (hf.holds h hc) hys

/-- All members of a list are taken if no two of them clash, and none with one taken before. -/
theorem exists_foldlM_iff (hf : Gathers f clashes Holds) (h : Holds b xs) :
    (∃ b', ys.foldlM f b = .ok b') ↔
      ys.Pairwise (fun y y' => ¬ clashes y y') ∧ ∀ x ∈ xs, ∀ y ∈ ys, ¬ clashes x y := by
  induction ys generalizing b xs with
  | nil => simp [pure, Except.pure]
  | cons y ys ih =>
    rw [List.pairwise_cons, List.foldlM_cons]
    constructor
    · rintro ⟨b', hys⟩
      obtain ⟨c, hc, hys⟩ := bind_eq_ok_iff.1 hys
      have hy := (hf.exists_iff h).1 ⟨c, hc⟩
      obtain ⟨hpairs, hothers⟩ := (ih (hf.holds h hc)).1 ⟨b', hys⟩
      refine ⟨⟨fun y' hy' => hothers y (by simp) y' hy', hpairs⟩, fun x hx z hz => ?_⟩
      rcases List.mem_cons.1 hz with rfl | hz
      · exact hy x hx
      · exact hothers x (List.mem_append_left _ hx) z hz
    · rintro ⟨⟨hfirst, hpairs⟩, hothers⟩
      obtain ⟨c, hc⟩ := (hf.exists_iff h).2 fun x hx => hothers x hx y List.mem_cons_self
      have hrest : ∀ x ∈ xs ++ [y], ∀ z ∈ ys, ¬ clashes x z := by
        intro x hx z hz
        rcases List.mem_append.1 hx with hx | hx
        · exact hothers x hx z (List.mem_cons_of_mem y hz)
        · rw [List.mem_singleton.1 hx]
          exact hfirst z hz
      obtain ⟨b', hys⟩ := (ih (hf.holds h hc)).2 ⟨hpairs, hrest⟩
      exact ⟨b', bind_eq_ok_iff.2 ⟨c, hc, hys⟩⟩

end Gathers

/-- No two members agree in one of two respects. -/
theorem pairwise_differ_iff {α β γ : Type} {f : α → β} {g : α → γ} {xs : List α} :
    xs.Pairwise (fun x y => ¬ (f x = f y ∨ g x = g y)) ↔ (xs.map f).Nodup ∧ (xs.map g).Nodup := by
  simp only [List.Nodup, List.pairwise_map, not_or]
  exact List.pairwise_and_iff

/-! ## Steps that end in the same way -/

section Alike

variable {ε' α' β' : Type} {E : ε → ε' → Prop} {R : α → α' → Prop} {S : β → β' → Prop}

/-- Both computations have a result, or both a fault, and the two are related. -/
def Alike (E : ε → ε' → Prop) (R : α → α' → Prop) : Except ε α → Except ε' α' → Prop
  | .ok a, .ok a' => R a a'
  | .error e, .error e' => E e e'
  | _, _ => False

theorem Alike.mono {R' : α → α' → Prop} {x : Except ε α} {x' : Except ε' α'} (h : Alike E R x x')
    (hR : ∀ a a', R a a' → R' a a') : Alike E R' x x' := by
  cases x <;> cases x'
  case error.error => exact h
  case ok.ok => exact hR _ _ h
  all_goals exact h.elim

theorem Alike.bind {x : Except ε α} {x' : Except ε' α'} {f : α → Except ε β}
    {f' : α' → Except ε' β'} (h : Alike E R x x') (hf : ∀ a a', R a a' → Alike E S (f a) (f' a')) :
    Alike E S (x >>= f) (x' >>= f') := by
  cases x <;> cases x'
  case error.error => exact h
  case ok.ok => exact hf _ _ h
  all_goals exact h.elim

/-- The same step for the members of two lists that belong together. -/
theorem Alike.mapM {γ : Type} {p : β → γ} {p' : β' → γ} {f : α → Except ε β}
    {f' : α' → Except ε' β'} {g : α → α'} {xs : List α}
    (h : ∀ x ∈ xs, Alike E (fun y y' => p y = p' y') (f x) (f' (g x))) :
    Alike E (fun ys ys' => ys.map p = ys'.map p') (xs.mapM f) ((xs.map g).mapM f') := by
  induction xs with
  | nil => rfl
  | cons x xs ih =>
    rw [List.map_cons, List.mapM_cons, List.mapM_cons]
    refine (h x List.mem_cons_self).bind fun y y' hy => ?_
    refine (ih fun x hx => h x (List.mem_cons_of_mem _ hx)).bind fun ys ys' hys => ?_
    change (y :: ys).map p = (y' :: ys').map p'
    rw [List.map_cons, List.map_cons, hy, hys]

/-- Two states that steps for the members of two lists change. -/
theorem Alike.foldlM {f : β → α → Except ε β} {f' : β' → α' → Except ε' β'} {g : α → α'}
    {xs : List α} {b : β} {b' : β'} (hb : S b b')
    (h : ∀ x ∈ xs, ∀ b b', S b b' → Alike E S (f b x) (f' b' (g x))) :
    Alike E S (xs.foldlM f b) ((xs.map g).foldlM f' b') := by
  induction xs generalizing b b' with
  | nil => exact hb
  | cons x xs ih =>
    rw [List.map_cons, List.foldlM_cons, List.foldlM_cons]
    exact (h x List.mem_cons_self b b' hb).bind fun c c' hc =>
      ih hc fun x hx => h x (List.mem_cons_of_mem _ hx)

theorem alike_eq_iff {x y : Except ε α} : Alike Eq Eq x y ↔ x = y := by
  cases x <;> cases y <;> simp [Alike]

/-- The same step, and what follows it. -/
theorem Alike.bind_same {x : Except ε α} {f : α → Except ε β} {f' : α → Except ε β'}
    (h : ∀ a, Alike Eq S (f a) (f' a)) : Alike Eq S (x >>= f) (x >>= f') := by
  cases x with
  | error e => exact rfl
  | ok a => exact h a

theorem Alike.lift {δ : Type} {x : Except ε α} {x' : Except ε α'} (h : Alike Eq R x x')
    (f : ε → δ) : Alike Eq R (x.mapError f) (x'.mapError f) := by
  cases x <;> cases x'
  case error.error => exact congrArg f h
  case ok.ok => exact h
  all_goals exact h.elim

theorem Alike.map_eq {γ : Type} {p : α → γ} {p' : α' → γ} {x : Except ε α} {x' : Except ε α'}
    (h : Alike Eq (fun a a' => p a = p' a') x x') : x.map p = x'.map p' := by
  cases x <;> cases x'
  case error.error => exact congrArg _ h
  case ok.ok => exact congrArg _ h
  all_goals exact h.elim

theorem alike_ok_iff {x : Except ε α} {a' : α'} :
    Alike E R x (.ok a') ↔ ∃ a, x = .ok a ∧ R a a' := by
  cases x <;> simp [Alike]

theorem alike_error_iff {x : Except ε α} {e' : ε'} :
    Alike E R x (.error e') ↔ ∃ e, x = .error e ∧ E e e' := by
  cases x <;> simp [Alike]

theorem alike_mapError (f : ε' → ε) (x : Except ε' α) :
    Alike (fun e e' => e = f e') Eq (x.mapError f) x := by
  cases x <;> rfl

end Alike

end Telemetry
