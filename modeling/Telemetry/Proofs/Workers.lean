import Telemetry.Proofs.Generation

/-!
# Work in parts

The messages of a dialect are split into parts with a worker for each. Workers go on side by side,
in whatever order, while the one who set them to work waits for them one after the other and
collects what they made. The units are the same as if one worker had made them all, and so is the
fault if there is one: that of the first message that fails, however late its worker gets there.

* `Worker`, `Crew`: workers and the one who collects, with the steps that each of them can make.
* `Worker.result_of_step`, `Crew.outcome_of_step`: what no step changes.
* `Crew.Ends`: all runs come to an end, with the same result. `Crew.ends_start` says with which.
* `Generator.parts`: how messages are split.
* `workers_agree`: the number of jobs does not matter, and neither does the order of the work.
-/

namespace Telemetry.Generate

variable {ε α β : Type}

/-! ## Workers -/

/-- A worker on a part of a list. -/
inductive Worker (ε α β : Type) where
  /-- It has made something of some members and has still to do the others. -/
  | working (made : List β) (todo : List α)
  /-- It is done with all of them, or has come to one that fails. -/
  | stopped (result : Except ε (List β))

namespace Worker

/-- The steps of a worker: it makes something of the next member, stops where this fails, and stops
when nothing is left. -/
inductive Step (f : α → Except ε β) : Worker ε α β → Worker ε α β → Prop where
  | make {made : List β} {todo : List α} {x : α} {y : β} (h : f x = .ok y) :
    Step f (working made (x :: todo)) (working (made ++ [y]) todo)
  | fail {made : List β} {todo : List α} {x : α} {e : ε} (h : f x = .error e) :
    Step f (working made (x :: todo)) (stopped (.error e))
  | finish {made : List β} : Step f (working made []) (stopped (.ok made))

/-- What comes of a worker's part in the end. -/
def result (f : α → Except ε β) : Worker ε α β → Except ε (List β)
  | working made todo => do return made ++ (← todo.mapM f)
  | stopped result => result

/-- An upper bound of the steps that are left with a worker, until it has been collected. -/
def left : Worker ε α β → Nat
  | working _ todo => todo.length + 2
  | stopped _ => 1

variable {f : α → Except ε β} {w w' : Worker ε α β}

theorem result_of_step (h : Step f w w') : w'.result f = w.result f := by
  cases h with
  | make h =>
    simp only [result, List.mapM_cons, h, bind_assoc, pure_bind, List.append_assoc,
      List.singleton_append]
    rfl
  | fail h =>
    simp only [result, List.mapM_cons, h]
    rfl
  | finish =>
    simp only [result, List.mapM_nil, pure_bind, List.append_nil]
    rfl

theorem left_of_step (h : Step f w w') : w'.left < w.left := by
  cases h with
  | make _ => simp only [left, List.length_cons]; omega
  | fail _ => simp only [left, List.length_cons]; omega
  | finish => simp only [left, List.length_nil]; omega

theorem exists_step (f : α → Except ε β) (made : List β) (todo : List α) :
    ∃ w', Step f (working made todo) w' := by
  cases todo with
  | nil => exact ⟨_, .finish⟩
  | cons x todo =>
    cases h : f x with
    | ok y => exact ⟨_, .make h⟩
    | error e => exact ⟨_, .fail h⟩

end Worker

/-! ## Crews -/

/-- Workers that were set to work, and the one who collects what they make. -/
structure Crew (ε α β : Type) where
  /-- What was collected so far. -/
  collected : Except ε (List β)
  /-- The workers that were not waited for yet, in the order of their parts. -/
  workers : List (Worker ε α β)

namespace Crew

/-- The steps of a crew: any worker goes on, or the first one has stopped and is collected. -/
inductive Step (f : α → Except ε β) : Crew ε α β → Crew ε α β → Prop where
  | work {collected : Except ε (List β)} {before after : List (Worker ε α β)} {w w' : Worker ε α β}
    (h : w.Step f w') : Step f ⟨collected, before ++ w :: after⟩ ⟨collected, before ++ w' :: after⟩
  | collect {collected result : Except ε (List β)} {rest : List (Worker ε α β)} :
    Step f ⟨collected, .stopped result :: rest⟩ ⟨do return (← collected) ++ (← result), rest⟩

/-- A worker for each part. -/
def start (parts : List (List α)) : Crew ε α β where
  collected := .ok []
  workers := parts.map (.working [])

/-- What is collected in the end. -/
def outcome (f : α → Except ε β) (c : Crew ε α β) : Except ε (List β) := do
  let units ← c.collected
  let parts ← c.workers.mapM (·.result f)
  return units ++ parts.flatten

/-- An upper bound of the steps that are left. -/
def left (c : Crew ε α β) : Nat := c.workers.foldr (fun w n => w.left + n) 0

variable {f : α → Except ε β} {c c' : Crew ε α β}

theorem outcome_of_step (h : Step f c c') : c'.outcome f = c.outcome f := by
  cases h with
  | work h => simp only [outcome, List.mapM_append, List.mapM_cons, Worker.result_of_step h]
  | @collect collected result rest =>
    have hresult : (Worker.stopped result : Worker ε α β).result f = result := rfl
    simp only [outcome, List.mapM_cons, hresult, bind_assoc, pure_bind, List.flatten_cons,
      List.append_assoc]

theorem left_workers (collected : Except ε (List β)) (before after : List (Worker ε α β))
    (w : Worker ε α β) :
    left ⟨collected, before ++ w :: after⟩ = w.left + left ⟨collected, before ++ after⟩ := by
  induction before with
  | nil => rfl
  | cons v before ih =>
    simp only [left, List.cons_append, List.foldr_cons] at ih ⊢
    omega

theorem left_of_step (h : Step f c c') : c'.left < c.left := by
  cases h with
  | work h =>
    have hlt := Worker.left_of_step h
    rw [left_workers, left_workers]
    omega
  | collect =>
    simp only [left, List.foldr_cons, Worker.left]
    omega

/-- A crew does not get stuck before all workers were collected. -/
theorem exists_step (f : α → Except ε β) (collected : Except ε (List β)) (w : Worker ε α β)
    (rest : List (Worker ε α β)) : ∃ c', Step f ⟨collected, w :: rest⟩ c' := by
  cases w with
  | working made todo =>
    obtain ⟨w', h⟩ := Worker.exists_step f made todo
    have hwork : Step f ⟨collected, [] ++ .working made todo :: rest⟩
        ⟨collected, [] ++ w' :: rest⟩ := .work h
    exact ⟨_, hwork⟩
  | stopped result => exact ⟨_, .collect⟩

/-- In whatever order the steps are made, the crew comes to an end, and has then collected
`result`. -/
inductive Ends (f : α → Except ε β) (result : Except ε (List β)) : Crew ε α β → Prop where
  | done : Ends f result ⟨result, []⟩
  | step {c : Crew ε α β} (hstep : ∃ c', Step f c c') (h : ∀ c', Step f c c' → Ends f result c') :
    Ends f result c

/-- All runs of a crew have the same end. -/
theorem ends_outcome (f : α → Except ε β) (c : Crew ε α β) : Ends f (c.outcome f) c := by
  -- No step changes the outcome, and each leaves less to do, so by induction on what is left.
  induction hn : c.left using Nat.strongRecOn generalizing c with
  | ind n ih =>
    obtain ⟨collected, workers⟩ := c
    cases workers with
    | nil =>
      have houtcome : outcome f ⟨collected, []⟩ = collected := by
        cases collected with
        | error e => rfl
        | ok units => exact congrArg Except.ok (List.append_nil units)
      rw [houtcome]
      exact .done
    | cons w rest =>
      refine .step (exists_step f collected w rest) fun c' hc' => ?_
      rw [← outcome_of_step hc']
      exact ih c'.left (hn ▸ left_of_step hc') c' rfl

theorem outcome_start (f : α → Except ε β) (parts : List (List α)) :
    (start parts).outcome f = parts.flatten.mapM f := by
  have hresult : (parts.map (Worker.working [])).mapM (Worker.result f) =
      parts.mapM fun part => part.mapM f := by
    induction parts with
    | nil => rfl
    | cons part parts ih =>
      simp only [List.map_cons, List.mapM_cons, ih, Worker.result, List.nil_append, bind_pure]
  rw [← Generator.mapM_flatten]
  simp only [outcome, start, hresult]
  rfl

/-- Whatever order workers take turns in, what they make together is what one alone would make. -/
theorem ends_start (f : α → Except ε β) (parts : List (List α)) :
    Ends f (parts.flatten.mapM f) (start parts) := by
  rw [← outcome_start]
  exact ends_outcome f _

end Crew

/-! ## Messages in parts -/

theorem length_stretches_le {size n : Nat} {xs : List α} (h : xs.length ≤ n * (size + 1)) :
    (stretches size xs).length ≤ n := by
  fun_induction stretches size xs generalizing n with
  | case1 => exact Nat.zero_le n
  | case2 x rest ih =>
    cases n with
    | zero => simp at h
    | succ n =>
      rw [Nat.succ_mul, List.length_cons] at h
      have hrest : (rest.drop size).length ≤ n * (size + 1) := by
        rw [List.length_drop]
        omega
      exact Nat.succ_le_succ (ih hrest)

namespace Generator

variable (g : Generator) (d : Dialect)

/-- The number of messages of a part: as many as it takes for `jobs` parts, rounded up. -/
def partSize : Nat := (d.messages.length + g.jobs - 1) / g.jobs

/-- The parts into which the messages of a dialect are split. -/
def parts : List (List Message) :=
  if g.jobs ≤ 1 ∨ d.messages.length < 2 then [d.messages]
  else stretches (g.partSize d - 1) d.messages

/-- The units are built part by part. -/
theorem buildUnits_eq_parts : g.buildUnits d =
    do return (← (g.parts d).mapM fun part => part.mapM (g.buildUnit d)).flatten := by
  unfold buildUnits parts
  by_cases h : g.jobs ≤ 1 ∨ d.messages.length < 2
  · simp only [if_pos h, List.mapM_cons, List.mapM_nil, bind_assoc, pure_bind, List.flatten_cons,
      List.flatten_nil, List.append_nil, bind_pure]
  · simp only [if_neg h, partSize]

/-- Each message is in one part, and the parts keep the order of the messages. -/
theorem flatten_parts : (g.parts d).flatten = d.messages := by
  unfold parts
  split
  · simp
  · exact flatten_stretches _ _

/-- There are messages in every part, and the parts have room for all messages. -/
theorem partSize_spec {g : Generator} {d : Dialect} (hjobs : 0 < g.jobs)
    (hmessages : 0 < d.messages.length) :
    0 < g.partSize d ∧ d.messages.length ≤ g.jobs * g.partSize d := by
  have hdiv := Nat.div_add_mod (d.messages.length + g.jobs - 1) g.jobs
  have hmod := Nat.mod_lt (d.messages.length + g.jobs - 1) hjobs
  have hroom : d.messages.length ≤ g.jobs * g.partSize d := by
    unfold partSize
    omega
  refine ⟨Nat.pos_of_ne_zero fun hzero => ?_, hroom⟩
  rw [hzero, Nat.mul_zero] at hroom
  omega

/-- There are no more parts than jobs. -/
theorem length_parts_le : (g.parts d).length ≤ max g.jobs 1 := by
  unfold parts
  split
  · exact Nat.le_max_right _ _
  · have hjobs : 0 < g.jobs := by omega
    obtain ⟨hpos, hroom⟩ := partSize_spec (g := g) (d := d) hjobs (by omega)
    refine Nat.le_trans (length_stretches_le ?_) (Nat.le_max_left _ _)
    rwa [Nat.sub_add_cancel hpos]

/-! ## Runs -/

section Runs

variable (jobs : Nat) (s : DialectSet)

theorem buildUnits_jobs : ({ g with jobs } : Generator).buildUnits d = g.buildUnits d := by
  rw [buildUnits_eq, buildUnits_eq]
  rfl

theorem assemble_jobs (name : String) :
    ({ g with jobs } : Generator).assemble s name = g.assemble s name := by
  unfold assemble
  simp only [buildUnits_jobs]

theorem run_jobs : ({ g with jobs } : Generator).run s = g.run s := by
  have hadd : ({ g with jobs } : Generator).addOutput s = g.addOutput s := by
    funext state d
    simp only [addOutput, assemble_jobs]
  unfold run
  rw [hadd]

end Runs

end Generator

/-- **The number of jobs does not matter.** For every dialect and every renderer, the units are
those of the messages one by one in the order of their declaration. If one of them fails, the fault
is that of the first one which does. The messages are split into parts that hold each of them once;
no part is without size, and there are no more parts than jobs. In whatever order the workers on the
parts take turns and get done, all of them come to an end, and these same units or this same fault
have then been collected. So a run for a set has the same result for every number of jobs. -/
theorem workers_agree (g : Generator) (d : Dialect) :
    g.buildUnits d = d.messages.mapM (g.buildUnit d) ∧
    (∀ units, g.buildUnits d = .ok units ↔
      List.Forall₂ (fun m u => g.buildUnit d m = .ok u) d.messages units) ∧
    (∀ e, g.buildUnits d = .error e ↔ ∃ before m after, d.messages = before ++ m :: after ∧
      (∀ m' ∈ before, ∃ u, g.buildUnit d m' = .ok u) ∧ g.buildUnit d m = .error e) ∧
    (g.parts d).flatten = d.messages ∧
    (0 < g.jobs → 0 < d.messages.length → 0 < g.partSize d) ∧
    (g.parts d).length ≤ max g.jobs 1 ∧
    Crew.Ends (g.buildUnit d) (g.buildUnits d) (Crew.start (g.parts d)) ∧
    ∀ (jobs : Nat) (s : DialectSet), ({ g with jobs } : Generator).run s = g.run s := by
  refine ⟨g.buildUnits_eq d, fun units => ?_, fun e => ?_, g.flatten_parts d,
    fun hjobs hmessages => (Generator.partSize_spec hjobs hmessages).1, g.length_parts_le d, ?_,
    g.run_jobs⟩
  · rw [g.buildUnits_eq, mapM_eq_ok_iff]
  · rw [g.buildUnits_eq, mapM_eq_error_iff]
  · rw [g.buildUnits_eq_parts, Generator.mapM_flatten]
    exact Crew.ends_start (g.buildUnit d) (g.parts d)

end Telemetry.Generate
