import Telemetry.Proofs.Fingerprints
import Telemetry.Proofs.GeneratedCodec
import Telemetry.Proofs.TemplateText

/-!
# Generation is never stopped by a template

The templates of generated modules can be filled from all that they are filled from, and this is no
matter of how they are kept: as parts, or as texts that are read each time.

* `Renderer.fromText`: templates that are kept as texts.
* `Renders`: a module that comes out both ways, and as the same.
* `Generate.Unstopped`: a step of generation that is not stopped by a template. It is handed on from
  the parts of a step to the whole, up to `Generator.unstopped_run`.
* `generation_renders`: all modules, and all runs of generators.
-/

namespace Telemetry

/-- Reads a template from its text each time. -/
def Renderer.fromText : Renderer := fun template context => renderText template.print context

namespace Generate

/-! ## Templates that are kept as texts -/

/-- The templates of generated modules can be kept as texts. -/
theorem isReadable_of_mem : ∀ template ∈
    [messageTemplate, enumTemplate, dialectTemplate, framingTemplate, rootTemplate],
    template.isReadable = true :=
  List.all_eq_true.1 (by decide +kernel)

theorem emit_fromText {template : Template} (h : template.isReadable = true) (path : String)
    (context : Context) :
    emit Renderer.fromText path template context = emit Template.render path template context := by
  rw [emit, Renderer.fromText, renderText_print h, emit]

theorem emitMessage_fromText : emitMessage Renderer.fromText = emitMessage Template.render := by
  funext runtime dialect m plan
  exact emit_fromText (isReadable_of_mem _ (by simp)) _ _

theorem emitEnum_fromText : emitEnum Renderer.fromText = emitEnum Template.render := by
  funext dialect e
  exact emit_fromText (isReadable_of_mem _ (by simp)) _ _

theorem emitDialect_fromText : emitDialect Renderer.fromText = emitDialect Template.render := by
  funext runtime d rows
  exact emit_fromText (isReadable_of_mem _ (by simp)) _ _

theorem emitFraming_fromText : emitFraming Renderer.fromText = emitFraming Template.render := by
  funext runtime rows
  exact emit_fromText (isReadable_of_mem _ (by simp)) _ _

theorem emitRoot_fromText : emitRoot Renderer.fromText = emitRoot Template.render := by
  funext dialects
  exact emit_fromText (isReadable_of_mem _ (by simp)) _ _

/-- What is generated is the same both ways, faults included. -/
theorem Generator.run_fromText (runtime : String) (jobs : Nat) (s : DialectSet) :
    (⟨Renderer.fromText, runtime, jobs⟩ : Generator).run s =
      (⟨Template.render, runtime, jobs⟩ : Generator).run s := by
  have hunit : (⟨Renderer.fromText, runtime, jobs⟩ : Generator).buildUnit =
      (⟨Template.render, runtime, jobs⟩ : Generator).buildUnit := by
    funext d m
    rw [buildUnit, emitMessage_fromText, buildUnit]
  have houtput : (⟨Renderer.fromText, runtime, jobs⟩ : Generator).addOutput s =
      (⟨Template.render, runtime, jobs⟩ : Generator).addOutput s := by
    funext state d
    simp only [addOutput, assemble, buildUnits, hunit, emitEnum_fromText, emitDialect_fromText]
  simp only [run, houtput, emitFraming_fromText, emitRoot_fromText]

/-! ## Steps that are not stopped -/

/-- A step that is not stopped by a template, whatever else may be at fault. -/
def Unstopped {α : Type} (step : Except CompileError α) : Prop :=
  ∀ fault, step ≠ .error (.template fault)

namespace Unstopped

variable {α β : Type}

theorem ok (a : α) : Unstopped (.ok a) := fun _ h => by cases h

theorem lift (step : Except SchemaError α) : Unstopped (SchemaError.lift step) := by
  intro fault h
  simp [SchemaError.lift, mapError_eq_error_iff] at h

theorem liftTemplate {step : Except TemplateError α} (h : ∃ a, step = .ok a) :
    Unstopped (Generator.liftTemplate step) := by
  obtain ⟨a, rfl⟩ := h
  exact ok a

theorem bind {x : Except CompileError α} {f : α → Except CompileError β} (hx : Unstopped x)
    (hf : ∀ a, Unstopped (f a)) : Unstopped (x >>= f) := by
  intro fault h
  rcases bind_eq_error_iff.1 h with h | ⟨a, -, h⟩
  · exact hx fault h
  · exact hf a fault h

theorem mapM {f : α → Except CompileError β} (hf : ∀ a, Unstopped (f a)) (xs : List α) :
    Unstopped (xs.mapM f) := by
  intro fault h
  obtain ⟨-, x, -, -, -, h⟩ := mapM_eq_error_iff.1 h
  exact hf x fault h

theorem foldlM {f : β → α → Except CompileError β} (hf : ∀ b a, Unstopped (f b a)) (xs : List α)
    (b : β) : Unstopped (xs.foldlM f b) := by
  intro fault h
  obtain ⟨a, -, b, h⟩ := exists_of_foldlM_error h
  exact hf b a fault h

end Unstopped

namespace Generator

variable {g : Generator}

theorem unstopped_buildUnits (hg : g.render = Template.render) (d : Dialect) :
    Unstopped (g.buildUnits d) := by
  rw [buildUnits_eq]
  refine .mapM (fun m => ?_) d.messages
  rw [buildUnit, hg]
  refine .bind (.lift _) fun plan => ?_
  exact .bind (.liftTemplate (exists_emitMessage g.runtime d.name m plan)) fun _ => .ok _

theorem unstopped_assemble (hg : g.render = Template.render) (s : DialectSet) (name : String) :
    Unstopped (g.assemble s name) := by
  rw [assemble, hg]
  refine .bind (.lift _) fun closure => ?_
  cases s.get? name with
  | none => exact fun _ h => by cases h
  | some d =>
    refine .bind (.lift _) fun tables => .bind (unstopped_buildUnits hg d) fun units => ?_
    refine .bind (.lift _) fun _ => .bind (.liftTemplate ?_) fun enums => ?_
    · exact exists_mapM_eq_ok fun e _ => exists_emitEnum d.name e
    · exact .bind (.liftTemplate (exists_emitDialect g.runtime d _)) fun _ => .ok _

/-- A run is not stopped by a template. -/
theorem unstopped_run (hg : g.render = Template.render) (s : DialectSet) :
    Unstopped (g.run s) := by
  rw [run, hg]
  refine .bind (.foldlM (fun state d => ?_) s.dialects _) fun state => ?_
  · exact .bind (unstopped_assemble hg s d.name) fun _ => .bind (.lift _) fun _ => .ok _
  · refine .bind (.liftTemplate (exists_emitFraming g.runtime _)) fun framing => ?_
    exact .bind (.liftTemplate (exists_emitRoot _)) fun _ => .ok _

end Generator

/-! ## All modules -/

/-- A module that can be made, from a template that is kept as parts or as a text, and is the same
both ways. -/
def Renders (make : Renderer → Except TemplateError Emission) : Prop :=
  ∃ e, make Template.render = .ok e ∧ make Renderer.fromText = .ok e

theorem renders_of_eq {make : Renderer → Except TemplateError Emission}
    (h : ∃ e, make Template.render = .ok e)
    (heq : make Renderer.fromText = make Template.render) : Renders make := by
  obtain ⟨e, he⟩ := h
  exact ⟨e, he, heq.trans he⟩

theorem index_lt_of_mem {m : Message} {sorted : Bool} {plan : LayoutPlan}
    (hp : LayoutPlan.ofMessage m sorted = .ok plan) {s : Step} (hs : s ∈ plan.steps) :
    s.index < m.fields.length := by
  obtain ⟨f, hfield, -⟩ := exists_field_of_mem_steps hp hs
  simpa using List.snd_lt_of_mem_zipIdx hfield

end Generate

open Generate

/-- **Nothing that is generated fails for a template.** The module of each declared message can be
made with each of its plans, whose steps all have a field, and so can those of all enumerations,
dialects and tables. So a generator is never stopped by a template, however many parts it splits its
work into, and it generates the same if it reads its templates from their texts. -/
theorem generation_renders (runtime : String) :
    (∀ (dialect : String) (m : Message), m.Declared → ∀ sorted, ∃ plan,
      LayoutPlan.ofMessage m sorted = .ok plan ∧ (∀ s ∈ plan.steps, s.index < m.fields.length) ∧
      Renders fun render => emitMessage render runtime dialect m plan) ∧
    (∀ (dialect : String) (e : EnumDef), Renders fun render => emitEnum render dialect e) ∧
    (∀ (d : Dialect) (rows : List TableRow),
      Renders fun render => emitDialect render runtime d rows) ∧
    (∀ rows : List TableRow, Renders fun render => emitFraming render runtime rows) ∧
    (∀ dialects : List String, Renders fun render => emitRoot render dialects) ∧
    ∀ (jobs : Nat) (s : DialectSet),
      (∀ fault, (⟨Template.render, runtime, jobs⟩ : Generator).run s ≠ .error (.template fault)) ∧
      (⟨Renderer.fromText, runtime, jobs⟩ : Generator).run s =
        (⟨Template.render, runtime, jobs⟩ : Generator).run s := by
  refine ⟨fun dialect m hm sorted => ?_, fun dialect e => ?_, fun d rows => ?_, fun rows => ?_,
    fun dialects => ?_, fun jobs s => ?_⟩
  · obtain ⟨flags, hm⟩ := hm
    obtain ⟨plan, hplan⟩ := LayoutPlan.exists_ofMessage hm sorted
    refine ⟨plan, hplan, fun s => index_lt_of_mem hplan, ?_⟩
    exact renders_of_eq (exists_emitMessage _ _ _ _) (by rw [emitMessage_fromText])
  · exact renders_of_eq (exists_emitEnum _ _) (by rw [emitEnum_fromText])
  · exact renders_of_eq (exists_emitDialect _ _ _) (by rw [emitDialect_fromText])
  · exact renders_of_eq (exists_emitFraming _ _) (by rw [emitFraming_fromText])
  · exact renders_of_eq (exists_emitRoot _) (by rw [emitRoot_fromText])
  · exact ⟨Generator.unstopped_run rfl s, Generator.run_fromText runtime jobs s⟩

/-- The message has a text, a list and an extension. -/
theorem generation_renders_reading :
    Message.reading.Declared ∧
    ∃ plan, LayoutPlan.ofMessage Message.reading true = .ok plan ∧
      Renders fun render => emitMessage render "" "d" Message.reading plan := by
  have hreading : Message.reading.Declared := ⟨{}, by decide +kernel⟩
  obtain ⟨plan, hplan, -, hrenders⟩ := (generation_renders "").1 "d" _ hreading true
  exact ⟨hreading, plan, hplan, hrenders⟩

end Telemetry
