import Walkthrough.Session.Render
import Walkthrough.Proofs.Session

/-!
# What a rendered request depends on

Of the results of a session, the request of a step depends on those of its sources alone, and
it can be rendered only when they are all completed.
-/

namespace Walkthrough

open Walkthrough.Checks

theorem Step.mem_sources_iff {d : Step} {x : String} :
    x ∈ d.sources ↔ ∃ r ∈ d.rules, ∃ name, r.reference = .field x name := by
  unfold Step.sources
  rw [List.mem_filterMap]
  refine exists_congr fun r => and_congr_right fun _ => ?_
  cases r.reference <;> simp [eq_comm]

/-- A template is filled alike when its rules have the same values. -/
theorem Template.render_congr {endpoint : String → Option String}
    {value other : Rule → Except RenderFault String} {rules : List Rule}
    (h : ∀ r ∈ rules, value r = other r) (template : Request) :
    Template.render endpoint value template rules =
      Template.render endpoint other template rules := by
  have same : (rules.mapM fun r => (value r).map fun v => (r, v)) =
      rules.mapM fun r => (other r).map fun v => (r, v) := by
    induction rules with
    | nil => rfl
    | cons r rules ih =>
      rw [List.mapM_cons, List.mapM_cons, h r List.mem_cons_self,
        ih fun r mem => h r (List.mem_cons_of_mem _ mem)]
  rw [Template.render, Template.render, same]

/-- A template can be filled only when every rule has a value. -/
theorem Template.exists_value_of_render {endpoint : String → Option String}
    {value : Rule → Except RenderFault String} {rules : List Rule} {template request : Request}
    (h : Template.render endpoint value template rules = .ok request) {r : Rule} (mem : r ∈ rules) :
    ∃ v, value r = .ok v := by
  obtain ⟨_, _, h⟩ := bind_ok_iff.mp h
  obtain ⟨values, resolved, _⟩ := bind_ok_iff.mp h
  obtain ⟨_, made⟩ := exists_mapM_ok_iff.mp ⟨_, resolved⟩ _ mem
  obtain ⟨v, found, _⟩ := map_ok_iff.mp made
  exact ⟨v, found⟩

namespace Session

variable {s t : Session} {id x : String} {d : Step} {r : StepResult} {request : Request}

/-- Two sessions that differ in results alone. -/
structure Alike (s t : Session) : Prop where
  flow : s.flow = t.flow
  serverUrl : s.serverUrl = t.serverUrl
  discovered : s.discovered = t.discovered
  vars : s.vars = t.vars

theorem Alike.refl (s : Session) : Alike s s :=
  ⟨rfl, rfl, rfl, rfl⟩

theorem Alike.symm (h : Alike s t) : Alike t s :=
  ⟨h.flow.symm, h.serverUrl.symm, h.discovered.symm, h.vars.symm⟩

theorem Alike.trans {u : Session} (first : Alike s t) (second : Alike t u) : Alike s u :=
  ⟨first.flow.trans second.flow, first.serverUrl.trans second.serverUrl,
    first.discovered.trans second.discovered, first.vars.trans second.vars⟩

theorem alike_store (s : Session) (id : String) (r : StepResult) : Alike s (s.store id r) :=
  ⟨rfl, rfl, rfl, rfl⟩

theorem alike_cleanse (s : Session) (id : String) : Alike s (s.cleanse id) :=
  ⟨rfl, rfl, rfl, rfl⟩

theorem Alike.endpointContext_eq (h : Alike s t) : s.endpointContext = t.endpointContext := by
  simp [endpointContext, h.flow, h.serverUrl, h.discovered, h.vars]

theorem resolve_congr {c : EndpointContext} {rule : Rule}
    (h : ∀ x name, rule.reference = .field x name → s.result? x = t.result? x) :
    s.resolve c rule = t.resolve c rule := by
  unfold resolve
  cases read : rule.reference with
  | setting name => rfl
  | field x name =>
    have same := h x name read
    simp [isCompleted_congr same, field?, same]

theorem render_of_template {template : Request} (found : s.flow.step? id = some d)
    (given : d.template = some template) :
    s.render id = .ok (Template.render s.endpointContext.endpoint? (s.resolve s.endpointContext)
      template d.rules) := by
  simp only [render, renderRequest, found, given]

theorem render_of_no_template (found : s.flow.step? id = some d) (given : d.template = none) :
    s.render id = .error (.noTemplate id) := by
  simp only [render, renderRequest, found, given]

/-- Sessions that agree on the sources of a step render it alike. -/
theorem render_congr (alike : Alike s t) (found : s.flow.step? id = some d)
    (h : ∀ x ∈ d.sources, s.result? x = t.result? x) : s.render id = t.render id := by
  have values : ∀ rule ∈ d.rules,
      s.resolve t.endpointContext rule = t.resolve t.endpointContext rule := fun rule mem =>
    resolve_congr fun x name read => h x (Step.mem_sources_iff.mpr ⟨rule, mem, name, read⟩)
  have again : t.flow.step? id = some d := alike.flow ▸ found
  cases given : d.template with
  | none => rw [render_of_no_template found given, render_of_no_template again given]
  | some template =>
    rw [render_of_template found given, render_of_template again given,
      alike.endpointContext_eq, Template.render_congr values template]

/-- What a step is rendered to is what its template is filled to. -/
theorem exists_template_of_render {outcome : Except RenderFault Request}
    (h : s.render id = .ok outcome) :
    ∃ d template, s.flow.step? id = some d ∧ d.template = some template ∧
      Template.render s.endpointContext.endpoint? (s.resolve s.endpointContext) template d.rules =
        outcome := by
  unfold render renderRequest at h
  split at h
  · cases h
  next d found =>
    split at h
    · cases h
    next template given => exact ⟨d, template, found, given, Except.ok.inj h⟩

/-- A step can be rendered only when all its sources are completed. -/
theorem isCompleted_of_render (h : s.render id = .ok (.ok request))
    (found : s.flow.step? id = some d) (reads : x ∈ d.sources) : s.isCompleted x = true := by
  obtain ⟨e, template, again, _, filled⟩ := exists_template_of_render h
  cases found.symm.trans again
  obtain ⟨rule, mem, name, read⟩ := Step.mem_sources_iff.mp reads
  obtain ⟨v, value⟩ := Template.exists_value_of_render filled mem
  by_contra incomplete
  rw [Bool.not_eq_true] at incomplete
  simp [resolve, read, incomplete] at value

/-- An automatic step is rendered or has a fault, but is never without a template. -/
theorem exists_render (found : s.flow.step? id = some d) (automatic : d.manual = false) :
    ∃ outcome, s.render id = .ok outcome := by
  unfold Step.manual at automatic
  cases given : d.template with
  | none => simp [given] at automatic
  | some template => exact ⟨_, render_of_template found given⟩

/-- Storing a result of a step that is not completed changes no request that can be rendered. -/
theorem render_store (incomplete : s.isCompleted id = false) (r : StepResult)
    (h : s.render x = .ok (.ok request)) : (s.store id r).render x = .ok (.ok request) := by
  obtain ⟨d, _, found, _, _⟩ := exists_template_of_render h
  rw [← h]
  -- The sources of what can be rendered are completed, and the stored step was not.
  refine (render_congr (alike_store s id r) found fun y reads => ?_).symm
  have apart := ne_of_isCompleted incomplete (isCompleted_of_render h found reads)
  rw [result?_store, if_neg apart]

/-- A restart changes no request of a step that it does not affect. -/
theorem render_cleanse (declared : id ∈ s.flow.order) (unaffected : ¬Consumes s.flow id x)
    (found : s.flow.step? x = some d) : (s.cleanse id).render x = s.render x := by
  -- Reading from a cleared step would be consuming it.
  refine (render_congr (alike_cleanse s id) found fun y reads => ?_).symm
  have link : Linked (consumers s.flow) y x := linked_consumers_iff.mpr
    ⟨d, Flow.mem_steps_of_step? found, Flow.id_of_step? found, Or.inr reads⟩
  exact (result?_cleanse_of_not declared fun affected => unaffected (affected.tail link)).symm

end Session

end Walkthrough
