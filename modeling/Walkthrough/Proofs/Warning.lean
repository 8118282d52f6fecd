import Mathlib.Data.List.Induction
import Walkthrough.Proofs.Eligible
import Walkthrough.Proofs.Rendering

/-!
# What the warnings of a flow warn of

A rule reads too early when there is a state in which its step is eligible although the step that it
reads from is not completed (`Session.Premature`). A new session can be brought to a state in which
exactly the ancestors of a step are completed. So a rule can read too early exactly when it reads
from a step that is no ancestor, and the warnings of a flow are those of the rules that can
(`Session.warnings_exact`).
-/

namespace Walkthrough.Session

variable {s : Session} {id x : String} {d : Step} {rule : Rule}

/-! ## Completing the steps before a step -/

theorem exists_call_completing (declared : id ∈ s.flow.order) (incomplete : s.isCompleted id = false)
    (ready : s.missing id = []) : ∃ c r, r.status = .completed ∧ s.after c = s.store id r := by
  obtain ⟨d, found⟩ := Flow.exists_step?_of_mem declared
  cases manual : d.manual with
  | true =>
    have accepted := completeManual_ok_iff.mpr
      ⟨d, found, manual, incomplete, ready, (rfl : s.store id (manualResult []) = _)⟩
    exact ⟨.completeManual id [], _, rfl, after_of_answer_ok accepted⟩
  | false =>
    have accepted := record_ok_iff.mpr ⟨d, found, incomplete, fun _ => ready,
      (rfl : s.store id { status := .completed, origin := .http } = _)⟩
    exact ⟨.record id _, _, rfl, after_of_answer_ok accepted⟩

/-- Along the schedule one can complete exactly the members of a set that holds the prerequisites of
its members. -/
theorem exists_calls_completing (wf : s.flow.WellFormed) (new : s.IsNew) {kept : String → Prop}
    (closed : ∀ id, kept id → id ∈ s.flow.order ∧ ∀ p ∈ s.flow.prerequisites id, kept p)
    {front : List String} (here : front <+: s.flow.schedule) :
    ∃ calls, ∀ x, (s.afterAll calls).isCompleted x = true ↔ x ∈ front ∧ kept x := by
  induction front using List.reverseRecOn with
  | nil => exact ⟨[], fun x => by simp [afterAll, new.isCompleted]⟩
  | append_singleton front id ih =>
    obtain ⟨calls, before⟩ := ih ((List.prefix_append front [id]).trans here)
    by_cases next : kept id ∧ id ∉ front
    · obtain ⟨keeps, fresh⟩ := next
      obtain ⟨declared, needs⟩ := closed id keeps
      rw [← flow_afterAll s calls] at declared
      have incomplete : (s.afterAll calls).isCompleted id = false := by
        rw [← Bool.not_eq_true, before]
        exact fun done => fresh done.1
      -- The prerequisites stand in front of the step, and they are kept, so they are completed.
      have ready : (s.afterAll calls).missing id = [] := by
        refine missing_eq_nil_iff.mpr fun p link => (before p).mpr ?_
        rw [flow_afterAll] at link
        exact ⟨wf.mem_of_schedule_prefix here fresh link, needs p link⟩
      obtain ⟨c, r, done, stored⟩ := exists_call_completing declared incomplete ready
      refine ⟨calls ++ [c], fun x => ?_⟩
      rw [afterAll_concat, stored, isCompleted_store_iff done, before, List.mem_append,
        List.mem_singleton]
      constructor
      · rintro (rfl | ⟨old, keepsToo⟩)
        · exact ⟨Or.inr rfl, keeps⟩
        · exact ⟨Or.inl old, keepsToo⟩
      · rintro ⟨old | rfl, keepsToo⟩
        · exact Or.inr ⟨old, keepsToo⟩
        · exact Or.inl rfl
    · -- The step is not kept or has been dealt with.
      refine ⟨calls, fun x => ?_⟩
      rw [before, List.mem_append, List.mem_singleton]
      constructor
      · exact fun h => ⟨Or.inl h.1, h.2⟩
      · rintro ⟨old | rfl, keeps⟩
        · exact ⟨old, keeps⟩
        · exact ⟨by_contra fun fresh => next ⟨keeps, fresh⟩, keeps⟩

theorem exists_calls_completing_ancestors (wf : s.flow.WellFormed) (new : s.IsNew) (id : String) :
    ∃ calls, ∀ x, (s.afterAll calls).isCompleted x = true ↔ s.flow.HasAncestor id x := by
  have closed : ∀ x, s.flow.HasAncestor id x →
      x ∈ s.flow.order ∧ ∀ p ∈ s.flow.prerequisites x, s.flow.HasAncestor id p :=
    fun x ancestor => ⟨(wf.lt_of_hasAncestor ancestor).1, fun p link => ancestor.tail link⟩
  obtain ⟨calls, exactly⟩ := exists_calls_completing wf new closed List.prefix_rfl
  refine ⟨calls, fun x => (exactly x).trans (and_iff_right_of_imp fun ancestor => ?_)⟩
  -- An ancestor has a place before another step, so it has a place.
  have place := (wf.lt_of_hasAncestor ancestor).2
  exact List.idxOf_lt_length_iff.mp (Nat.lt_of_lt_of_le place List.idxOf_le_length)

/-! ## Reading too early -/

/-- In some state that calls lead to, the step is eligible and the step that its rule reads from is
not completed, so that the rule has no value. -/
def Premature (s : Session) (d : Step) (rule : Rule) (x : String) : Prop :=
  ∃ calls ids f, (s.afterAll calls).eligible = .ok ids ∧ d.id ∈ ids ∧
    (s.afterAll calls).isCompleted x = false ∧
    (s.afterAll calls).resolve (s.afterAll calls).endpointContext rule = .error f ∧
    f.kind = "MissingUpstreamValue"

/-- A step of a new session can read too early exactly from a step that is no ancestor. -/
theorem premature_iff (wf : s.flow.WellFormed) (new : s.IsNew) (declared : d.id ∈ s.flow.order)
    {name : String} (reads : rule.reference = .field x name) :
    s.Premature d rule x ↔ ¬s.flow.HasAncestor d.id x := by
  constructor
  · rintro ⟨calls, ids, _, told, mem, incomplete, _⟩ ancestor
    have consistent := new.consistent_afterAll calls
    obtain ⟨_, _, waits⟩ := (mem_eligible_iff consistent told).mp mem
    rw [← flow_afterAll s calls] at ancestor
    rw [consistent.isCompleted_of_hasAncestor (missing_eq_nil_iff.mpr waits) ancestor] at incomplete
    cases incomplete
  · intro apart
    obtain ⟨calls, exactly⟩ := exists_calls_completing_ancestors wf new d.id
    have consistent := new.consistent_afterAll calls
    have undone : ∀ y, ¬s.flow.HasAncestor d.id y → (s.afterAll calls).isCompleted y = false :=
      fun y other => by rwa [← Bool.not_eq_true, exactly]
    have eligible : d.id ∈ eligibleAmong (s.afterAll calls).flow (s.afterAll calls).completed := by
      refine (mem_eligible_iff consistent (eligible_eq consistent)).mpr ?_
      rw [flow_afterAll]
      refine ⟨declared, undone d.id fun cycle => ?_, fun p link => (exactly p).mpr (.single link)⟩
      exact Nat.lt_irrefl _ (wf.lt_of_hasAncestor cycle).2
    exact ⟨calls, _, _, eligible_eq consistent, eligible, undone x apart,
      resolve_eq_incompleteStep_iff.mpr ⟨⟨name, reads⟩, rfl, undone x apart⟩, rfl⟩

/-- A rendering that fails on a step that is not completed fails on a rule that reads from it. -/
theorem exists_rule_of_render_incomplete {doc : Option Value}
    (compiled : Flow.ofDocument doc = .ok s.flow) {token : String}
    (h : s.render id = .ok (.error (.incompleteStep token x))) :
    ∃ d rule name, s.flow.step? id = some d ∧ rule ∈ d.rules ∧
      rule.reference = .field x name ∧ s.isCompleted x = false := by
  obtain ⟨d, template, found, _, failed⟩ := exists_template_of_render h
  -- Of the three phases only the one that gives the rules their values fails in this way.
  cases filling : Template.traverse (fun _ => Template.fill s.endpointContext.endpoint?) template with
  | error f =>
    obtain ⟨_, _, _, _, rfl⟩ := fillAll_error_iff.mp filling
    cases (render_of_fill_error filling).symm.trans failed
  | ok filled =>
    cases resolving : s.resolveAll s.endpointContext d.rules with
    | error f =>
      cases (render_of_resolve_error filling resolving).symm.trans failed
      obtain ⟨rule, first, fault⟩ := resolveAll_error_iff.mp resolving
      obtain ⟨⟨name, reads⟩, _, incomplete⟩ := resolve_eq_incompleteStep_iff.mp fault
      exact ⟨d, rule, name, found, first.mem, reads, incomplete⟩
    | ok values =>
      have named := tokens_of_supplied (resolveAll_ok_iff.mp resolving)
        (token_ne_empty compiled found)
      rw [render_of_resolve filling resolving] at failed
      obtain ⟨_, _, _, _, other⟩ := (substituteAll_error_iff named).mp failed
      cases other

/-- The warnings of a flow are exact: there is one for each rule by which a step can be eligible
before the step that it reads from is completed, and no other. Without warnings no eligible step fails
to be rendered because another step has not been completed. -/
theorem warnings_exact {doc : Option Value} (compiled : Flow.ofDocument doc = .ok s.flow)
    (new : s.IsNew) :
    s.flow.warnings = s.flow.warningsOn s.Premature ∧
    (s.flow.warnings = [] → ∀ calls ids id, (s.afterAll calls).eligible = .ok ids → id ∈ ids →
      ∀ token x, (s.afterAll calls).render id ≠ .ok (.error (.incompleteStep token x))) := by
  have wf := Flow.wellFormed_of_ofDocument compiled
  refine ⟨?_, fun quiet calls ids id told mem token x failed => ?_⟩
  · rw [Flow.warnings_eq compiled]
    refine Flow.warningsOn_congr fun d mem rule _ x name reads => ?_
    exact (premature_iff wf new (List.mem_map_of_mem mem) reads).symm
  · have same := flow_afterAll s calls
    have consistent := new.consistent_afterAll calls
    obtain ⟨d, rule, name, found, inRules, reads, incomplete⟩ :=
      exists_rule_of_render_incomplete (same.symm ▸ compiled) failed
    have ancestor := Flow.hasAncestor_of_mem_sources (same.symm ▸ compiled) (same.symm ▸ quiet)
      (Flow.mem_steps_of_step? found) (Step.mem_sources_iff.mpr ⟨rule, inRules, name, reads⟩)
    rw [Flow.id_of_step? found] at ancestor
    obtain ⟨_, _, waits⟩ := (mem_eligible_iff consistent told).mp mem
    rw [consistent.isCompleted_of_hasAncestor (missing_eq_nil_iff.mpr waits) ancestor] at incomplete
    cases incomplete

/-- Of two rules the one that reads from a prerequisite is not warned of; the one by which the step
reads from itself is. -/
theorem warned_of_own_field : ∃ (doc : Value) (s : Session),
    Flow.ofDocument (some doc) = .ok s.flow ∧ s.IsNew ∧
      (s.flow.steps.map fun d => (d.id, d.prerequisites, d.rules.map (·.source))) =
        [("login", [], []), ("list", ["login"], ["step.login.key", "step.list.next"])] ∧
      s.flow.warningsOn s.Premature =
        ["step 'list' substitutes <next> from 'list', which it does not depend on"] := by
  have compiled : Flow.ofDocument (some (.mapping
      [("steps", .list [.mapping [("id", .text "login"), ("manual", .bool true)],
          .mapping [("id", .text "list")]]),
        ("dependencies", .mapping [("list", .list [.text "login"])]),
        ("requests", .mapping
          [("list", .mapping [("url", .text "/list?key=<key>&from=<next>")])]),
        ("substitution_rules", .mapping [("list", .mapping
          [("<key>", .text "step.login.key"), ("<next>", .text "step.list.next")])])])) =
      .ok (Session.flow { flow := _ }) := rfl
  refine ⟨_, _, compiled, rfl, rfl, ?_⟩
  rw [← (warnings_exact compiled rfl).1]
  rfl

end Walkthrough.Session
