import Walkthrough.Proofs.Render

/-!
# What a restart clears

A restart follows the links from a step to the steps that take it in, along prerequisites and along
rules, in whatever cycles the rules run. It clears the results of exactly the steps that it comes
to. What it leaves is a filter on the results, so a second restart finds nothing, and two restarts
can be made in either order.
-/

namespace Walkthrough

open Relation (ReflTransGen)

/-- The second step takes the first one in: it has it among its prerequisites, or one of its rules
reads from it. -/
def Flow.Feeds (f : Flow) (a b : String) : Prop :=
  ∃ d ∈ f.steps, d.id = b ∧
    (a ∈ d.prerequisites ∨ ∃ r ∈ d.rules, ∃ name, r.reference = .field a name)

theorem Ledger.foldl_erase_eq_filter {α : Type} (l : Ledger α) (gone : List String) :
    gone.foldl Ledger.erase l = l.filter fun e => !gone.contains e.1 := by
  induction gone generalizing l with
  | nil => simp
  | cons name gone ih =>
    rw [List.foldl_cons, ih, Ledger.erase, List.filter_filter]
    refine List.filter_congr fun e _ => ?_
    rw [List.contains_cons, Bool.not_or, Bool.and_comm]
    rfl

namespace Session

variable {s t : Session} {f : Flow} {id other x : String} {gone : List String}

theorem linked_consumers_iff_feeds : Linked (consumers f) id x ↔ f.Feeds id x := by
  rw [linked_consumers_iff]
  refine exists_congr fun d => and_congr_right fun _ => and_congr_right fun _ => ?_
  rw [Step.mem_sources_iff]

theorem consumes_iff : Consumes f id x ↔ ReflTransGen f.Feeds id x := by
  have same : Linked (consumers f) = f.Feeds := by
    funext a b
    exact propext linked_consumers_iff_feeds
  rw [Consumes, same]

theorem mem_cleared_iff (declared : id ∈ s.flow.order) :
    x ∈ s.cleared id ↔ Consumes s.flow id x ∧ s.result? x ≠ none := by
  rw [cleared, List.mem_filter, Bool.and_eq_true, List.contains_iff_mem, mem_affected_iff,
    ← Ledger.isSome_get?, Option.isSome_iff_ne_none]
  constructor
  · intro h
    exact h.2
  · intro h
    exact ⟨mem_order_of_consumes declared h.1, h⟩

/-- The results that a restart leaves are those of the steps that it does not come to. -/
theorem results_cleanse (declared : id ∈ s.flow.order) :
    (s.cleanse id).results = s.results.filter fun e => !(affected s.flow id).contains e.1 := by
  unfold cleanse
  rw [Ledger.foldl_erase_eq_filter]
  refine List.filter_congr fun e mem => ?_
  -- Of an entry there is a result, so it is cleared as soon as its step is affected.
  have stored : s.result? e.1 ≠ none := by
    have named : e.1 ∈ s.results.names := List.mem_map.mpr ⟨e, mem, rfl⟩
    rw [← Ledger.has_iff, ← Ledger.isSome_get?] at named
    exact Option.isSome_iff_ne_none.mp named
  have same : e.1 ∈ s.cleared id ↔ e.1 ∈ affected s.flow id := by
    rw [mem_cleared_iff declared, mem_affected_iff]
    exact and_iff_left stored
  rw [Bool.eq_iff_iff, Bool.not_eq_true', Bool.not_eq_true', ← Bool.not_eq_true,
    ← Bool.not_eq_true, List.contains_iff_mem, List.contains_iff_mem, same]

theorem cleanse_comm (declared : id ∈ s.flow.order) (declaredToo : other ∈ s.flow.order) :
    (s.cleanse id).cleanse other = (s.cleanse other).cleanse id := by
  have first : ((s.cleanse id).cleanse other).results = ((s.cleanse other).cleanse id).results := by
    rw [results_cleanse (s := s.cleanse id) declaredToo,
      results_cleanse (s := s.cleanse other) declared, results_cleanse declared,
      results_cleanse declaredToo, List.filter_filter, List.filter_filter]
    refine List.filter_congr fun e _ => ?_
    exact Bool.and_comm _ _
  unfold cleanse at first ⊢
  exact congrArg (fun results => { s with results }) first

theorem result?_cleanse_of_consumes (declared : id ∈ s.flow.order) (h : Consumes s.flow id x) :
    (s.cleanse id).result? x = none := by
  rw [result?_cleanse declared, if_pos h]

theorem cleared_cleanse (declared : id ∈ s.flow.order) : (s.cleanse id).cleared id = [] := by
  rw [List.eq_nil_iff_forall_not_mem]
  intro x mem
  obtain ⟨affected, stored⟩ := (mem_cleared_iff (s := s.cleanse id) declared).mp mem
  exact stored (result?_cleanse_of_consumes declared affected)

theorem cleanse_cleanse (declared : id ∈ s.flow.order) :
    (s.cleanse id).cleanse id = s.cleanse id := by
  have nothing := cleared_cleanse declared
  unfold cleanse at nothing ⊢
  rw [nothing]
  rfl

theorem restart_eq (declared : id ∈ s.flow.order) :
    s.restart id = .ok (s.cleanse id, s.cleared id) := by
  obtain ⟨d, found⟩ := Flow.exists_step?_of_mem declared
  exact restart_ok_iff.mpr ⟨d, found, rfl, rfl⟩

theorem after_restart_eq (declared : id ∈ s.flow.order) : s.after (.restart id) = s.cleanse id := by
  rw [after, answer, restart_eq declared]
  rfl

/-- A restart of a declared step succeeds and lists, in declared order, the steps with a result that
the step feeds directly or through others, itself included. Exactly their results are gone; every
other step keeps its result, and every other automatic step is rendered as before. A second restart
clears nothing, and two restarts can be made in either order. -/
theorem restart_exact (declared : id ∈ s.flow.order) :
    ∃ t gone, s.restart id = .ok (t, gone) ∧
      gone.Sublist s.flow.order ∧
      (∀ x, x ∈ gone ↔ ReflTransGen s.flow.Feeds id x ∧ s.result? x ≠ none) ∧
      t = { s with results := s.results.filter fun e => !gone.contains e.1 } ∧
      (∀ x, ¬ReflTransGen s.flow.Feeds id x →
        t.result? x = s.result? x ∧ (s.flow.isManual x = false → t.render x = s.render x)) ∧
      t.restart id = .ok (t, []) ∧
      ∀ other ∈ s.flow.order, (s.after (.restart id)).after (.restart other) =
        (s.after (.restart other)).after (.restart id) := by
  refine ⟨s.cleanse id, s.cleared id, restart_eq declared, ?_, fun x => ?_, ?_, fun x apart => ?_, ?_,
    fun other declaredToo => ?_⟩
  · exact List.filter_sublist
  · rw [mem_cleared_iff declared, consumes_iff]
  · rw [cleanse, Ledger.foldl_erase_eq_filter]
  · rw [← consumes_iff] at apart
    refine ⟨result?_cleanse_of_not declared apart, fun _ => ?_⟩
    cases found : s.flow.step? x with
    | some d => exact render_cleanse declared apart found
    | none => simp [render, renderRequest, found]
  · rw [restart_eq (s := s.cleanse id) declared, cleanse_cleanse declared, cleared_cleanse declared]
  · rw [after_restart_eq declared, after_restart_eq declaredToo,
      after_restart_eq (s := s.cleanse id) declaredToo,
      after_restart_eq (s := s.cleanse other) declared, cleanse_comm declared declaredToo]

/-- Two steps that need each other, one as a prerequisite and one by a rule, are cleared together;
the step apart from them keeps its result. -/
theorem restart_of_rule_cycle : ∃ s : Session, "token" ∈ s.flow.order ∧
    ∃ t, s.restart "token" = .ok (t, ["token", "refresh"]) ∧ (t.result? "status").isSome = true ∧
      t.restart "token" = .ok (t, []) := by
  let request : Request := ⟨"GET", "/list", [], none, none⟩
  let done : StepResult := { status := .completed, origin := .http }
  let s : Session :=
    { flow :=
        { steps :=
            [⟨"status", "Status", "", [], [], [], some request, []⟩,
              ⟨"token", "Token", "", [], [], [], some request,
                [⟨"<old>", .field "refresh" "key", "step.refresh.key", none⟩]⟩,
              ⟨"refresh", "Refresh", "", [], [], ["token"], some request, []⟩]
          endpointDefaults := [], schedule := ["status", "token", "refresh"], warnings := [] }
      results := [("refresh", done), ("status", done), ("token", done)] }
  have declared : "token" ∈ s.flow.order := by simp [s, Flow.order]
  have both : s.cleared "token" = ["token", "refresh"] := by decide +kernel
  obtain ⟨t, gone, restarted, _, _, left, _, again, _⟩ := restart_exact declared
  have listed : gone = ["token", "refresh"] := by
    rw [restart_eq declared] at restarted
    cases restarted
    exact both
  subst listed
  exact ⟨s, declared, t, restarted, left ▸ rfl, again⟩

end Session

end Walkthrough
