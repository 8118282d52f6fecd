import Walkthrough.Session.Eligible
import Walkthrough.Proofs.Session

/-!
# Eligible steps of a consistent session

In a consistent session the eligible steps can always be told, and as long as a step is not
completed there is one: the first such step in the schedule has all its prerequisites behind it.
-/

namespace Walkthrough.Session

variable {s : Session} {id : String}

theorem mem_completed_iff (h : s.Consistent) : id ∈ s.completed ↔ s.isCompleted id = true := by
  rw [isCompleted_iff, completed, List.mem_map]
  constructor
  · rintro ⟨⟨x, r⟩, mem, rfl⟩
    obtain ⟨inResults, status⟩ := List.mem_filter.mp mem
    exact ⟨r, (Ledger.get?_eq_some_iff h.distinct x r).mpr inResults, by simpa using status⟩
  · rintro ⟨r, found, status⟩
    have inResults := (Ledger.get?_eq_some_iff h.distinct id r).mp found
    exact ⟨(id, r), List.mem_filter.mpr ⟨inResults, by simpa using status⟩, rfl⟩

theorem mem_order_of_isCompleted (h : s.Consistent) (done : s.isCompleted id = true) :
    id ∈ s.flow.order := by
  obtain ⟨r, found, _⟩ := isCompleted_iff.mp done
  exact h.declared id (Ledger.mem_names_of_get? found)

/-- A consistent session has no flaw in any completed step. -/
theorem eligible_eq (h : s.Consistent) :
    s.eligible = .ok (eligibleAmong s.flow s.completed) := by
  have sound : s.completed.findSome? (flaw? s.flow s.completed) = none := by
    refine List.findSome?_eq_none_iff.mpr fun id mem => ?_
    have done := (mem_completed_iff h).mp mem
    have declared := mem_order_of_isCompleted h done
    have closed : (s.flow.prerequisites id).find? (fun p => !s.completed.contains p) = none :=
      List.find?_eq_none.mpr fun p link => by
        simpa using (mem_completed_iff h).mpr (h.closed id done p link)
    simp only [flaw?, List.contains_iff_mem.mpr declared, closed, Bool.not_true, Bool.false_and,
      Bool.false_eq_true, if_false, Option.map_none]
  rw [eligible, eligibleIn, sound]

theorem mem_eligible_iff (h : s.Consistent) {ids : List String} (ok : s.eligible = .ok ids) :
    id ∈ ids ↔ id ∈ s.flow.order ∧ s.isCompleted id = false ∧
      ∀ p ∈ s.flow.prerequisites id, s.isCompleted p = true := by
  rw [eligible_eq h] at ok
  cases ok
  simp [eligibleAmong, mem_completed_iff h]

theorem exists_classify (h : s.Consistent) : ∃ standings, s.classify = .ok standings := by
  have ok := eligible_eq h
  unfold eligible at ok
  exact ⟨_, by rw [classify, classifyIn, ok]; rfl⟩

/-- Nothing is eligible only when everything is completed. -/
theorem eligible_eq_nil_iff (wf : s.flow.WellFormed) (h : s.Consistent) {ids : List String}
    (ok : s.eligible = .ok ids) : ids = [] ↔ ∀ id ∈ s.flow.order, s.isCompleted id = true := by
  rw [List.eq_nil_iff_forall_not_mem]
  constructor
  · intro stuck
    -- The first step of the schedule that is not completed would be eligible.
    refine wf.induction fun id declared before => ?_
    by_contra incomplete
    refine stuck id ((mem_eligible_iff h ok).mpr ⟨declared, by simpa using incomplete, ?_⟩)
    exact fun p link => before p (.single link)
  · intro all id mem
    obtain ⟨declared, incomplete, _⟩ := (mem_eligible_iff h ok).mp mem
    rw [all id declared] at incomplete
    cases incomplete

/-- However a new session is called, the prerequisites of its completed steps are completed, the
eligible steps and the standing of every step can be told, and there is an eligible step unless all
are completed. -/
theorem never_stuck {doc : Option Value} (compiled : Flow.ofDocument doc = .ok s.flow)
    (new : s.IsNew) (calls : List Call) :
    (∀ id, (s.afterAll calls).isCompleted id = true →
      ∀ p ∈ s.flow.prerequisites id, (s.afterAll calls).isCompleted p = true) ∧
    (∃ ids, (s.afterAll calls).eligible = .ok ids ∧
      (ids = [] ↔ ∀ id ∈ s.flow.order, (s.afterAll calls).isCompleted id = true)) ∧
    ∃ standings, (s.afterAll calls).classify = .ok standings := by
  have same := flow_afterAll s calls
  have consistent := new.consistent_afterAll calls
  have wf : (s.afterAll calls).flow.WellFormed :=
    same.symm ▸ Flow.wellFormed_of_ofDocument compiled
  rw [← same]
  exact ⟨consistent.closed, ⟨_, eligible_eq consistent, eligible_eq_nil_iff wf consistent
    (eligible_eq consistent)⟩, exists_classify consistent⟩

/-- After a step has been completed and restarted, something is eligible again. -/
theorem not_stuck_after_restart : ∃ (doc : Value) (s : Session),
    Flow.ofDocument (some doc) = .ok s.flow ∧ s.IsNew ∧
      ∃ ids, (s.afterAll [.completeManual "login" [], .restart "login"]).eligible = .ok ids ∧
        (ids = [] ↔ ∀ id ∈ s.flow.order,
          (s.afterAll [.completeManual "login" [], .restart "login"]).isCompleted id = true) := by
  have compiled : Flow.ofDocument (some (.mapping
      [("steps", .list [.mapping [("id", .text "login"), ("manual", .bool true)],
          .mapping [("id", .text "list")]]),
        ("dependencies", .mapping [("list", .list [.text "login"])]),
        ("requests", .mapping [("list", .mapping [("url", .text "/list")])])])) =
      .ok (Session.flow { flow := _ }) := rfl
  refine ⟨_, _, compiled, ?_, (never_stuck compiled ?_ _).2.1⟩
  · exact rfl
  · exact rfl

end Walkthrough.Session
