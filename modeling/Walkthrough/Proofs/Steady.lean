import Walkthrough.Proofs.Attempt

/-!
# Sessions between two calls

Attempts, completions and restarts leave no step under way. Between two of them every step that has
a result is completed or has failed, and its prerequisites are completed (`Session.Steady`). In such
a session an eligible automatic step can always be attempted.
-/

namespace Walkthrough

theorem Step.status_conclude {d : Step} {serverUrl : Option String} {request : Request}
    (reply : Except TransportFault Response) :
    (d.conclude serverUrl request reply).status = .completed ∨
      (d.conclude serverUrl request reply).status = .failed := by
  unfold conclude
  split
  · exact Or.inr rfl
  · split
    · exact Or.inl rfl
    · exact Or.inr rfl

namespace Session

variable {s t : Session} {id x : String} {d : Step} {r : StepResult} {opts : RunOptions}

/-- Only declared steps have results, which are final: the step is completed or has failed, after its
prerequisites were completed. -/
structure Steady (s : Session) : Prop where
  consistent : s.Consistent
  final : ∀ id r, s.result? id = some r → r.status = .completed ∨ r.status = .failed
  grounded : ∀ id r, s.result? id = some r → s.missing id = []

theorem IsNew.steady (new : s.IsNew) : s.Steady where
  consistent := new.consistent
  final := by
    intro id r found
    rw [new.result? id] at found
    cases found
  grounded := by
    intro id r found
    rw [new.result? id] at found
    cases found

theorem Steady.status (h : s.Steady) (id : String) :
    s.status id = .pending ∧ s.result? id = none ∨
      (s.status id = .completed ∨ s.status id = .failed) ∧ s.missing id = [] := by
  unfold Session.status
  cases found : s.result? id with
  | none => exact Or.inl ⟨rfl, rfl⟩
  | some r => exact Or.inr ⟨h.final id r found, h.grounded id r found⟩

theorem Steady.status_ne_running (h : s.Steady) (id : String) : s.status id ≠ .running := by
  rcases h.status id with ⟨pending, _⟩ | ⟨completed | failed, _⟩
  · simp [pending]
  · simp [completed]
  · simp [failed]

theorem Steady.status_eq_pending_iff (h : s.Steady) :
    s.status id = .pending ↔ s.result? id = none := by
  unfold Session.status
  cases found : s.result? id with
  | none => simp
  | some r => rcases h.final id r found with completed | failed <;> simp [*]

theorem Steady.mem_eligible_iff (h : s.Steady) {ids : List String} (told : s.eligible = .ok ids) :
    id ∈ ids ↔ id ∈ s.flow.order ∧ s.isCompleted id = false ∧ s.missing id = [] := by
  rw [Session.mem_eligible_iff h.consistent told, missing_eq_nil_iff]

/-! ## Changes -/

theorem Steady.store (h : s.Steady) (declared : id ∈ s.flow.order)
    (incomplete : s.isCompleted id = false) (ready : s.missing id = [])
    (final : r.status = .completed ∨ r.status = .failed) : (s.store id r).Steady := by
  refine ⟨h.consistent.store declared incomplete fun _ => ready, ?_, ?_⟩
  · intro x other found
    rw [result?_store] at found
    split at found
    · cases found
      exact final
    · exact h.final x other found
  · intro x other found
    rw [result?_store] at found
    split at found
    -- What is stored completes a step or does not; it never takes a completion back.
    next same => exact missing_store incomplete r (same ▸ ready)
    next => exact missing_store incomplete r (h.grounded x other found)

theorem Steady.cleanse (h : s.Steady) (declared : id ∈ s.flow.order) : (s.cleanse id).Steady := by
  refine ⟨h.consistent.cleanse declared, ?_, ?_⟩
  · intro x r found
    exact h.final x r (result?_cleanse_eq_some declared found).2
  · intro x r found
    obtain ⟨unaffected, kept⟩ := result?_cleanse_eq_some declared found
    rw [missing_cleanse declared unaffected]
    exact h.grounded x r kept

/-! ## Calls -/

theorem Steady.after_completeManual (h : s.Steady) (id : String) (fields : Fields) :
    (s.after (.completeManual id fields)).Steady := by
  rcases after_completeManual_cases s id fields with same | ⟨stored, declared, incomplete, ready⟩
  · rw [same]
    exact h
  · rw [stored]
    exact h.store declared incomplete ready (Or.inl rfl)

theorem Steady.after_restart (h : s.Steady) (id : String) : (s.after (.restart id)).Steady := by
  rcases after_restart_cases s id with same | ⟨cleansed, declared⟩
  · rw [same]
    exact h
  · rw [cleansed]
    exact h.cleanse declared

theorem Steady.attempted {sent : List (Wire × Outcome)} {out : Except Misuse (Session × StepResult)}
    (h : s.Steady) (a : Attempted s id opts sent out) : (s.leftBy out).Steady := by
  cases a with
  | forbidden => exact h
  | unrendered admitted _ =>
    obtain ⟨found, _, incomplete, ready⟩ := (requireRunnable_ok_iff h.consistent).mp admitted
    exact h.store (Flow.mem_order_of_step? found) incomplete ready (Or.inr rfl)
  | settled admitted _ _ _ =>
    obtain ⟨found, _, incomplete, ready⟩ := (requireRunnable_ok_iff h.consistent).mp admitted
    exact h.store (Flow.mem_order_of_step? found) incomplete ready (Step.status_conclude _)

/-- An attempt of an eligible automatic step is not refused, and its result is stored. -/
theorem Steady.stored_of_attempted (h : s.Steady) (found : s.flow.step? id = some d)
    (automatic : d.manual = false) (incomplete : s.isCompleted id = false)
    (ready : s.missing id = []) {sent : List (Wire × Outcome)}
    {out : Except Misuse (Session × StepResult)} (a : Attempted s id opts sent out) :
    ∃ r, out = .ok (s.store id r, r) ∧ (r.status = .completed ∨ r.status = .failed) := by
  have admitted : s.requireRunnable id = .ok d :=
    (requireRunnable_ok_iff h.consistent).mpr ⟨found, automatic, incomplete, ready⟩
  cases a with
  | forbidden why =>
    rcases why with refused | running
    · rw [admitted] at refused
      cases refused
    · exact absurd running (h.status_ne_running id)
  | unrendered _ _ => exact ⟨_, rfl, Or.inr rfl⟩
  | settled _ _ _ _ => exact ⟨_, rfl, Step.status_conclude _⟩

end Session

end Walkthrough
