import Walkthrough.Proofs.Restart

/-!
# Completed results are written once

The three writes of a session refuse a completed step, and each of them stores a result of the step
that it names and of no other. So a completed result can only be taken away, by a restart of the step
or of one that it consumes. Along any sequence of calls, refused ones included, there is such a
restart between two completions of a step (`Session.written_once`).
-/

namespace Walkthrough.Session

open Relation (ReflTransGen)

variable {s t : Session} {id x : String} {c : Call}

/-! ## Writes -/

/-- The step that a call writes a result of; a restart writes none. -/
def Call.written? : Call → Option String
  | markRunning id _ => some id
  | record id _ => some id
  | completeManual id _ => some id
  | restart _ => none

/-- True of the calls that complete a step when they are accepted. -/
def Call.completing : Call → Bool
  | markRunning _ _ => false
  | record _ r => r.status == .completed
  | completeManual _ _ => true
  | restart _ => false

/-- The call is a write of the step, it is accepted, and the step is completed by it. -/
def Completes (s : Session) (c : Call) (id : String) : Prop :=
  c.written? = some id ∧ ∃ t, s.answer c = .ok t ∧ t.isCompleted id = true

/-- An accepted write stores a result of a declared step that is not completed; the result completes
the step if the call is a completing one, and then its prerequisites are completed. -/
theorem exists_store_of_write (accepted : s.answer c = .ok t) (write : c.written? = some id) :
    ∃ r, s.store id r = t ∧ id ∈ s.flow.order ∧ s.isCompleted id = false ∧
      (r.status = .completed ↔ c.completing = true) ∧ (r.status = .completed → s.missing id = []) := by
  cases c with
  | markRunning id request =>
    cases write
    obtain ⟨_, found, _, incomplete, _, ready, stored⟩ := markRunning_ok_iff.mp accepted
    exact ⟨_, stored, Flow.mem_order_of_step? found, incomplete, by simp [underWay, Call.completing],
      fun _ => ready⟩
  | record id r =>
    cases write
    obtain ⟨_, found, incomplete, ready, stored⟩ := record_ok_iff.mp accepted
    exact ⟨_, stored, Flow.mem_order_of_step? found, incomplete, by simp [Call.completing], ready⟩
  | completeManual id fields =>
    cases write
    obtain ⟨_, found, _, incomplete, ready, stored⟩ := completeManual_ok_iff.mp accepted
    exact ⟨_, stored, Flow.mem_order_of_step? found, incomplete,
      by simp [manualResult, Call.completing], fun _ => ready⟩
  | restart id => cases write

theorem exists_store_of_answer (accepted : s.answer c = .ok t) (write : c.written? = some id) :
    s.isCompleted id = false ∧ ∃ r, s.store id r = t := by
  obtain ⟨r, stored, _, incomplete, _⟩ := exists_store_of_write accepted write
  exact ⟨incomplete, r, stored⟩

theorem Completes.incomplete (h : s.Completes c x) : s.isCompleted x = false := by
  obtain ⟨write, t, accepted, _⟩ := h
  exact (exists_store_of_answer accepted write).1

theorem Completes.isCompleted_after (h : s.Completes c x) : (s.after c).isCompleted x = true := by
  obtain ⟨_, t, accepted, done⟩ := h
  rw [after_of_answer_ok accepted]
  exact done

/-! ## What keeps a completed result -/

/-- Among the calls there is an accepted restart of a step that the given one consumes. -/
def Restarted (f : Flow) (calls : List Call) (x : String) : Prop :=
  ∃ y ∈ f.order, .restart y ∈ calls ∧ Consumes f y x

theorem result?_after_of_isCompleted (done : s.isCompleted x = true)
    (kept : ¬Restarted s.flow [c] x) : (s.after c).result? x = s.result? x := by
  cases made : s.answer c with
  | error m => rw [after_of_answer_error made]
  | ok t =>
    rw [after_of_answer_ok made]
    cases write : c.written? with
    | some id =>
      obtain ⟨incomplete, r, rfl⟩ := exists_store_of_answer made write
      rw [result?_store, if_neg (ne_of_isCompleted incomplete done)]
    | none =>
      obtain ⟨y, rfl⟩ : ∃ y, c = .restart y := by
        cases c with
        | restart y => exact ⟨y, rfl⟩
        | markRunning => cases write
        | record => cases write
        | completeManual => cases write
      obtain ⟨⟨_, _⟩, restarted, rfl⟩ := Checks.map_ok_iff.mp made
      obtain ⟨d, found, rfl, _⟩ := restart_ok_iff.mp restarted
      have declared := Flow.mem_order_of_step? found
      exact result?_cleanse_of_not declared fun affected =>
        kept ⟨y, declared, List.mem_singleton_self _, affected⟩

theorem result?_afterAll_of_isCompleted {calls : List Call} (done : s.isCompleted x = true)
    (kept : ¬Restarted s.flow calls x) : (s.afterAll calls).result? x = s.result? x := by
  induction calls generalizing s with
  | nil => rfl
  | cons c calls ih =>
    have now : (s.after c).result? x = s.result? x :=
      result?_after_of_isCompleted done fun ⟨y, declared, mem, affected⟩ =>
        kept ⟨y, declared, List.mem_cons.mpr (Or.inl (List.mem_singleton.mp mem)), affected⟩
    have same : (s.after c).flow = s.flow := flow_afterAll s [c]
    have later : ((s.after c).afterAll calls).result? x = (s.after c).result? x := by
      refine ih ((isCompleted_congr now).trans done) ?_
      rintro ⟨y, declared, mem, affected⟩
      rw [same] at declared affected
      exact kept ⟨y, declared, List.mem_cons_of_mem c mem, affected⟩
    exact later.trans now

/-- A refused call changes nothing. A write is accepted of a step that is not completed, and changes
no other result, so none of a completed step; and a completed result stays as it is up to a restart
of the step or of one that it consumes. Hence there is such a restart between two completions. -/
theorem written_once (s : Session) :
    (∀ c m, s.answer c = .error m → s.after c = s) ∧
    (∀ c t id, s.answer c = .ok t → c.written? = some id → s.after c = t ∧
      ∀ x, x ≠ id ∨ s.isCompleted x = true → t.result? x = s.result? x) ∧
    ∀ x first between second, s.Completes first x →
      ((s.after first).afterAll between).Completes second x →
      ∃ y ∈ s.flow.order, .restart y ∈ between ∧ ReflTransGen s.flow.Feeds y x := by
  refine ⟨fun c m => after_of_answer_error, fun c t id accepted write => ?_,
    fun x first between second completed again => ?_⟩
  · obtain ⟨incomplete, r, rfl⟩ := exists_store_of_answer accepted write
    refine ⟨after_of_answer_ok accepted, fun x other => ?_⟩
    have apart : id ≠ x := other.elim Ne.symm (ne_of_isCompleted incomplete)
    rw [result?_store, if_neg apart]
  · have same : (s.after first).flow = s.flow := flow_afterAll s [first]
    by_contra none
    have kept : ¬Restarted (s.after first).flow between x := by
      rintro ⟨y, declared, mem, affected⟩
      rw [same] at declared affected
      exact none ⟨y, declared, mem, consumes_iff.mp affected⟩
    -- Without a restart the step is still completed when the second write comes.
    have still := result?_afterAll_of_isCompleted completed.isCompleted_after kept
    have lost := again.incomplete
    rw [isCompleted_congr still, completed.isCompleted_after] at lost
    cases lost

/-- The list is completed, lost to a restart of the login that it waits for, refused, and completed
once more. -/
theorem written_twice_around_restart : ∃ (s : Session) (first second : Call) (between : List Call),
    s.Completes first "list" ∧ between = [.restart "login", first, .completeManual "login" []] ∧
      ((s.after first).afterAll between).Completes second "list" ∧
      ∃ y ∈ s.flow.order, .restart y ∈ between ∧ ReflTransGen s.flow.Feeds y "list" := by
  let done : StepResult := { status := .completed, origin := .http }
  let s : Session :=
    { flow :=
        { steps :=
            [⟨"login", "Login", "", [], [], [], none, []⟩,
              ⟨"list", "List", "", [], [], ["login"], some ⟨"GET", "/list", [], none, none⟩, []⟩]
          endpointDefaults := [], schedule := ["login", "list"], warnings := [] }
      results := [("login", manualResult [])] }
  have completed : s.Completes (.record "list" done) "list" := ⟨rfl, _, rfl, by decide⟩
  have lost : (s.after (.record "list" done)).after (.restart "login") = { s with results := [] } := by
    have gone : (s.store "list" done).cleared "login" = ["login", "list"] := by decide +kernel
    change (s.store "list" done).after (.restart "login") = _
    rw [after_restart_eq (by simp [s, Flow.order]), cleanse, gone]
    rfl
  have back : (s.after (.record "list" done)).afterAll
      [.restart "login", .record "list" done, .completeManual "login" []] = s := by
    rw [afterAll, List.foldl_cons, lost]
    rfl
  obtain ⟨_, _, restarted⟩ := written_once s
  have again := back.symm ▸ completed
  exact ⟨s, _, _, _, completed, rfl, again, restarted "list" _ _ _ completed again⟩

end Walkthrough.Session
