import Walkthrough.Proofs.Attempt

/-!
# Stored requests are not stale

A request that a session holds is the request that it would render now. Storing a result cannot
change the values that a rendered request was made of, since completed steps are not overwritten,
and a restart clears every step that reads from a step that it clears.
-/

namespace Walkthrough.Session

variable {s t : Session} {id : String} {r : StepResult}

/-- Every stored request is the one that would be rendered now, and its sources are completed. -/
def Fresh (s : Session) : Prop :=
  ∀ id r request, s.result? id = some r → r.request = some request →
    (∃ d, s.flow.step? id = some d ∧ ∀ x ∈ d.sources, s.isCompleted x = true) ∧
      s.render id = .ok (.ok request)

/-- Being rendered is the part that matters: it takes completed sources. -/
theorem fresh_of_render (h : ∀ id r request, s.result? id = some r → r.request = some request →
    s.render id = .ok (.ok request)) : s.Fresh := by
  intro id r request found stored
  have rendered := h id r request found stored
  obtain ⟨d, _, declared, _, _⟩ := exists_template_of_render rendered
  exact ⟨⟨d, declared, fun _ reads => isCompleted_of_render rendered declared reads⟩, rendered⟩

theorem IsNew.fresh (new : s.IsNew) : s.Fresh := by
  intro id r request found
  rw [new.result? id] at found
  cases found

/-! ## The changes of a session -/

theorem Fresh.store (h : s.Fresh) (incomplete : s.isCompleted id = false)
    (sound : ∀ request, r.request = some request → s.render id = .ok (.ok request)) :
    (s.store id r).Fresh := by
  refine fresh_of_render fun x old request found stored => ?_
  rw [result?_store] at found
  split at found
  next same =>
    cases found
    exact render_store incomplete r (same ▸ sound request stored)
  next => exact render_store incomplete r (h x old request found stored).2

theorem Fresh.cleanse (h : s.Fresh) (declared : id ∈ s.flow.order) : (s.cleanse id).Fresh := by
  refine fresh_of_render fun x old request found stored => ?_
  -- A step that keeps its result consumes no cleared step, so that nothing it reads has changed.
  obtain ⟨unaffected, kept⟩ := result?_cleanse_eq_some declared found
  obtain ⟨⟨d, step, _⟩, rendered⟩ := h x old request kept stored
  rw [render_cleanse declared unaffected step, rendered]

theorem Fresh.after_completeManual (h : s.Fresh) (id : String) (fields : Fields) :
    (s.after (.completeManual id fields)).Fresh := by
  rcases after_completeManual_cases s id fields with same | ⟨stored, _, incomplete, _⟩
  · rw [same]
    exact h
  · rw [stored]
    exact h.store incomplete fun request sent => by cases sent

theorem Fresh.after_restart (h : s.Fresh) (id : String) : (s.after (.restart id)).Fresh := by
  rcases after_restart_cases s id with same | ⟨cleansed, declared⟩
  · rw [same]
    exact h
  · rw [cleansed]
    exact h.cleanse declared

theorem Fresh.markRunning (h : s.Fresh) {request : Request}
    (rendered : s.render id = .ok (.ok request)) (marked : s.markRunning id request = .ok t) :
    t.Fresh := by
  obtain ⟨_, _, _, incomplete, _, _, rfl⟩ := markRunning_ok_iff.mp marked
  refine h.store incomplete fun other stored => ?_
  cases stored
  exact rendered

/-! ## Whole runs -/

/-- The session can be left by attempts, completions and restarts made one after the other. -/
inductive Reaches (s : Session) : Session → Prop
  | start : Reaches s s
  | attempt {t : Session} {id : String} {opts : RunOptions} {events : List Event}
      {out : Except Misuse (Session × StepResult)} (prior : Reaches s t)
      (run : (t.attempt id opts).Runs events out) : Reaches s (t.leftBy out)
  | completeManual {t : Session} (prior : Reaches s t) (id : String) (fields : Fields) :
      Reaches s (t.after (.completeManual id fields))
  | restart {t : Session} (prior : Reaches s t) (id : String) : Reaches s (t.after (.restart id))

/-- The session can be met with at some point of such a run: between two calls, or while a request
is under way. -/
inductive Passes (s : Session) : Session → Prop
  | between {t : Session} (prior : Reaches s t) : Passes s t
  | during {t u : Session} {id : String} {d : Step} {request : Request} (prior : Reaches s t)
      (admitted : t.requireRunnable id = .ok d) (rendered : t.render d.id = .ok (.ok request))
      (marked : t.markRunning d.id request = .ok u) : Passes s u

theorem Fresh.attempted {opts : RunOptions} {sent : List (Wire × Outcome)}
    {out : Except Misuse (Session × StepResult)} (h : s.Fresh) (consistent : s.Consistent)
    (a : Attempted s id opts sent out) : (s.leftBy out).Fresh := by
  rcases a.leftBy_cases consistent with same | ⟨r, stored, _, incomplete, _, sound⟩
  · rw [same]
    exact h
  · rw [stored]
    exact h.store incomplete sound

theorem fresh_of_reaches (new : s.IsNew) (h : Reaches s t) : t.Consistent ∧ t.Fresh := by
  -- The two go together: only in a consistent session is an attempt known to overwrite no
  -- completed step.
  induction h with
  | start => exact ⟨new.consistent, new.fresh⟩
  | attempt _ run ih =>
    have attempted := attempted_of_runs ih.1 run
    exact ⟨ih.1.attempted attempted, ih.2.attempted ih.1 attempted⟩
  | completeManual _ id fields ih => exact ⟨ih.1.after _, ih.2.after_completeManual id fields⟩
  | restart _ id ih => exact ⟨ih.1.after _, ih.2.after_restart id⟩

/-- No stale result survives: at every point of a run from a new session, whatever servers answer,
the stored requests are those that would be rendered now. -/
theorem fresh_of_passes (new : s.IsNew) (h : Passes s t) : t.Fresh := by
  cases h with
  | between prior => exact (fresh_of_reaches new prior).2
  | during prior _ rendered marked =>
    exact (fresh_of_reaches new prior).2.markRunning rendered marked

/-- A request is met with under way that was filled with a field that the user gave before. -/
theorem fresh_while_sending : ∃ s t : Session, s.IsNew ∧ Passes s t ∧ t.Fresh ∧
    (t.result? "list").bind (·.request) = some ⟨"GET", "/list?key=k", [], none, none⟩ := by
  have sending : Passes
      { flow :=
          { steps :=
              [⟨"login", "Log in", "", ["key"], [], [], none, []⟩,
                ⟨"list", "List", "", [], [], [], some ⟨"GET", "/list?key=<key>", [], none, none⟩,
                  [⟨"<key>", .field "login" "key", "step.login.key", none⟩]⟩]
            endpointDefaults := [], schedule := ["login", "list"], warnings := [] } } _ :=
    @Passes.during _ _ _ "list" _ ⟨"GET", "/list?key=k", [], none, none⟩
      (.completeManual .start "login" [("key", .text "k")]) rfl rfl rfl
  refine ⟨_, _, ?_, sending, fresh_of_passes ?_ sending, rfl⟩
  · exact rfl
  · exact rfl

end Walkthrough.Session
