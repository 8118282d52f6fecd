import Walkthrough.Proofs.Guard
import Walkthrough.Proofs.Restart
import Walkthrough.Proofs.Text

/-!
# Sessions that are led by commands

The reasons that a command gives against running or completing a step cover everything that a session
could forbid there. So in a steady session a command is never forbidden, whatever the line says and
whatever servers, users and disks reply, and it leaves the session steady
(`Session.Steady.always_command`). That carries over to every session that commands lead to, from a
new one on (`Session.safe_of_led`).
-/

namespace Walkthrough.Session

variable {s t : Session} {id line : String} {opts : RunOptions}

/-- The session goes on with the flow that it had, and no step of it is under way. -/
structure GoesOn (f : Flow) (turn : Turn) : Prop where
  steady : turn.1.Steady
  flow : turn.1.flow = f
  answer : turn.2 = .ok true

theorem Steady.goesOn (h : s.Steady) : GoesOn s.flow (s, .ok true) :=
  ⟨h, rfl, rfl⟩

theorem Steady.always_said (h : s.Steady) (notes : List Note) :
    (s.said notes).Always (GoesOn s.flow) :=
  Talk.always_sayAll (Talk.always_done h.goesOn) notes

/-! ## Commands -/

theorem Steady.always_runOrSay (h : s.Steady) :
    (s.runOrSay id (s.whyNotRunnable id) opts).Always (GoesOn s.flow) := by
  rw [h.consistent.whyNotRunnable_eq]
  cases why : s.reason? id false with
  | some reason => exact h.always_said _
  | none =>
    obtain ⟨d, found, automatic, incomplete, ready⟩ := reason?_eq_none_iff.mp why
    refine Talk.always_bind fun events out run => ?_
    have attempted := attempted_of_runs h.consistent run
    obtain ⟨r, rfl, _⟩ := h.stored_of_attempted found automatic incomplete ready attempted
    exact Talk.always_done ⟨h.attempted attempted, rfl, rfl⟩

theorem Steady.always_restartAnd (h : s.Steady) (declared : id ∈ s.flow.order) (again : Bool) :
    (s.restartAnd id again opts).Always (GoesOn s.flow) := by
  rw [restartAnd, restart_eq declared]
  have cleansed := h.cleanse declared
  refine Talk.always_sayAll ?_ _
  cases again with
  | true => exact cleansed.always_runOrSay
  | false => exact Talk.always_done cleansed.goesOn

theorem Steady.always_completeAsking (h : s.Steady) (given : Fields) :
    (s.completeAsking id given).Always (GoesOn s.flow) := by
  rw [completeAsking, h.consistent.whyNotCompletable_eq]
  cases why : s.reason? id true with
  | some reason => exact h.always_said _
  | none =>
    obtain ⟨d, found, manual, incomplete, ready⟩ := reason?_eq_none_iff.mp why
    -- Whatever the user answers, nothing has been written to the session in the meantime.
    refine Talk.always_bind fun events fields _ => ?_
    have accepted : s.completeManual id fields = .ok (s.store id (manualResult fields)) :=
      completeManual_ok_iff.mpr ⟨d, found, manual, incomplete, ready, rfl⟩
    simp only [accepted]
    have stored := h.store (Flow.mem_order_of_step? found) incomplete ready
      (r := manualResult fields) (Or.inl rfl)
    exact stored.always_said _

theorem Steady.always_walkAndSay (h : s.Steady) :
    (s.walkAndSay opts).Always (GoesOn s.flow) := by
  refine Talk.always_bind fun events out run => ?_
  obtain ⟨_, g, _, _, _, sound, _, flow, _, rfl, _⟩ := h.ends_of_walk run
  rw [← flow]
  exact sound.steady.always_said _

theorem exists_preview (s : Session) (id : String) : ∃ n, s.preview id = .ok n := by
  unfold preview
  split
  next => exact ⟨_, rfl⟩
  next d found =>
    split
    next => exact ⟨_, rfl⟩
    next automatic =>
      rw [Bool.not_eq_true] at automatic
      obtain ⟨outcome, rendered⟩ := exists_render found automatic
      rw [rendered]
      exact ⟨_, rfl⟩

theorem Steady.always_stepCommand (h : s.Steady) (name : String) (id : Option String)
    (rest : List String) : (s.stepCommand name id rest opts).Always (GoesOn s.flow) := by
  unfold stepCommand
  split
  next id => exact h.always_said _
  next => exact h.always_said _
  next id =>
    obtain ⟨n, shown⟩ := exists_preview s id
    rw [shown]
    exact h.always_said _
  next => exact h.always_said _
  next => exact h.always_runOrSay
  next => exact h.always_said _
  next => exact h.always_completeAsking _
  next => exact h.always_said _
  next id _ _ _ _ =>
    split
    next found => exact h.always_restartAnd (Flow.step?_isSome_iff.mp found) _
    next => exact h.always_said _
  next => exact h.always_said _

/-- The line ends the session: its first word is one of the two that do. -/
def Ends (line : String) : Prop :=
  ∃ word, Text.FirstWord line word ∧ (word = "quit" ∨ word = "exit")

theorem command_of_ends (h : Ends line) : s.command line opts = .done (s, .ok false) := by
  obtain ⟨word, first, ends⟩ := h
  obtain ⟨rest, read⟩ := List.head?_eq_some_iff.mp (Text.head?_words_eq_some_iff.mpr first)
  rw [command, read]
  rcases ends with rfl | rfl <;> rfl

/-- A line that does not end a steady session is carried out, and leaves it steady. -/
theorem Steady.always_command (h : s.Steady) (on : ¬Ends line) :
    (s.command line opts).Always (GoesOn s.flow) := by
  unfold command
  split
  next => exact Talk.always_done h.goesOn
  next name rest read =>
    have first : Text.FirstWord line name := Text.head?_words_eq_some_iff.mp (by rw [read]; rfl)
    have other : ¬(name == "quit" || name == "exit") = true := by
      simpa using fun ends => on ⟨name, first, ends⟩
    rw [if_neg other]
    split
    next =>
      obtain ⟨standings, classified⟩ := exists_classify h.consistent
      rw [overview, classified]
      exact h.always_said _
    next =>
      split
      next => exact h.always_walkAndSay
      next =>
        split
        next => exact h.always_stepCommand name rest.head? (rest.drop 1)
        next => exact h.always_said _

/-! ## Sequences of commands -/

/-- The session can be left by carrying out one line after the other. -/
inductive Led (s : Session) : Session → Prop
  | start : Led s s
  | command {t u : Session} {line : String} {opts : RunOptions} {events : List Event}
      {outcome : Except Misuse Bool} (prior : Led s t)
      (run : (t.command line opts).Runs events (u, outcome)) : Led s u

theorem Steady.of_command (h : s.Steady) {events : List Event} {outcome : Except Misuse Bool}
    (run : (s.command line opts).Runs events (t, outcome)) :
    t.Steady ∧ t.flow = s.flow ∧
      ∃ goesOn, outcome = .ok goesOn ∧ (goesOn = false ↔ Ends line) := by
  by_cases ends : Ends line
  · rw [command_of_ends ends] at run
    obtain ⟨_, same⟩ := Talk.runs_done_iff.mp run
    cases same
    exact ⟨h, rfl, false, rfl, iff_of_true rfl ends⟩
  · obtain ⟨steady, flow, answer⟩ := h.always_command ends _ _ run
    exact ⟨steady, flow, true, answer, iff_of_false (by decide) ends⟩

theorem steady_of_led (new : s.IsNew) (led : Led s t) : t.Steady ∧ t.flow = s.flow := by
  induction led with
  | start => exact ⟨new.steady, rfl⟩
  | command _ run ih =>
    obtain ⟨steady, flow, _⟩ := ih.1.of_command run
    exact ⟨steady, flow.trans ih.2⟩

/-- Whatever lines a session has been led by, the next line is carried out to its end, whatever it
says and whatever servers, users and disks reply: it is not forbidden, it ends the session exactly
when its first word is "quit" or "exit", and it leaves no step under way and no completed step with a
prerequisite that is not completed. -/
theorem safe_of_led (new : s.IsNew) (led : Led s t) (line : String) (opts : RunOptions) :
    (∃ events turn, (t.command line opts).Runs events turn) ∧
    ∀ events u outcome, (t.command line opts).Runs events (u, outcome) →
      (∃ goesOn, outcome = .ok goesOn ∧ (goesOn = false ↔
        ∃ word, Text.FirstWord line word ∧ (word = "quit" ∨ word = "exit"))) ∧
      u.flow = s.flow ∧ (∀ id, u.status id ≠ .running) ∧
      ∀ id, u.isCompleted id = true → ∀ p ∈ u.flow.prerequisites id, u.isCompleted p = true := by
  obtain ⟨steady, same⟩ := steady_of_led new led
  constructor
  · obtain ⟨events, turn, run, _⟩ :=
      Talk.exists_runs (fun _ => .answered ⟨200, "OK", [], .ok ""⟩) (t.command line opts)
    exact ⟨events, turn, run⟩
  · intro events u outcome run
    obtain ⟨after, flow, answered⟩ := steady.of_command run
    exact ⟨answered, flow.trans same, after.status_ne_running, after.consistent.closed⟩

/-- The login has been completed and the request behind it has been lost on the way; then the session
is left. -/
theorem safe_after_lost_request : ∃ (s t : Session) (opts : RunOptions),
    s.IsNew ∧ Led s t ∧ t.isCompleted "login" = true ∧ t.status "list" = .failed ∧
      ∀ events u outcome, (t.command " \texit now" opts).Runs events (u, outcome) →
        outcome = .ok false ∧ ∀ id, u.status id ≠ .running := by
  let s : Session :=
    { flow :=
        { steps :=
            [⟨"login", "Login", "", [], [], [], none, []⟩,
              ⟨"list", "List", "", [], [], ["login"], some ⟨"GET", "/list", [], none, none⟩, []⟩]
          endpointDefaults := [], schedule := ["login", "list"], warnings := [] } }
  let opts : RunOptions := { limit := .ofInt 1000 }
  have completed := @Led.command s s _ "complete login" opts _ _ .start (.note (.done _))
  have lost := @Led.command s _ _ "run list" opts _ _ completed
    (.note (.note (@Talk.Runs.send _ _ _ (.failed (.error "TypeError" "lost" none)) _ _
      (.note (.done _)))))
  refine ⟨s, _, opts, rfl, lost, rfl, rfl, fun events u outcome run => ?_⟩
  obtain ⟨⟨goesOn, rfl, ends⟩, _, idle, _⟩ := (safe_of_led (s := s) rfl lost " \texit now" opts).2 _ _ _ run
  have first : Text.FirstWord " \texit now" "exit" := Text.head?_words_eq_some_iff.mp (by decide)
  rw [ends.mpr ⟨"exit", first, Or.inr rfl⟩]
  exact ⟨rfl, idle⟩

end Walkthrough.Session
