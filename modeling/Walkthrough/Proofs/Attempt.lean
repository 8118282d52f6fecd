import Walkthrough.Session.Attempt
import Walkthrough.Proofs.Eligible
import Walkthrough.Proofs.Render
import Walkthrough.Proofs.Runs

/-!
# What an attempt can do

`Session.Attempted` lists the ways in which an attempt of a step ends: it is forbidden, the request
cannot be rendered, or the request is sent and the result stored. In the first case nothing is sent
and no session comes back; in the other two the session that comes back is the one before with one
more result. `Session.attempted_of_runs` shows that there is no other way.
-/

namespace Walkthrough

open Walkthrough.Checks

/-! ## Sending -/

def replyOf (server : Wire → Outcome) (limit : Number) (request : Request) :
    Except TransportFault Response :=
  match Exchange.limitComplaint? limit with
  | some complaint => .error (.failed request.title complaint)
  | none => Exchange.receive request.title limit (server request.wire)

/-- A request that is answered by a server gets the reply of that server. -/
theorem replyOf_eq_of_runs {server : Wire → Outcome} {request : Request} {limit : Number}
    {events : List Event} {reply : Except TransportFault Response}
    (run : (exchange request limit).Runs events reply) (served : ServedBy server events) :
    reply = replyOf server limit request := by
  unfold exchange at run
  unfold replyOf
  cases complaint : Exchange.limitComplaint? limit with
  | some reason =>
    rw [complaint] at run
    exact (Talk.runs_done_iff.mp run).2
  | none =>
    rw [complaint] at run
    obtain ⟨outcome, rest, rfl, received⟩ := Talk.runs_send_iff.mp run
    have same : outcome = server request.wire := served (request.wire, outcome) (by simp)
    rw [(Talk.runs_done_iff.mp received).2, same]

namespace Archive

variable {a : Archive} {id name : String} {v : Value} {events : List Event} {u : Unit}

/-- A file is written, or there is a warning about it. -/
theorem events_of_save (run : (a.save id name v).Runs events u) :
    events = [.saved (a.folder id) (a.file id name) (Json.print v) none] ∨ ∃ reason,
      events = [.saved (a.folder id) (a.file id name) (Json.print v) (some reason),
        .said (.leveled .warn ("could not write " ++ a.file id name ++ ": " ++ reason))] := by
  obtain ⟨complaint, rest, rfl, replied⟩ := Talk.runs_save_iff.mp run
  cases complaint with
  | none =>
    obtain ⟨rfl, _⟩ := Talk.runs_done_iff.mp replied
    exact Or.inl rfl
  | some reason =>
    obtain ⟨_, rfl, warned⟩ := Talk.runs_note_iff.mp replied
    obtain ⟨rfl, _⟩ := Talk.runs_done_iff.mp warned
    exact Or.inr ⟨reason, rfl⟩

theorem exchanges_of_save (run : (a.save id name v).Runs events u) : exchanges events = [] := by
  rcases events_of_save run with rfl | ⟨reason, rfl⟩ <;> rfl

end Archive

namespace Step

variable {d : Step} {serverUrl : Option String} {request : Request}
  {reply : Except TransportFault Response}

theorem request_conclude : (d.conclude serverUrl request reply).request = some request := by
  unfold conclude
  split
  · rfl
  · split <;> rfl

end Step

namespace Session

variable {s t : Session} {id : String} {d : Step} {opts : RunOptions}

theorem exchanges_of_keep {archive : Option Archive} {request : Request} {r : StepResult}
    {events : List Event} {u : Unit} (run : (keep archive id request r).Runs events u) :
    exchanges events = [] := by
  cases archive with
  | none =>
    obtain ⟨rfl, _⟩ := Talk.runs_done_iff.mp run
    rfl
  | some a =>
    obtain ⟨first, second, _, rfl, requestFile, responseFile⟩ := Talk.runs_bind_iff.mp run
    rw [exchanges_append, Archive.exchanges_of_save requestFile, List.nil_append]
    split at responseFile
    · obtain ⟨rfl, _⟩ := Talk.runs_done_iff.mp responseFile
      rfl
    · exact Archive.exchanges_of_save responseFile

/-! ## Admission -/

/-- A step can be attempted when it is automatic, not completed, and its prerequisites are. -/
theorem requireRunnable_ok_iff (h : s.Consistent) :
    s.requireRunnable id = .ok d ↔ s.flow.step? id = some d ∧ d.manual = false ∧
      s.isCompleted id = false ∧ s.missing id = [] := by
  simp only [requireRunnable, bind_ok_iff, step_ok_iff, check_ok_iff, throw_ok_iff, imp_false,
    Bool.not_eq_true, Bool.not_eq_true', Bool.not_eq_false, pure_ok_iff, List.contains_iff_mem]
  constructor
  · rintro ⟨d, found, automatic, incomplete, ids, ok, mem, rfl⟩
    have waits := ((mem_eligible_iff h ok).mp mem).2.2
    exact ⟨found, automatic, incomplete, missing_eq_nil_iff.mpr waits⟩
  · rintro ⟨found, automatic, incomplete, ready⟩
    refine ⟨d, found, automatic, incomplete, _, eligible_eq h, ?_, rfl⟩
    exact (mem_eligible_iff h (eligible_eq h)).mpr
      ⟨Flow.mem_order_of_step? found, incomplete, missing_eq_nil_iff.mp ready⟩

theorem record_unrendered (h : s.Consistent) (admitted : s.requireRunnable id = .ok d)
    (f : RenderFault) : s.record id (unrendered f) = .ok (s.store id (unrendered f)) := by
  obtain ⟨found, _, incomplete, _⟩ := (requireRunnable_ok_iff h).mp admitted
  exact record_ok_iff.mpr ⟨d, found, incomplete, fun done => (by cases done), rfl⟩

/-- A step that can be attempted can be marked as running, unless it is so already. -/
theorem markRunning_of_runnable (h : s.Consistent) (admitted : s.requireRunnable id = .ok d)
    (idle : s.status id ≠ .running) (request : Request) :
    s.markRunning id request = .ok (s.store id (underWay request)) := by
  obtain ⟨found, automatic, incomplete, ready⟩ := (requireRunnable_ok_iff h).mp admitted
  exact markRunning_ok_iff.mpr ⟨d, found, automatic, incomplete, idle, ready, rfl⟩

/-- Marking a step completes nothing and undoes nothing, so that its result can be recorded. -/
theorem record_settled (h : s.Consistent) (admitted : s.requireRunnable id = .ok d)
    {request : Request} {r : StepResult} :
    (s.store id (underWay request)).record id r = .ok (s.store id r) := by
  obtain ⟨found, _, incomplete, ready⟩ := (requireRunnable_ok_iff h).mp admitted
  exact record_ok_iff.mpr ⟨d, found, isCompleted_store_self s id _,
    fun _ => missing_store incomplete _ ready, store_store ..⟩

/-! ## Endings -/

/-- How an attempt of a step can end: the requests that it sends, and what comes back. -/
inductive Attempted (s : Session) (id : String) (opts : RunOptions) :
    List (Wire × Outcome) → Except Misuse (Session × StepResult) → Prop
  | forbidden {m : Misuse} (why : s.requireRunnable id = .error m ∨ s.status id = .running) :
      Attempted s id opts [] (.error m)
  | unrendered {d : Step} {f : RenderFault} (admitted : s.requireRunnable id = .ok d)
      (faulty : s.render id = .ok (.error f)) :
      Attempted s id opts [] (.ok (s.store id (unrendered f), unrendered f))
  | settled {d : Step} {request : Request} {sending : List Event}
      {reply : Except TransportFault Response} (admitted : s.requireRunnable id = .ok d)
      (rendered : s.render id = .ok (.ok request)) (idle : s.status id ≠ .running)
      (exchanged : (exchange request opts.limit).Runs sending reply) :
      Attempted s id opts (exchanges sending)
        (.ok (s.store id (d.conclude opts.serverUrl request reply),
          d.conclude opts.serverUrl request reply))

/-- Once the step is marked as running, the result of its request is stored. -/
theorem attempted_of_settle (h : s.Consistent) {request : Request}
    (admitted : s.requireRunnable id = .ok d) (rendered : s.render id = .ok (.ok request))
    (idle : s.status id ≠ .running) {events : List Event}
    {out : Except Misuse (Session × StepResult)}
    (run : (settle (s.store id (underWay request)) d request opts).Runs events out) :
    Attempted s id opts (exchanges events) out := by
  obtain ⟨found, _⟩ := (requireRunnable_ok_iff h).mp admitted
  obtain ⟨executing, rest, r, rfl, executed, stores⟩ := Talk.runs_bind_iff.mp run
  obtain ⟨sending, _, reply, rfl, exchanged, concluded⟩ := Talk.runs_bind_iff.mp executed
  obtain ⟨rfl, rfl⟩ := Talk.runs_done_iff.mp concluded
  rw [Flow.id_of_step? found, record_settled h admitted] at stores
  obtain ⟨keeping, _, _, rfl, kept, told⟩ := Talk.runs_bind_iff.mp stores
  obtain ⟨_, rfl, ended⟩ := Talk.runs_note_iff.mp told
  obtain ⟨rfl, rfl⟩ := Talk.runs_done_iff.mp ended
  rw [List.append_nil, exchanges_append, exchanges_append, exchanges_of_keep kept, exchanges_said,
    exchanges_nil, List.append_nil, List.append_nil]
  exact .settled admitted rendered idle exchanged

theorem attempted_of_perform (h : s.Consistent) (admitted : s.requireRunnable id = .ok d)
    {events : List Event} {out : Except Misuse (Session × StepResult)}
    (run : (perform s d opts).Runs events out) : Attempted s id opts (exchanges events) out := by
  obtain ⟨found, automatic, _⟩ := (requireRunnable_ok_iff h).mp admitted
  have same : d.id = id := Flow.id_of_step? found
  obtain ⟨outcome, rendered⟩ := exists_render (s := s) found automatic
  unfold perform at run
  rw [same, rendered] at run
  cases outcome with
  | error f =>
    simp only [record_unrendered h admitted f] at run
    obtain ⟨_, rfl, ended⟩ := Talk.runs_note_iff.mp run
    obtain ⟨rfl, rfl⟩ := Talk.runs_done_iff.mp ended
    exact .unrendered admitted rendered
  | ok request =>
    obtain ⟨rest, rfl, marks⟩ := Talk.runs_note_iff.mp run
    rw [exchanges_said]
    -- A request that is under way already is the one thing that can still stop the attempt.
    by_cases idle : s.status id = .running
    · cases marked : s.markRunning id request with
      | ok t =>
        obtain ⟨_, _, _, _, resting, _⟩ := markRunning_ok_iff.mp marked
        exact absurd idle resting
      | error m =>
        rw [marked] at marks
        obtain ⟨rfl, rfl⟩ := Talk.runs_done_iff.mp marks
        exact .forbidden (Or.inr idle)
    · rw [markRunning_of_runnable h admitted idle request] at marks
      exact attempted_of_settle h admitted rendered idle marks

/-- An attempt ends in one of the listed ways. -/
theorem attempted_of_runs (h : s.Consistent) {events : List Event}
    {out : Except Misuse (Session × StepResult)} (run : (s.attempt id opts).Runs events out) :
    Attempted s id opts (exchanges events) out := by
  unfold attempt at run
  cases admitted : s.requireRunnable id with
  | error m =>
    rw [admitted] at run
    obtain ⟨rfl, rfl⟩ := Talk.runs_done_iff.mp run
    exact .forbidden (Or.inl admitted)
  | ok d =>
    rw [admitted] at run
    obtain ⟨rest, rfl, performed⟩ := Talk.runs_note_iff.mp run
    rw [exchanges_said]
    exact attempted_of_perform h admitted performed

/-- The session that is left when an attempt has ended. -/
def leftBy (s : Session) : Except Misuse (Session × StepResult) → Session
  | .ok (t, _) => t
  | .error _ => s

/-- An attempt leaves the session as it is or with one more result, whose request, if it has one, is
the one that was rendered. -/
theorem Attempted.leftBy_cases {sent : List (Wire × Outcome)}
    {out : Except Misuse (Session × StepResult)} (a : Attempted s id opts sent out)
    (h : s.Consistent) :
    s.leftBy out = s ∨ ∃ r, s.leftBy out = s.store id r ∧ id ∈ s.flow.order ∧
      s.isCompleted id = false ∧ s.missing id = [] ∧
        ∀ request, r.request = some request → s.render id = .ok (.ok request) := by
  cases a with
  | forbidden => exact Or.inl rfl
  | unrendered admitted _ =>
    obtain ⟨found, _, incomplete, ready⟩ := (requireRunnable_ok_iff h).mp admitted
    exact Or.inr ⟨_, rfl, Flow.mem_order_of_step? found, incomplete, ready,
      fun request stored => by cases stored⟩
  | settled admitted rendered _ _ =>
    obtain ⟨found, _, incomplete, ready⟩ := (requireRunnable_ok_iff h).mp admitted
    refine Or.inr ⟨_, rfl, Flow.mem_order_of_step? found, incomplete, ready,
      fun request stored => ?_⟩
    rw [Step.request_conclude] at stored
    cases stored
    exact rendered

theorem Consistent.attempted {sent : List (Wire × Outcome)}
    {out : Except Misuse (Session × StepResult)} (h : s.Consistent)
    (a : Attempted s id opts sent out) : (s.leftBy out).Consistent := by
  rcases a.leftBy_cases h with same | ⟨r, stored, declared, incomplete, ready, _⟩
  · rw [same]
    exact h
  · rw [stored]
    exact h.store declared incomplete fun _ => ready

end Session

end Walkthrough
