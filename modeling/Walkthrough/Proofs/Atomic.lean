import Walkthrough.Proofs.Steady
import Walkthrough.Settings

/-!
# An attempt is one step

An attempt is refused before anything is written or sent (`Session.Refuses`), or it is carried
through (`Session.Landed`): then one result is stored, which is final, and nothing else is changed.
The requests alone decide between them, not the files (`Session.attempt_is_atomic`).

One request goes out for a step that is rendered, as long as the time limit can be set. The settings
admit any positive number, of which a fraction cannot (`Session.unsent_with_fraction`).
-/

namespace Walkthrough

/-! ## Exchanges -/

namespace Exchange

/-- The time limits that can be set. -/
def Settable (limit : Number) : Prop :=
  ∃ n, limit.toInt? = some n ∧ 0 ≤ n ∧ n ≤ 4294967295

theorem limitComplaint?_eq_none_iff {limit : Number} :
    limitComplaint? limit = none ↔ Settable limit := by
  unfold limitComplaint? Settable
  cases limit.toInt? <;> simp

end Exchange

theorem Response.isSuccess_iff {status : Int} :
    isSuccess status = true ↔ 200 ≤ status ∧ status ≤ 299 := by
  simp [isSuccess]

/-- The answer has arrived with its body, and has a status of success. -/
def Outcome.Succeeds (o : Outcome) : Prop :=
  ∃ r body, o = .answered r ∧ r.body = .ok body ∧ 200 ≤ r.status ∧ r.status ≤ 299

variable {request : Request} {limit : Number} {events later : List Event}
  {reply other : Except TransportFault Response}

theorem runs_exchange (run : (exchange request limit).Runs events reply) :
    (¬Exchange.Settable limit ∧ exchanges events = [] ∧ ∃ f, reply = .error f) ∨
      Exchange.Settable limit ∧ ∃ o, exchanges events = [(request.wire, o)] ∧
        reply = Exchange.receive request.title limit o := by
  rw [← Exchange.limitComplaint?_eq_none_iff]
  unfold exchange at run
  split at run
  next complaint refused =>
    obtain ⟨rfl, rfl⟩ := Talk.runs_done_iff.mp run
    exact Or.inl ⟨by simp [refused], rfl, _, rfl⟩
  next settable =>
    obtain ⟨o, _, rfl, received⟩ := Talk.runs_send_iff.mp run
    obtain ⟨rfl, rfl⟩ := Talk.runs_done_iff.mp received
    exact Or.inr ⟨settable, o, rfl, rfl⟩

theorem exchange_unique (run : (exchange request limit).Runs events reply)
    (again : (exchange request limit).Runs later other)
    (same : exchanges later = exchanges events) : other = reply := by
  unfold exchange at run again
  split at run
  next complaint refused =>
    rw [refused] at again
    rw [(Talk.runs_done_iff.mp run).2, (Talk.runs_done_iff.mp again).2]
  next settable =>
    rw [settable] at again
    obtain ⟨o, _, rfl, received⟩ := Talk.runs_send_iff.mp run
    obtain ⟨o', _, rfl, receivedToo⟩ := Talk.runs_send_iff.mp again
    obtain ⟨rfl, rfl⟩ := Talk.runs_done_iff.mp received
    obtain ⟨rfl, rfl⟩ := Talk.runs_done_iff.mp receivedToo
    cases same
    rfl

namespace Step

variable {d : Step} {serverUrl : Option String}

theorem status_conclude_ok {response : Response} :
    (d.conclude serverUrl request (.ok response)).status = .completed ↔
      200 ≤ response.status ∧ response.status ≤ 299 := by
  by_cases success : Response.isSuccess response.status
  · simp [conclude, success, Response.isSuccess_iff.mp success]
  · simp [conclude, success, mt Response.isSuccess_iff.mpr success]

theorem status_conclude_receive {o : Outcome} :
    (d.conclude serverUrl request (Exchange.receive request.title limit o)).status = .completed ↔
      o.Succeeds := by
  unfold Outcome.Succeeds
  cases o with
  | failed t => simp [Exchange.receive, conclude]
  | answered r =>
    cases arrived : r.body with
    | error t => simp [Exchange.receive, conclude, arrived]
    | ok body => simp [Exchange.receive, status_conclude_ok, arrived]

theorem fields_conclude (failed : (d.conclude serverUrl request reply).status = .failed) :
    (d.conclude serverUrl request reply).fields = [] := by
  cases reply with
  | error f => rfl
  | ok response =>
    by_cases success : Response.isSuccess response.status
    · simp [conclude, success] at failed
    · simp [conclude, success]

end Step

namespace Session

variable {s t u : Session} {id : String} {d : Step} {r : StepResult} {m : Misuse}
  {opts more : RunOptions} {sent : List (Wire × Outcome)}

/-! ## Refusals -/

/-- The attempt of a step is refused, by the engine or by the session when the step is to be marked
as running, and before anything is written. -/
def Refuses (s : Session) (id : String) (m : Misuse) : Prop :=
  s.requireRunnable id = .error m ∨ ∃ d request, s.requireRunnable id = .ok d ∧
    s.render id = .ok (.ok request) ∧ s.markRunning id request = .error m

theorem Refuses.unique {n : Misuse} (first : s.Refuses id m) (second : s.Refuses id n) : m = n := by
  rcases first with refused | ⟨d, request, admitted, rendered, refused⟩ <;>
    rcases second with refusedToo | ⟨e, again, admittedToo, renderedToo, refusedToo⟩
  · cases refused.symm.trans refusedToo
    rfl
  · cases refused.symm.trans admittedToo
  · cases admitted.symm.trans refusedToo
  · cases rendered.symm.trans renderedToo
    cases refused.symm.trans refusedToo
    rfl

theorem Refuses.not_attempted_ok (h : s.Consistent) (refused : s.Refuses id m)
    {p : Session × StepResult} : ¬Attempted s id opts sent (.ok p) := by
  intro a
  rcases refused with refused | ⟨d, request, _, rendered, refused⟩
  · cases a with
    | unrendered admitted _ => cases refused.symm.trans admitted
    | settled admitted _ _ _ => cases refused.symm.trans admitted
  · cases a with
    | unrendered _ faulty => cases rendered.symm.trans faulty
    | settled admitted _ idle _ =>
      cases refused.symm.trans (markRunning_of_runnable h admitted idle request)

/-- Past the admission only a request that is under way is in the way. -/
theorem refuses_of_perform (h : s.Consistent) (admitted : s.requireRunnable id = .ok d)
    (running : s.status id = .running) (run : (perform s d opts).Runs events (.error m)) :
    s.Refuses id m := by
  obtain ⟨found, automatic, _⟩ := (requireRunnable_ok_iff h).mp admitted
  obtain ⟨outcome, rendered⟩ := exists_render (s := s) found automatic
  unfold perform at run
  rw [Flow.id_of_step? found, rendered] at run
  cases outcome with
  | error f =>
    simp only [record_unrendered h admitted f] at run
    obtain ⟨_, rfl, told⟩ := Talk.runs_note_iff.mp run
    cases (Talk.runs_done_iff.mp told).2
  | ok request =>
    obtain ⟨_, rfl, marks⟩ := Talk.runs_note_iff.mp run
    cases marked : s.markRunning id request with
    | ok t =>
      obtain ⟨_, _, _, _, idle, _⟩ := markRunning_ok_iff.mp marked
      exact absurd running idle
    | error n =>
      rw [marked] at marks
      cases (Talk.runs_done_iff.mp marks).2
      exact Or.inr ⟨d, request, admitted, rendered, marked⟩

/-- An attempt that is refused has sent and written nothing. -/
theorem refuses_of_runs (h : s.Consistent) (run : (s.attempt id opts).Runs events (.error m)) :
    exchanges events = [] ∧ s.Refuses id m := by
  have ended := attempted_of_runs h run
  generalize exchanges events = sent at ended
  cases ended with
  | forbidden why =>
    refine ⟨rfl, ?_⟩
    unfold attempt at run
    cases admitted : s.requireRunnable id with
    | error n =>
      rw [admitted] at run
      cases (Talk.runs_done_iff.mp run).2
      exact Or.inl admitted
    | ok d =>
      have running : s.status id = .running := by simpa [admitted] using why
      rw [admitted] at run
      obtain ⟨_, rfl, performed⟩ := Talk.runs_note_iff.mp run
      exact refuses_of_perform h admitted running performed

/-! ## Attempts that are carried through -/

/-- The accepted calls by which an attempt stores its result: a step that is not rendered is
recorded, any other is marked as running and then recorded. -/
inductive Written (s : Session) (id : String) (r : StepResult) (t : Session) : Prop
  | unrendered {f : RenderFault} (faulty : s.render id = .ok (.error f))
      (recorded : s.record id r = .ok t)
  | settled {request : Request} {running : Session} (rendered : s.render id = .ok (.ok request))
      (marked : s.markRunning id request = .ok running) (recorded : running.record id r = .ok t)

/-- The attempt of a step has come to a result: what it has sent, and the session after it. -/
structure Landed (opts : RunOptions) (s : Session) (id : String) (sent : List (Wire × Outcome))
    (t : Session) (r : StepResult) : Prop where
  final : r.status = .completed ∨ r.status = .failed
  written : s.Written id r t
  results : ∀ x, t.result? x = if id = x then some r else s.result? x
  alike : Alike s t
  once : sent = [] ∨ ∃ request o, s.render id = .ok (.ok request) ∧ sent = [(request.wire, o)]
  sent_iff : sent ≠ [] ↔
    (∃ request, s.render id = .ok (.ok request)) ∧ Exchange.Settable opts.limit
  completed_iff : r.status = .completed ↔
    ∃ request o, s.render id = .ok (.ok request) ∧ sent = [(request.wire, o)] ∧ o.Succeeds
  bare : r.status = .failed → r.fields = []

theorem landed_unrendered (h : s.Consistent) (admitted : s.requireRunnable id = .ok d)
    {f : RenderFault} (faulty : s.render id = .ok (.error f)) :
    Landed opts s id [] (s.store id (unrendered f)) (unrendered f) where
  final := Or.inr rfl
  written := .unrendered faulty (record_unrendered h admitted f)
  results x := result?_store s id x _
  alike := alike_store s id _
  once := Or.inl rfl
  sent_iff := by simp [faulty]
  completed_iff := by simp [faulty, unrendered]
  bare _ := rfl

theorem landed_settled (h : s.Consistent) (admitted : s.requireRunnable id = .ok d)
    (rendered : s.render id = .ok (.ok request)) (idle : s.status id ≠ .running)
    {sending : List Event} (exchanged : (exchange request opts.limit).Runs sending reply) :
    Landed opts s id (exchanges sending) (s.store id (d.conclude opts.serverUrl request reply))
      (d.conclude opts.serverUrl request reply) := by
  have marked := markRunning_of_runnable h admitted idle request
  refine ⟨Step.status_conclude _, .settled rendered marked (record_settled h admitted),
    fun x => result?_store s id x _, alike_store s id _, ?_, ?_, ?_, Step.fields_conclude⟩ <;>
    rcases runs_exchange exchanged with ⟨unset, none, f, rfl⟩ | ⟨set, o, one, rfl⟩
  · exact Or.inl none
  · exact Or.inr ⟨request, o, rendered, one⟩
  · simp [none, unset]
  · simp [one, set, rendered]
  · simp [none, Step.conclude]
  · rw [Step.status_conclude_receive, one]
    constructor
    · exact fun success => ⟨request, o, rendered, rfl, success⟩
    · rintro ⟨again, o', _, same, success⟩
      simp only [List.cons.injEq, Prod.mk.injEq] at same
      exact same.1.2 ▸ success

theorem Attempted.landed (h : s.Consistent) (a : Attempted s id opts sent (.ok (t, r))) :
    Landed opts s id sent t r := by
  cases a with
  | unrendered admitted faulty => exact landed_unrendered h admitted faulty
  | settled admitted rendered idle exchanged =>
    exact landed_settled h admitted rendered idle exchanged

/-! ## The archive -/

/-- What an attempt has sent decides on its result. -/
theorem Attempted.ok_unique {p q : Session × StepResult} {sentToo : List (Wire × Outcome)}
    (limit : more.limit = opts.limit) (base : more.serverUrl = opts.serverUrl)
    (a : Attempted s id opts sent (.ok p)) (b : Attempted s id more sentToo (.ok q))
    (same : sentToo = sent) : q = p := by
  cases a with
  | unrendered _ faulty =>
    cases b with
    | unrendered _ faultyToo =>
      cases faulty.symm.trans faultyToo
      rfl
    | settled _ rendered _ _ => cases faulty.symm.trans rendered
  | settled admitted rendered _ exchanged =>
    cases b with
    | unrendered _ faulty => cases rendered.symm.trans faulty
    | settled admittedToo renderedToo _ exchangedToo =>
      cases admitted.symm.trans admittedToo
      cases rendered.symm.trans renderedToo
      rw [limit] at exchangedToo
      rw [base, exchange_unique exchanged exchangedToo same]

/-- Two attempts that differ in the archive alone and send the same end alike. -/
theorem attempt_unique (h : s.Consistent) {out outToo : Except Misuse (Session × StepResult)}
    (run : (s.attempt id opts).Runs events out) (again : (s.attempt id more).Runs later outToo)
    (same : exchanges later = exchanges events) (limit : more.limit = opts.limit)
    (base : more.serverUrl = opts.serverUrl) : outToo = out := by
  cases out with
  | error m =>
    have refused := (refuses_of_runs h run).2
    cases outToo with
    | error n => rw [refused.unique (refuses_of_runs h again).2]
    | ok q => exact absurd (attempted_of_runs h again) (refused.not_attempted_ok h)
  | ok p =>
    cases outToo with
    | error n =>
      have refused := (refuses_of_runs h again).2
      exact absurd (attempted_of_runs h run) (refused.not_attempted_ok h)
    | ok q =>
      rw [(attempted_of_runs h run).ok_unique limit base (attempted_of_runs h again) same]

/-! ## All sessions -/

/-- The sessions that are come to by calls and attempts, one after the other. -/
inductive Reached (s : Session) : Session → Prop
  | start : Reached s s
  | call {t : Session} (prior : Reached s t) (c : Call) : Reached s (t.after c)
  | attempt {t : Session} {id : String} {opts : RunOptions} {events : List Event}
      {out : Except Misuse (Session × StepResult)} (prior : Reached s t)
      (run : (t.attempt id opts).Runs events out) : Reached s (t.leftBy out)

theorem Reached.consistent (reached : Reached s t) (new : s.IsNew) : t.Consistent := by
  induction reached with
  | start => exact new.consistent
  | call _ c ih => exact ih.after c
  | attempt _ run ih => exact ih.attempted (attempted_of_runs ih run)

/-- Whatever a session has come to, an attempt ends with any server. It is refused and has sent and
written nothing, or it is carried through: its result is final and stored, and no other is changed.
The archive and the files that cannot be written have no part in that: what is sent settles the
end. -/
theorem attempt_is_atomic (new : s.IsNew) (reached : Reached s t) (id : String)
    (opts : RunOptions) :
    (∀ server, ∃ events out, (t.attempt id opts).Runs events out ∧ ServedBy server events) ∧
    ∀ events out, (t.attempt id opts).Runs events out →
      ((∃ m, out = .error m ∧ exchanges events = [] ∧ t.Refuses id m) ∨
        ∃ u r, out = .ok (u, r) ∧ Landed opts t id (exchanges events) u r) ∧
      ∀ archive later other, (t.attempt id { opts with archive }).Runs later other →
        exchanges later = exchanges events → other = out := by
  have consistent := reached.consistent new
  refine ⟨fun server => Talk.exists_runs server _, fun events out run => ⟨?_, ?_⟩⟩
  · cases out with
    | error m => exact Or.inl ⟨m, rfl, refuses_of_runs consistent run⟩
    | ok p => exact Or.inr ⟨p.1, p.2, rfl, (attempted_of_runs consistent run).landed consistent⟩
  · intro archive later other again same
    exact attempt_unique consistent run again same rfl rfl

/-- The request has been lost once, and then neither of its files can be written. -/
theorem atomic_without_files : ∃ (doc : Value) (s t u : Session) (opts : RunOptions)
    (events : List Event) (r : StepResult),
    Flow.ofDocument (some doc) = .ok s.flow ∧ s.IsNew ∧ Reached s t ∧ t.status "list" = .failed ∧
      (t.attempt "list" opts).Runs events (.ok (u, r)) ∧
        Landed opts t "list" (exchanges events) u r ∧ u.status "list" = .completed ∧
          ∀ later other, (t.attempt "list" { opts with archive := none }).Runs later other →
            exchanges later = exchanges events → other = .ok (u, r) := by
  let s : Session :=
    { flow :=
        { steps :=
            [⟨"login", "login", "", [], [], [], none, []⟩,
              ⟨"list", "list", "", [], [], ["login"], some ⟨"GET", "/list", [], none, none⟩, []⟩]
          endpointDefaults := [], schedule := ["login", "list"], warnings := [] } }
  have compiled : Flow.ofDocument (some (.mapping
      [("steps", .list [.mapping [("id", .text "login"), ("manual", .bool true)],
          .mapping [("id", .text "list")]]),
        ("dependencies", .mapping [("list", .list [.text "login"])]),
        ("requests", .mapping [("list", .mapping [("url", .text "/list")])])])) = .ok s.flow := rfl
  let opts : RunOptions := { limit := .ofInt 1000, archive := some { run := "r1" } }
  let t : Session :=
    (s.after (.completeManual "login" [])).store "list"
      { status := .failed, origin := .http, request := some ⟨"GET", "/list", [], none, none⟩
        failure := some (.transport (.failed "GET /list" "lost")) }
  have lost : Reached s t := @Reached.attempt s _ "list" opts _ (.ok (_, _))
    (.call .start (.completeManual "login" []))
    (.note (.note (@Talk.Runs.send _ _ _ (.failed (.error "TypeError" "lost" none)) _ _
      (@Talk.Runs.save _ _ _ _ _ none _ _ (.note (.done _))))))
  have run : (t.attempt "list" opts).Runs _ (.ok (_, _)) :=
    .note (.note (@Talk.Runs.send _ _ _ (.answered ⟨200, "OK", [], .ok ""⟩) _ _
      (@Talk.Runs.save _ _ _ _ _ (some "full") _ _ (.note
        (@Talk.Runs.save _ _ _ _ _ (some "full") _ _ (.note (.note (.done _))))))))
  obtain ⟨ends, alone⟩ := (attempt_is_atomic (s := s) rfl lost "list" opts).2 _ _ run
  obtain ⟨_, ended, _⟩ | ⟨_, _, ended, landed⟩ := ends
  · cases ended
  · cases ended
    exact ⟨_, s, t, _, opts, _, _, compiled, rfl, lost, rfl, run, landed, rfl, alone none⟩

/-- The settings admit the time limit, the request is rendered, and none goes out. -/
theorem unsent_with_fraction : ∃ (doc : Value) (s : Session) (settings : Settings)
    (request : Request),
    Flow.ofDocument (some doc) = .ok s.flow ∧ s.IsNew ∧
      Settings.ofEnvironment [("HTTP_TIMEOUT_MS", "2500.5")] = .ok settings ∧
        s.render "list" = .ok (.ok request) ∧
          ∀ opts events out, opts.limit = settings.limit → (s.attempt "list" opts).Runs events out →
            exchanges events = [] ∧ ∃ u r, out = .ok (u, r) ∧ u.status "list" = .failed := by
  let s : Session :=
    { flow :=
        { steps := [⟨"list", "list", "", [], [], [], some ⟨"GET", "/list", [], none, none⟩, []⟩]
          endpointDefaults := [], schedule := ["list"], warnings := [] } }
  have compiled : Flow.ofDocument (some (.mapping
      [("steps", .list [.mapping [("id", .text "list")]]),
        ("requests", .mapping [("list", .mapping [("url", .text "/list")])])])) = .ok s.flow := rfl
  have admitted : Settings.ofEnvironment [("HTTP_TIMEOUT_MS", "2500.5")] =
      .ok { flowPath := Settings.defaultFlow, limit := .finite 5001 (-1) } := by decide +kernel
  refine ⟨_, s, _, _, compiled, rfl, admitted, rfl, fun opts events out set run => ?_⟩
  have new : s.IsNew := rfl
  have unsettable : ¬Exchange.Settable opts.limit := by
    rintro ⟨n, whole, _⟩
    rw [set] at whole
    cases whole
  have ended := attempted_of_runs new.consistent run
  obtain ⟨r, rfl, final⟩ := new.steady.stored_of_attempted rfl rfl rfl rfl ended
  have landed := ended.landed new.consistent
  have none : exchanges events = [] := by_contra fun some => unsettable (landed.sent_iff.mp some).2
  refine ⟨none, _, r, rfl, ?_⟩
  rw [status_store, if_pos rfl]
  refine final.resolve_left fun done => ?_
  obtain ⟨_, _, _, one, _⟩ := landed.completed_iff.mp done
  rw [none] at one
  cases one

end Session

end Walkthrough
