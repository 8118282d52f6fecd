import Walkthrough.Session.Command
import Walkthrough.Proofs.Summary

/-!
# Reasons against a step

Before a step is run or completed, the command line looks for a reason against it. What it looks at
is put together in `Session.reason?`. There is no such reason exactly when the engine accepts the
step, in every session without a step under way (`Session.guards_agree`).
-/

namespace Walkthrough

/-- What stands against running a step or completing it by hand. -/
inductive Reason
  | unknown
  | otherKind
  | completed
  | waiting (missing : List String)
  deriving DecidableEq

/-- A reason in words, against completing the step by hand or against running it. -/
def Reason.text (id : String) (manual : Bool) : Reason → String
  | unknown => "No step '" ++ id ++ "'."
  | otherKind =>
    if manual then "Step '" ++ id ++ "' is not manual; use 'run " ++ id ++ "'."
    else "Step '" ++ id ++ "' is manual; use 'complete " ++ id ++ "'."
  | completed =>
    if manual then "Step '" ++ id ++ "' already completed."
    else "Step '" ++ id ++ "' already completed; use 'retry " ++ id ++ "'."
  | waiting missing => "Step '" ++ id ++ "' is waiting on " ++ Text.commaList missing ++ "."

namespace Session

open Walkthrough.Checks

variable {s t : Session} {id x : String} {manual : Bool} {d : Step} {opts : RunOptions}
  {events : List Event} {ids missing : List String}

/-! ## Reasons -/

/-- The reason against a step, which is to be completed by hand or else to be run. -/
def reason? (s : Session) (id : String) (manual : Bool) : Option Reason :=
  match s.flow.step? id with
  | none => some .unknown
  | some d =>
    if d.manual != manual then some .otherKind
    else if s.isCompleted id then some .completed
    else if (s.missing id).isEmpty then none
    else some (.waiting (s.missing id))

/-- Nothing stands against dealing with the step, be it a manual one or not. -/
def Clear (s : Session) (id : String) (manual : Bool) : Prop :=
  ∃ d, s.flow.step? id = some d ∧ d.manual = manual ∧ s.isCompleted id = false ∧ s.missing id = []

theorem reason?_eq_none_iff : s.reason? id manual = none ↔ s.Clear id manual := by
  unfold reason? Clear
  cases s.flow.step? id with
  | none => simp
  | some d =>
    by_cases kind : d.manual = manual <;> by_cases done : s.isCompleted id <;> simp [kind, done]

theorem missing_of_reason? (h : s.reason? id manual = some (.waiting missing)) :
    missing = s.missing id ∧ missing ≠ [] := by
  unfold reason? at h
  split at h
  next => cases h
  next =>
    repeat' split at h
    all_goals cases h
    exact ⟨rfl, by simpa using ‹¬(s.missing id).isEmpty = true›⟩

/-- A declared step that is neither completed nor eligible waits for another. -/
theorem Consistent.whyBlocked_eq (h : s.Consistent) (found : s.flow.step? id = some d)
    (incomplete : s.isCompleted id = false) :
    s.whyBlocked id = .ok ((s.reason? id d.manual).map (Reason.text id d.manual)) := by
  have told := eligible_eq h
  have ready : id ∈ eligibleAmong s.flow s.completed ↔ s.missing id = [] := by
    rw [mem_eligible_iff h told, missing_eq_nil_iff]
    simp [Flow.mem_order_of_step? found, incomplete]
  rw [whyBlocked, told]
  by_cases none : s.missing id = [] <;>
    simp [Except.map, reason?, found, incomplete, ready, none, Reason.text]

theorem Consistent.whyNotRunnable_eq (h : s.Consistent) (id : String) :
    s.whyNotRunnable id = .ok ((s.reason? id false).map (Reason.text id false)) := by
  cases found : s.flow.step? id with
  | none => simp [whyNotRunnable, reason?, found, Reason.text]
  | some d =>
    cases kind : d.manual with
    | true => simp [whyNotRunnable, reason?, found, kind, Reason.text]
    | false =>
      cases done : s.isCompleted id with
      | true => simp [whyNotRunnable, reason?, found, kind, done, Reason.text]
      | false =>
        rw [← kind, ← h.whyBlocked_eq found done]
        simp [whyNotRunnable, found, kind, done]

theorem Consistent.whyNotCompletable_eq (h : s.Consistent) (id : String) :
    s.whyNotCompletable id = .ok ((s.reason? id true).map (Reason.text id true)) := by
  cases found : s.flow.step? id with
  | none => simp [whyNotCompletable, reason?, found, Reason.text]
  | some d =>
    cases kind : d.manual with
    | false => simp [whyNotCompletable, reason?, found, kind, Reason.text]
    | true =>
      cases done : s.isCompleted id with
      | true => simp [whyNotCompletable, reason?, found, kind, done, Reason.text]
      | false =>
        rw [← kind, ← h.whyBlocked_eq found done]
        simp [whyNotCompletable, found, kind, done]

/-! ## The engine -/

theorem exists_requireRunnable_iff (h : s.Consistent) :
    (∃ d, s.requireRunnable id = .ok d) ↔ s.Clear id false :=
  exists_congr fun _ => requireRunnable_ok_iff h

theorem exists_completeManual_iff (fields : Fields) :
    (∃ t, s.completeManual id fields = .ok t) ↔ s.Clear id true := by
  simp only [completeManual_ok_iff, Clear]
  rw [exists_comm]
  simp

/-- An attempt comes to a result exactly when nothing stands against it, with whatever server. -/
theorem Consistent.attempt_ok_iff (h : s.Consistent) (idle : s.status id ≠ .running)
    {out : Except Misuse (Session × StepResult)} (run : (s.attempt id opts).Runs events out) :
    (∃ p, out = .ok p) ↔ s.Clear id false := by
  have ended := attempted_of_runs h run
  generalize exchanges events = sent at ended
  rw [← exists_requireRunnable_iff h]
  cases ended with
  | forbidden why =>
    have refused := why.resolve_right idle
    simp [refused]
  | unrendered admitted _ => simp [admitted]
  | settled admitted _ _ _ => simp [admitted]

theorem requirePrerequisites_error_iff {m : Misuse} :
    s.requirePrerequisites id = .error m ↔ s.missing id ≠ [] ∧ .waiting id (s.missing id) = m := by
  by_cases none : s.missing id = [] <;> simp [requirePrerequisites, none]

theorem step_error_iff {m : Misuse} :
    s.step id = .error m ↔ s.flow.step? id = none ∧ .unknownStep id = m := by
  unfold step
  cases s.flow.step? id <;> simp

/-- A call that is refused because a step waits names what the step waits for. -/
theorem missing_of_answer {c : Call} (refused : s.answer c = .error (.waiting id missing)) :
    missing = s.missing id ∧ missing ≠ [] := by
  have waits : ∀ {x}, s.requirePrerequisites x = .error (.waiting id missing) →
      missing = s.missing id ∧ missing ≠ [] := by
    intro x why
    obtain ⟨some, same⟩ := requirePrerequisites_error_iff.mp why
    cases same
    exact ⟨rfl, some⟩
  cases c with
  | markRunning x request =>
    simp only [answer, markRunning, bind_error_iff, check_error_iff, step_error_iff,
      throw_error_iff, throw_ok_iff, beq_iff_eq, pure, Except.pure, reduceCtorEq, imp_false,
      Bool.not_eq_true, and_false, or_false, false_or, exists_const] at refused
    obtain ⟨_, _, _, _, _, why⟩ := refused
    exact waits why
  | record x r =>
    simp only [answer, record, bind_error_iff, check_error_iff, step_error_iff, throw_error_iff,
      throw_ok_iff, beq_iff_eq, pure, Except.pure, reduceCtorEq, imp_false, Bool.not_eq_true,
      and_false, or_false, false_or] at refused
    obtain ⟨_, _, _, _, why⟩ := refused
    exact waits why
  | completeManual x fields =>
    simp only [answer, completeManual, bind_error_iff, check_error_iff, step_error_iff,
      throw_error_iff, throw_ok_iff, Bool.not_eq_eq_eq_not, Bool.not_true, pure, Except.pure,
      reduceCtorEq, imp_false, Bool.not_eq_false, Bool.not_eq_true, and_false, or_false, false_or,
      exists_const] at refused
    obtain ⟨_, _, _, _, why⟩ := refused
    exact waits why
  | restart x =>
    cases known : s.step x with
    | ok d => simp [answer, restart, known, ok_bind, pure, Except.pure, Except.map] at refused
    | error m =>
      obtain ⟨_, rfl⟩ := step_error_iff.mp known
      simp [answer, restart, known, Except.map] at refused

/-! ## The classifier -/

/-- The standings name every step once, and a step is blocked exactly when it waits for others. -/
structure Classified (s : Session) (ids : List String) (standings : List Standing) : Prop where
  each : standings.map (·.id) = s.flow.order
  waits : ∀ e ∈ standings, e.waitingOn = if e.view = .blocked then s.missing e.id else []
  blocked_iff : ∀ e ∈ standings, e.waitingOn ≠ [] ↔ e.view = .blocked
  eligible : viewed standings .eligible = ids.filter fun id => s.status id != .failed

theorem waitingOn_standing :
    (standing s.flow s ids id).waitingOn =
      if (standing s.flow s ids id).view = .blocked then s.missing id else [] := by
  unfold standing
  cases s.status id with
  | pending => by_cases mem : id ∈ ids <;> simp [mem, Session.missing]
  | completed | running | failed => rfl

theorem Consistent.missing_of_blocked (h : s.Consistent) (told : s.eligible = .ok ids)
    (declared : id ∈ s.flow.order) (blocked : (standing s.flow s ids id).view = .blocked) :
    s.missing id ≠ [] := by
  obtain ⟨pending, absent⟩ := (view_eq_iff .blocked).mp blocked
  intro ready
  exact absent ((mem_eligible_iff h told).mpr
    ⟨declared, by simp [isCompleted, pending], missing_eq_nil_iff.mp ready⟩)

/-- Of the eligible steps those that have failed are viewed as failed. -/
theorem Consistent.view_eligible_iff (h : s.Consistent) (told : s.eligible = .ok ids)
    (idle : s.status id ≠ .running) :
    (standing s.flow s ids id).view = .eligible ↔ s.status id ≠ .failed ∧ id ∈ ids := by
  rw [view_eq_iff, Stands]
  refine and_congr_left fun mem => ?_
  have incomplete := ((mem_eligible_iff h told).mp mem).2.1
  unfold isCompleted at incomplete
  cases status : s.status id with
  | pending | failed => simp
  | running => exact absurd status idle
  | completed => simp [status] at incomplete

theorem Consistent.classified (h : s.Consistent) (idle : ∀ id, s.status id ≠ .running) :
    ∃ ids standings, s.eligible = .ok ids ∧ s.classify = .ok standings ∧
      Classified s ids standings := by
  have told := eligible_eq h
  have ordered : s.flow.order.filter (· ∈ eligibleAmong s.flow s.completed) =
      eligibleAmong s.flow s.completed :=
    List.filter_congr fun id declared => by
      rw [Bool.eq_iff_iff]
      simp [eligibleAmong, declared]
  generalize eligibleAmong s.flow s.completed = ids at told ordered
  have classified : s.classify = .ok (s.flow.order.map (standing s.flow s ids)) := by
    unfold Session.eligible at told
    rw [classify, classifyIn, told]
    rfl
  refine ⟨ids, _, told, classified, ?_, ?_, ?_, ?_⟩
  · simp [Function.comp_def, id_standing]
  · intro e mem
    obtain ⟨id, _, rfl⟩ := List.mem_map.mp mem
    rw [id_standing]
    exact waitingOn_standing
  · intro e mem
    obtain ⟨id, declared, rfl⟩ := List.mem_map.mp mem
    rw [waitingOn_standing]
    split
    next blocked => exact iff_of_true (h.missing_of_blocked told declared blocked) blocked
    next other => exact iff_of_false (fun some => some rfl) other
  · calc viewed (s.flow.order.map (standing s.flow s ids)) .eligible
        = s.flow.order.filter fun id => (s.status id != .failed) && decide (id ∈ ids) := by
          rw [viewed_map]
          refine List.filter_congr fun id _ => ?_
          rw [Bool.eq_iff_iff, beq_iff_eq, h.view_eligible_iff told (idle id)]
          simp
      _ = ids.filter fun id => s.status id != .failed := by
          rw [← List.filter_filter, ordered]

/-! ## All sessions -/

/-- In every session that calls lead to, with no step under way, the reasons that the command line
gives agree with the engine: there is none exactly when the attempt, or the completion by hand, is
not refused, and what is said to be waited for is never nothing. The classifier has every step once,
with the eligible steps as the engine has them, unless they have failed. -/
theorem guards_agree {doc : Option Value} (compiled : Flow.ofDocument doc = .ok s.flow)
    (new : s.IsNew) {calls : List Call} (reached : s.afterAll calls = t)
    (idle : ∀ id, t.status id ≠ .running) :
    (∀ id, t.whyNotRunnable id = .ok ((t.reason? id false).map (Reason.text id false)) ∧
      ∀ opts, (∃ events out, (t.attempt id opts).Runs events out) ∧
        ∀ events out, (t.attempt id opts).Runs events out →
          (t.whyNotRunnable id = .ok none ↔ ∃ p, out = .ok p)) ∧
    (∀ id, t.whyNotCompletable id = .ok ((t.reason? id true).map (Reason.text id true)) ∧
      ∀ fields, t.whyNotCompletable id = .ok none ↔ ∃ u, t.completeManual id fields = .ok u) ∧
    (∀ id manual missing, t.reason? id manual = some (.waiting missing) →
      missing = t.missing id ∧ missing ≠ []) ∧
    (∀ c id missing, t.answer c = .error (.waiting id missing) →
      missing = t.missing id ∧ missing ≠ []) ∧
    t.flow.order.Nodup ∧
    ∃ ids standings, t.eligible = .ok ids ∧ t.classify = .ok standings ∧
      Classified t ids standings := by
  have consistent : t.Consistent := reached ▸ new.consistent_afterAll calls
  have flow : t.flow = s.flow := reached ▸ flow_afterAll s calls
  have wf := Flow.wellFormed_of_ofDocument compiled
  rw [← flow] at wf
  refine ⟨fun id => ⟨consistent.whyNotRunnable_eq id, fun opts => ⟨?_, fun events out run => ?_⟩⟩,
    fun id => ⟨consistent.whyNotCompletable_eq id, fun fields => ?_⟩,
    fun _ _ _ why => missing_of_reason? why, fun _ _ _ refused => missing_of_answer refused,
    wf.distinct, consistent.classified idle⟩
  · obtain ⟨events, out, run, _⟩ :=
      Talk.exists_runs (fun _ => .answered ⟨200, "OK", [], .ok ""⟩) (t.attempt id opts)
    exact ⟨events, out, run⟩
  · rw [consistent.whyNotRunnable_eq, consistent.attempt_ok_iff (idle id) run,
      ← reason?_eq_none_iff]
    simp
  · rw [consistent.whyNotCompletable_eq, exists_completeManual_iff, ← reason?_eq_none_iff]
    simp

/-- A step has failed, another has a result that says that it is pending, and a third waits for
it. -/
theorem guards_agree_after_reports : ∃ (doc : Value) (s t : Session),
    Flow.ofDocument (some doc) = .ok s.flow ∧ s.IsNew ∧ (∀ id, t.status id ≠ .running) ∧
      t.status "fetch" = .failed ∧ t.whyNotRunnable "fetch" = .ok none ∧
        (∃ events p, (t.attempt "fetch" { limit := .ofInt 1000 }).Runs events (.ok p)) ∧
          t.whyNotCompletable "sign" = .ok (some "Step 'sign' is waiting on list.") ∧
            (∀ fields, ¬∃ u, t.completeManual "sign" fields = .ok u) ∧
              ∃ ids standings, t.eligible = .ok ids ∧ t.classify = .ok standings ∧
                Classified t ids standings ∧ ids = ["list", "fetch"] ∧
                  viewed standings .eligible = ["list"] := by
  let s : Session :=
    { flow :=
        { steps :=
            [⟨"list", "list", "", [], [], [], some ⟨"GET", "/list", [], none, none⟩, []⟩,
              ⟨"fetch", "fetch", "", [], [], [], some ⟨"GET", "/f", [], none, none⟩, []⟩,
              ⟨"sign", "sign", "", [], [], ["list"], none, []⟩]
          endpointDefaults := [], schedule := ["list", "fetch", "sign"], warnings := [] } }
  have compiled : Flow.ofDocument (some (.mapping
      [("steps", .list [.mapping [("id", .text "list")], .mapping [("id", .text "fetch")],
          .mapping [("id", .text "sign"), ("manual", .bool true)]]),
        ("dependencies", .mapping [("sign", .list [.text "list"])]),
        ("requests", .mapping [("list", .mapping [("url", .text "/list")]),
          ("fetch", .mapping [("url", .text "/f")])])])) = .ok s.flow := rfl
  let t : Session := (s.store "list" { status := .pending, origin := .http }).store "fetch"
    { status := .failed, origin := .http }
  have reached : s.afterAll [.record "list" { status := .pending, origin := .http },
      .record "fetch" { status := .failed, origin := .http }] = t := rfl
  have idle : ∀ id, t.status id ≠ .running := by
    intro id
    simp only [t, status_store]
    split
    · simp
    · split
      · simp
      · simp [status, result?, s]
  obtain ⟨runs, completes, _, _, _, ids, standings, told, classified, right⟩ :=
    guards_agree (s := s) compiled rfl reached idle
  have free : t.whyNotRunnable "fetch" = .ok none := rfl
  have waits : t.whyNotCompletable "sign" = .ok (some "Step 'sign' is waiting on list.") := by
    decide +kernel
  obtain ⟨⟨events, out, run⟩, agrees⟩ := (runs "fetch").2 { limit := .ofInt 1000 }
  obtain ⟨p, rfl⟩ := (agrees events out run).mp free
  refine ⟨_, s, t, compiled, rfl, idle, rfl, free, ⟨events, p, run⟩, waits, ?_, ids, standings,
    told, classified, right, ?_, ?_⟩
  · intro fields accepted
    have none := ((completes "sign").2 fields).mpr accepted
    cases waits.symm.trans none
  · cases told
    decide +kernel
  · rw [right.eligible]
    cases told
    decide +kernel

end Session

end Walkthrough
