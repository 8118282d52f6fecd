import Walkthrough.Proofs.Rounds
import Walkthrough.Proofs.Schedule

/-!
# Walks are schedules

A walk deals with the steps in an order of its own: automatic steps first, and the manual steps when
nothing else is left. That order is one of the schedules, and the rounds of a walk suffice to finish
it. So a walk ends as every other schedule does.
-/

namespace Walkthrough.Session

variable {w : Surroundings} {opts : RunOptions} {s t u : Session} {id : String} {d : Step}
  {done attempted offered ids : List String} {f : Flow} {offers : Bool}

/-! ## Tours -/

/-- The walk has come to the session and has dealt with the steps in a schedule. -/
structure Tour (w : Surroundings) (opts : RunOptions) (s : Session)
    (attempted offered done : List String) (t : Session) : Prop where
  unfolds : Unfolds w opts s done t
  /-- A manual step that the user leaves is offered but not dealt with. -/
  dealt : ∀ id, id ∈ done ↔ id ∈ attempted ∨ id ∈ offered ∧ (w.fields? id).isSome = true
  automatic : ∀ id ∈ attempted, t.flow.isManual id = false
  manual : ∀ id ∈ offered, t.flow.isManual id = true
  distinct : (attempted ++ offered).Nodup
  declared : ∀ id ∈ attempted ++ offered, id ∈ t.flow.order

theorem Tour.listed (h : Tour w opts s attempted offered done t) : Dealt t.flow attempted offered :=
  ⟨h.automatic, h.manual, h.distinct, h.declared⟩

/-- A walk is finished when every eligible step has been attempted or offered. -/
theorem Tour.finished (h : Tour w opts s attempted offered done t) (told : t.eligible = .ok ids)
    (all : ∀ id ∈ ids, id ∈ attempted ∨ id ∈ offered ∨
      t.flow.isManual id = true ∧ w.fields? id = none) : Finished w done t := by
  refine ⟨ids, told, fun id mem => ?_⟩
  rcases all id mem with tried | asked | left
  · exact Or.inl ((h.dealt id).mpr (Or.inl tried))
  · cases given : w.fields? id with
    | none => exact Or.inr ⟨h.manual id asked, rfl⟩
    | some fields => exact Or.inl ((h.dealt id).mpr (Or.inr ⟨asked, by simp [given]⟩))
  · exact Or.inr left

theorem Tour.attempt (h : Tour w opts s attempted offered done t) (flow : u.flow = t.flow)
    (unfolds : Unfolds w opts s (id :: done) u) (automatic : t.flow.isManual id = false)
    (mem : id ∈ t.flow.order) (once : id ∉ attempted) :
    Tour w opts s (attempted ++ [id]) offered (id :: done) u := by
  have listed := h.listed.attempt automatic mem once
  rw [← flow] at listed
  refine ⟨unfolds, ?_, listed.automatic, listed.manual, listed.distinct, listed.declared⟩
  intro x
  rw [List.mem_cons, h.dealt x, List.mem_append, List.mem_singleton]
  tauto

theorem Tour.offer {more : List String} (h : Tour w opts s attempted offered done t)
    (flow : u.flow = t.flow) (unfolds : Unfolds w opts s more u)
    (dealt : ∀ x, x ∈ more ↔ x ∈ done ∨ x = id ∧ (w.fields? id).isSome = true)
    (manual : t.flow.isManual id = true) (mem : id ∈ t.flow.order) (once : id ∉ offered) :
    Tour w opts s attempted (offered ++ [id]) more u := by
  have listed := h.listed.offer manual mem once
  rw [← flow] at listed
  refine ⟨unfolds, ?_, listed.automatic, listed.manual, listed.distinct, listed.declared⟩
  intro x
  rw [dealt x, h.dealt x, List.mem_append, List.mem_singleton]
  constructor
  · rintro ((tried | old) | ⟨rfl, given⟩)
    · exact Or.inl tried
    · exact Or.inr ⟨Or.inl old.1, old.2⟩
    · exact Or.inr ⟨Or.inr rfl, given⟩
  · rintro (tried | ⟨old | rfl, given⟩)
    · exact Or.inl (Or.inl tried)
    · exact Or.inl (Or.inr ⟨old, given⟩)
    · exact Or.inr ⟨rfl, given⟩

/-! ## What a round comes to -/

theorem Tour.finished_of_none (h : Tour w opts s attempted offered done t)
    (asks : opts.Asks w.fields?) (told : t.eligible = .ok ids)
    (declared : ∀ id ∈ ids, id ∈ t.flow.order)
    (next : nextRound t.flow ids attempted offered opts.onManual.isSome = none) :
    Finished w done t := by
  refine h.finished told fun id mem => ?_
  obtain ⟨tried, asked⟩ := nextRound_none next declared id mem
  unfold RunOptions.Asks at asks
  cases kind : t.flow.isManual id with
  | false => exact Or.inl (tried kind)
  | true =>
    cases user : opts.onManual with
    | none =>
      rw [user] at asks
      exact Or.inr (Or.inr ⟨rfl, asks id⟩)
    | some offer => exact Or.inr (Or.inl (asked kind (by rw [user]; rfl)))

theorem Tour.after_attempt (h : Tour w opts s attempted offered done t)
    (progress : Progress w opts s done t) (told : t.eligible = .ok ids)
    (declared : ∀ id ∈ ids, id ∈ t.flow.order)
    (next : nextRound t.flow ids attempted offered offers = some (.attempt id))
    {events : List Event} {out : Except Misuse (Session × StepResult)}
    (run : (t.attempt id opts).Runs events out) (served : ServedBy w.server events) :
    ∃ r, out = .ok (t.store id r, r) ∧
      Tour w opts s (attempted ++ [id]) offered (id :: done) (t.store id r) := by
  obtain ⟨mem, automatic, once⟩ := nextRound_attempt next
  have fresh : id ∉ done := fun dealt => by
    rcases (h.dealt id).mp dealt with tried | ⟨asked, _⟩
    · exact once tried
    · rw [h.manual id asked] at automatic
      cases automatic
  obtain ⟨d, found, kind, _, ready⟩ := progress.ready told mem
  obtain ⟨r, _, rfl⟩ := (attempted_of_runs progress.consistent run).verdict progress.consistent
    found (kind ▸ automatic) ready (progress.untouched id fresh) served
  have unfolds := h.unfolds.attempt told mem automatic fresh run served
  exact ⟨r, rfl, h.attempt flow_store unfolds automatic (declared id mem) once⟩

theorem Tour.after_refusal (h : Tour w opts s attempted offered done t)
    (declared : ∀ id ∈ ids, id ∈ t.flow.order)
    (next : nextRound t.flow ids attempted offered offers = some (.offer d))
    (left : w.fields? d.id = none) : Tour w opts s attempted (offered ++ [d.id]) done t := by
  obtain ⟨mem, manual, once, _⟩ := nextRound_offer next
  exact h.offer rfl h.unfolds (fun x => by simp [left]) manual (declared d.id mem) once

theorem Tour.after_answer (h : Tour w opts s attempted offered done t)
    (progress : Progress w opts s done t) (told : t.eligible = .ok ids)
    (declared : ∀ id ∈ ids, id ∈ t.flow.order)
    (next : nextRound t.flow ids attempted offered offers = some (.offer d)) {fields : Fields}
    (given : w.fields? d.id = some fields) :
    t.completeManual d.id fields = .ok (t.store d.id (manualResult fields)) ∧
      Tour w opts s attempted (offered ++ [d.id]) (d.id :: done)
        (t.store d.id (manualResult fields)) := by
  obtain ⟨mem, manual, once, _⟩ := nextRound_offer next
  have fresh : d.id ∉ done := fun dealt => by
    rcases (h.dealt d.id).mp dealt with tried | ⟨asked, _⟩
    · rw [h.automatic d.id tried] at manual
      cases manual
    · exact once asked
  obtain ⟨e, found, kind, incomplete, ready⟩ := progress.ready told mem
  have completed : t.completeManual d.id fields = .ok (t.store d.id (manualResult fields)) :=
    completeManual_ok_iff.mpr ⟨e, found, kind ▸ manual, incomplete, ready, rfl⟩
  have unfolds := h.unfolds.complete told mem manual fresh given
  rw [after, Session.answer, completed] at unfolds
  refine ⟨completed, h.offer flow_store unfolds (fun x => ?_) manual (declared d.id mem) once⟩
  simp only [List.mem_cons, given, Option.isSome_some, and_true]
  exact or_comm

/-! ## Whole walks -/

/-- The rounds of a walk finish a schedule when there are as many as steps not dealt with. -/
theorem finished_of_rounds (reads : s.flow.ReadsAncestors) (new : s.IsNew)
    (asks : opts.Asks w.fields?) {fuel : Nat} (tour : Tour w opts s attempted offered done t)
    (enough : t.flow.order.length ≤ attempted.length + offered.length + fuel)
    {events : List Event} {out : Session × Except Misuse (List String)}
    (run : (rounds opts fuel t attempted offered).Runs events out)
    (served : ServedBy w.server events) :
    ∃ done executed, Unfolds w opts s done out.1 ∧ Finished w done out.1 ∧
      out.2 = .ok executed := by
  induction fuel generalizing t attempted offered done events with
  | zero =>
    -- Each round has dealt with another step, so none is left.
    have consistent := (progress_of_unfolds reads new tour.unfolds).consistent
    have told := eligible_eq consistent
    obtain ⟨_, rfl⟩ := Talk.runs_done_iff.mp run
    refine ⟨done, attempted, tour.unfolds, tour.finished told fun id mem => ?_, rfl⟩
    have declared := ((mem_eligible_iff consistent told).mp mem).1
    exact (tour.listed.mem_of_length enough declared).imp_right Or.inl
  | succ fuel ih =>
    have progress := progress_of_unfolds reads new tour.unfolds
    obtain ⟨ids, told⟩ : ∃ ids, t.eligible = .ok ids := ⟨_, eligible_eq progress.consistent⟩
    have declared : ∀ id ∈ ids, id ∈ t.flow.order := fun id mem =>
      ((mem_eligible_iff progress.consistent told).mp mem).1
    cases next : nextRound t.flow ids attempted offered opts.onManual.isSome with
    | none =>
      simp only [rounds, told, next] at run
      obtain ⟨_, rfl⟩ := Talk.runs_done_iff.mp run
      exact ⟨done, attempted, tour.unfolds, tour.finished_of_none asks told declared next, rfl⟩
    | some round =>
      cases round with
      | attempt id =>
        simp only [rounds, told, next] at run
        obtain ⟨first, second, reply, rfl, attempts, goesOn⟩ := Talk.runs_bind_iff.mp run
        obtain ⟨servedFirst, servedRest⟩ := servedBy_append_iff.mp served
        obtain ⟨r, rfl, more⟩ := tour.after_attempt progress told declared next attempts servedFirst
        refine ih more ?_ goesOn servedRest
        simp only [flow_store, List.length_append, List.length_singleton]
        omega
      | offer d =>
        unfold RunOptions.Asks at asks
        cases user : opts.onManual with
        | none =>
          -- Nothing is offered when there is nobody to answer.
          rw [user] at next
          exact absurd (nextRound_offer next).2.2.2 (by simp)
        | some offer =>
          rw [user] at asks next
          simp only [rounds, told, user, next] at run
          obtain ⟨first, second, reply, rfl, offers, goesOn⟩ := Talk.runs_bind_iff.mp run
          have servedRest := (servedBy_append_iff.mp served).2
          have answer := asks d first reply offers
          cases reply with
          | none =>
            refine ih (tour.after_refusal declared next answer.symm) ?_ goesOn servedRest
            simp only [List.length_append, List.length_singleton]
            omega
          | some fields =>
            obtain ⟨completed, more⟩ := tour.after_answer progress told declared next answer.symm
            simp only [completed] at goesOn
            obtain ⟨third, rfl, told⟩ := Talk.runs_note_iff.mp goesOn
            refine ih more ?_ told servedRest
            simp only [flow_store, List.length_append, List.length_singleton]
            omega

theorem tour_start : Tour w opts s [] [] [] s where
  unfolds := .start
  dealt := by simp
  automatic := by simp
  manual := by simp
  distinct := by simp
  declared := by simp

/-- A walk through a new session ends well, as a finished schedule. -/
theorem finished_of_walk (reads : s.flow.ReadsAncestors) (new : s.IsNew)
    (asks : opts.Asks w.fields?) {events : List Event} {out : Session × Except Misuse Summary}
    (run : (s.walk opts).Runs events out) (served : ServedBy w.server events) :
    ∃ done summary, Unfolds w opts s done out.1 ∧ Finished w done out.1 ∧
      out.2 = .ok summary := by
  obtain ⟨first, second, ⟨t, outcome⟩, rfl, goes, ends⟩ := Talk.runs_bind_iff.mp run
  have enough : s.flow.order.length ≤ 0 + 0 + s.flow.steps.length := by simp [Flow.order]
  obtain ⟨done, executed, unfolds, finished, outcome_eq⟩ := finished_of_rounds reads new asks
    tour_start enough goes (servedBy_append_iff.mp served).1
  obtain ⟨standings, classified⟩ :=
    exists_classify (progress_of_unfolds reads new unfolds).consistent
  subst outcome_eq
  simp only [classified] at ends
  obtain ⟨_, rfl, ended⟩ := Talk.runs_note_iff.mp ends
  obtain ⟨_, rfl⟩ := Talk.runs_done_iff.mp ended
  exact ⟨done, _, unfolds, finished, rfl⟩

/-- The outcome of a walkthrough does not depend on the schedule: where a flow has no warnings,
every schedule that is carried on to its end leaves the same results as a walk, which always
ends well. -/
theorem walk_eq_of_finished {doc : Option Value} (compiled : Flow.ofDocument doc = .ok s.flow)
    (quiet : s.flow.warnings = []) (new : s.IsNew) (asks : opts.Asks w.fields?)
    (unfolds : Unfolds w opts s done t) (finished : Finished w done t) :
    (∃ events out, (s.walk opts).Runs events out ∧ ServedBy w.server events) ∧
      ∀ events u outcome, (s.walk opts).Runs events (u, outcome) → ServedBy w.server events →
        (∃ summary, outcome = .ok summary) ∧ ∀ id, t.result? id = u.result? id := by
  have wf := Flow.wellFormed_of_ofDocument compiled
  have reads : s.flow.ReadsAncestors := fun d mem x source =>
    Flow.hasAncestor_of_mem_sources compiled quiet mem source
  refine ⟨Talk.exists_runs w.server (s.walk opts), fun events u outcome run served => ?_⟩
  obtain ⟨others, summary, walked, ended, success⟩ := finished_of_walk reads new asks run served
  exact ⟨⟨summary, success⟩, result?_eq_of_finished wf reads
    (progress_of_unfolds reads new unfolds) finished (progress_of_unfolds reads new walked) ended⟩

/-- Two requests that need nothing of each other, dealt with in the order in which a walk does not
deal with them; `Unfolds` lists the last one first. -/
theorem walk_eq_of_list_before_login : ∃ (doc : Value) (s t u : Session) (w : Surroundings)
    (opts : RunOptions) (events : List Event) (summary : Summary),
    Flow.ofDocument (some doc) = .ok s.flow ∧ Unfolds w opts s ["login", "list"] t ∧
      (s.walk opts).Runs events (u, .ok summary) ∧ summary.executed = ["login", "list"] ∧
      t.isCompleted "list" = true ∧ ∀ id, t.result? id = u.result? id := by
  let s : Session :=
    { flow :=
        { steps :=
            [⟨"login", "login", "", [], [], [], some ⟨"POST", "/login", [], none, none⟩, []⟩,
              ⟨"list", "list", "", [], [], [], some ⟨"GET", "/list", [], none, none⟩, []⟩]
          endpointDefaults := [], schedule := ["login", "list"], warnings := [] } }
  have compiled : Flow.ofDocument (some (.mapping
      [("steps", .list [.mapping [("id", .text "login")], .mapping [("id", .text "list")]]),
        ("requests", .mapping
          [("login", .mapping [("method", .text "POST"), ("url", .text "/login")]),
            ("list", .mapping [("url", .text "/list")])])])) = .ok s.flow := rfl
  -- The server answers with the method, so the two steps get different results.
  let answer (method : String) : Outcome := .answered ⟨200, "OK", [], .ok method⟩
  let w : Surroundings := ⟨fun sent => answer sent.method, fun _ => none⟩
  let opts : RunOptions := { limit := .ofInt 1000 }
  have alone : opts.Asks w.fields? := fun _ => rfl
  have list := @Unfolds.attempt w opts s [] ["login", "list"] s "list" _ _ .start rfl (by simp) rfl
    (by simp)
    (.note (.note (@Talk.Runs.send _ _ _ (answer "GET") _ _ (.note (.done _)))))
    (fun _ mem => by cases List.mem_singleton.mp mem; rfl)
  have both := @Unfolds.attempt w opts s ["list"] ["login"] _ "login" _ _ list rfl (by simp) rfl
    (by simp)
    (.note (.note (@Talk.Runs.send _ _ _ (answer "POST") _ _ (.note (.done _)))))
    (fun _ mem => by cases List.mem_singleton.mp mem; rfl)
  obtain ⟨events, ⟨u, outcome⟩, run, served, executed⟩ : ∃ events out,
      (s.walk opts).Runs events out ∧ ServedBy w.server events ∧
        out.2.toOption.map Summary.executed = some ["login", "list"] := by
    refine ⟨_, _, .note (.note (@Talk.Runs.send _ _ _ (answer "POST") _ _
      (.note (.note (.note (@Talk.Runs.send _ _ _ (answer "GET") _ _
        (.note (.note (.done _))))))))), ?_, rfl⟩
    intro e mem
    rcases List.mem_cons.mp mem with rfl | mem
    · rfl
    · cases List.mem_singleton.mp mem
      rfl
  obtain ⟨⟨summary, rfl⟩, same⟩ :=
    (walk_eq_of_finished compiled rfl rfl alone both ⟨[], rfl, by simp⟩).2 events u outcome run
      served
  exact ⟨_, s, _, u, w, opts, events, summary, compiled, both, run, Option.some.inj executed, rfl,
    same⟩

end Walkthrough.Session
