import Walkthrough.Session.Walk
import Walkthrough.Proofs.Attempt

/-!
# Schedules

A schedule is any order in which the eligible steps of a new session are attempted and completed,
each at most once. With a server and a user that always answer alike, and rules that read from
ancestors alone, the result of a step is determined by the results of its ancestors: it is the
`Session.verdict` on the step, whenever that is reached. So all schedules that cannot be continued
end with the same results (`Session.result?_eq_of_settled`).
-/

namespace Walkthrough

/-- What a walkthrough meets with: a server that ends a request as a function of that request, and a
user with fixed fields, or none, for each manual step. -/
structure Surroundings where
  server : Wire → Outcome
  fields? : String → Option Fields

/-- The user is asked about manual steps and answers as fixed, or is not asked and has no answer. -/
def RunOptions.Asks (opts : RunOptions) (fields? : String → Option Fields) : Prop :=
  match opts.onManual with
  | some offer => ∀ d events answer, (offer d).Runs events answer → answer = fields? d.id
  | none => ∀ id, fields? id = none

/-- Every step reads from its ancestors alone. -/
def Flow.ReadsAncestors (f : Flow) : Prop :=
  ∀ d ∈ f.steps, ∀ x ∈ d.sources, f.HasAncestor d.id x

namespace Session

variable {w : Surroundings} {opts : RunOptions} {s t u : Session} {id x : String} {d : Step}
  {r : StepResult} {done : List String}

/-! ## Schedules and verdicts -/

/-- The session can be come to by a schedule that has dealt with the listed steps. -/
inductive Unfolds (w : Surroundings) (opts : RunOptions) (s : Session) :
    List String → Session → Prop
  | start : Unfolds w opts s [] s
  | attempt {done ids : List String} {t : Session} {id : String} {events : List Event}
      {out : Except Misuse (Session × StepResult)} (prior : Unfolds w opts s done t)
      (told : t.eligible = .ok ids) (mem : id ∈ ids) (automatic : t.flow.isManual id = false)
      (once : id ∉ done) (run : (t.attempt id opts).Runs events out)
      (served : ServedBy w.server events) : Unfolds w opts s (id :: done) (t.leftBy out)
  | complete {done ids : List String} {t : Session} {id : String} {fields : Fields}
      (prior : Unfolds w opts s done t) (told : t.eligible = .ok ids) (mem : id ∈ ids)
      (manual : t.flow.isManual id = true) (once : id ∉ done) (given : w.fields? id = some fields) :
      Unfolds w opts s (id :: done) (t.after (.completeManual id fields))

/-- Every eligible step has been dealt with or is a manual step that the user leaves. -/
def Finished (w : Surroundings) (done : List String) (t : Session) : Prop :=
  ∃ ids, t.eligible = .ok ids ∧
    ∀ id ∈ ids, id ∈ done ∨ t.flow.isManual id = true ∧ w.fields? id = none

/-- The result that a step gets when it is dealt with; none for a manual step that the user
leaves. -/
def verdict (w : Surroundings) (opts : RunOptions) (t : Session) (d : Step) : Option StepResult :=
  if d.manual then (w.fields? d.id).map manualResult
  else
    match t.render d.id with
    | .error _ => none
    | .ok (.error f) => some (unrendered f)
    | .ok (.ok request) =>
      some (d.conclude opts.serverUrl request (replyOf w.server opts.limit request))

theorem verdict_congr (alike : Alike t u) (found : t.flow.step? id = some d)
    (h : ∀ x ∈ d.sources, t.result? x = u.result? x) : verdict w opts t d = verdict w opts u d := by
  have same : d.id = id := Flow.id_of_step? found
  rw [verdict, verdict, same, render_congr alike found h]

/-! ## What a schedule preserves -/

/-- The steps that have been dealt with have their verdicts, and no other step has a result. -/
structure Progress (w : Surroundings) (opts : RunOptions) (s : Session) (done : List String)
    (t : Session) : Prop where
  consistent : t.Consistent
  alike : Alike s t
  judged : ∀ id ∈ done, ∃ d, t.flow.step? id = some d ∧ t.missing id = [] ∧
    t.result? id = verdict w opts t d
  untouched : ∀ id, id ∉ done → t.result? id = none

theorem IsNew.progress (new : s.IsNew) : Progress w opts s [] s where
  consistent := new.consistent
  alike := .refl s
  judged := fun _ mem => by cases mem
  untouched := fun id _ => new.result? id

/-- Storing one more verdict changes no other. -/
theorem Progress.store (h : Progress w opts s done t) (reads : t.flow.ReadsAncestors)
    (found : t.flow.step? id = some d) (ready : t.missing id = []) (once : id ∉ done)
    (judged : verdict w opts t d = some r) : Progress w opts s (id :: done) (t.store id r) := by
  have incomplete : t.isCompleted id = false := by
    simp [isCompleted, status, h.untouched id once]
  -- A step that is ready reads from its ancestors, which are completed; the stored one was not.
  have kept : ∀ y e, t.flow.step? y = some e → t.missing y = [] →
      (t.store id r).missing y = [] ∧ verdict w opts t e = verdict w opts (t.store id r) e := by
    intro y e declared waits
    refine ⟨missing_store incomplete r waits,
      verdict_congr (alike_store t id r) declared fun x source => ?_⟩
    have ancestor := reads e (Flow.mem_steps_of_step? declared) x source
    rw [Flow.id_of_step? declared] at ancestor
    have completed := h.consistent.isCompleted_of_hasAncestor waits ancestor
    rw [result?_store, if_neg (ne_of_isCompleted incomplete completed)]
  refine ⟨h.consistent.store (Flow.mem_order_of_step? found) incomplete fun _ => ready,
    h.alike.trans (alike_store t id r), ?_, ?_⟩
  · rintro y (_ | ⟨_, old⟩)
    · obtain ⟨still, same⟩ := kept id d found ready
      exact ⟨d, found, still, by simp [result?_store, ← same, judged]⟩
    · obtain ⟨e, declared, waits, result⟩ := h.judged y old
      obtain ⟨still, same⟩ := kept y e declared waits
      have other : id ≠ y := fun eq => once (eq ▸ old)
      exact ⟨e, declared, still, by rw [result?_store, if_neg other, ← same, result]⟩
  · intro y absent
    rw [List.mem_cons, not_or] at absent
    rw [result?_store, if_neg (Ne.symm absent.1)]
    exact h.untouched y absent.2

/-- An attempt of a step that has no result yet ends, and stores the verdict. -/
theorem Attempted.verdict {sent : List (Wire × Outcome)}
    {out : Except Misuse (Session × StepResult)} (a : Attempted t id opts sent out)
    (consistent : t.Consistent) (found : t.flow.step? id = some d) (automatic : d.manual = false)
    (ready : t.missing id = []) (fresh : t.result? id = none)
    (served : ∀ e ∈ sent, e.2 = w.server e.1) :
    ∃ r, Session.verdict w opts t d = some r ∧ out = .ok (t.store id r, r) := by
  have same : d.id = id := Flow.id_of_step? found
  have waits : t.status id = .pending := by simp [status, fresh]
  have admitted : t.requireRunnable id = .ok d :=
    (requireRunnable_ok_iff consistent).mpr ⟨found, automatic, by simp [isCompleted, waits], ready⟩
  cases a with
  | forbidden why =>
    -- The step is runnable and has no result, so neither reason applies.
    rcases why with refused | running
    · rw [admitted] at refused
      cases refused
    · rw [waits] at running
      cases running
  | @unrendered _ f _ faulty =>
    refine ⟨_, ?_, rfl⟩
    simp [Session.verdict, automatic, same, faulty]
  | @settled e request sending reply again rendered _ exchanged =>
    cases admitted.symm.trans again
    refine ⟨_, ?_, rfl⟩
    simp [Session.verdict, automatic, same, rendered, replyOf_eq_of_runs exchanged served]

/-- An eligible step is declared, not completed, and waits for nothing. -/
theorem Progress.ready (h : Progress w opts s done t) {ids : List String}
    (told : t.eligible = .ok ids) (mem : id ∈ ids) :
    ∃ d, t.flow.step? id = some d ∧ t.flow.isManual id = d.manual ∧ t.isCompleted id = false ∧
      t.missing id = [] := by
  obtain ⟨declared, incomplete, waits⟩ := (mem_eligible_iff h.consistent told).mp mem
  obtain ⟨d, found⟩ := Flow.exists_step?_of_mem declared
  exact ⟨d, found, Flow.isManual_of_step? found, incomplete, missing_eq_nil_iff.mpr waits⟩

theorem progress_of_unfolds (reads : s.flow.ReadsAncestors) (new : s.IsNew)
    (h : Unfolds w opts s done t) : Progress w opts s done t := by
  induction h with
  | start => exact new.progress
  | attempt _ told mem automatic once run served ih =>
    obtain ⟨d, found, manual, _, ready⟩ := ih.ready told mem
    obtain ⟨r, judged, rfl⟩ := (attempted_of_runs ih.consistent run).verdict ih.consistent found
      (manual ▸ automatic) ready (ih.untouched _ once) served
    exact ih.store (ih.alike.flow ▸ reads) found ready once judged
  | @complete _ _ t id fields _ told mem manual once given ih =>
    obtain ⟨d, found, same, incomplete, ready⟩ := ih.ready told mem
    have answered : t.completeManual id fields = .ok (t.store id (manualResult fields)) :=
      completeManual_ok_iff.mpr ⟨d, found, same ▸ manual, incomplete, ready, rfl⟩
    have judged : verdict w opts t d = some (manualResult fields) := by
      simp [verdict, same ▸ manual, Flow.id_of_step? found, given]
    rw [after, answer, answered]
    exact ih.store (ih.alike.flow ▸ reads) found ready once judged

/-! ## Where schedules end -/

/-- Every step whose prerequisites are completed has its verdict, and no other step has a result. -/
def Settled (w : Surroundings) (opts : RunOptions) (t : Session) : Prop :=
  ∀ id d, t.flow.step? id = some d →
    t.result? id = if t.missing id = [] then verdict w opts t d else none

theorem Progress.settled (h : Progress w opts s done t) (finished : Finished w done t) :
    Settled w opts t := by
  intro id d found
  by_cases dealt : id ∈ done
  · obtain ⟨e, again, ready, result⟩ := h.judged id dealt
    cases found.symm.trans again
    rw [if_pos ready, result]
  · have fresh := h.untouched id dealt
    split
    next ready =>
      obtain ⟨ids, told, left⟩ := finished
      have mem : id ∈ ids := (mem_eligible_iff h.consistent told).mpr
        ⟨Flow.mem_order_of_step? found, by simp [isCompleted, status, fresh],
          missing_eq_nil_iff.mp ready⟩
      rcases left id mem with again | ⟨manual, unanswered⟩
      · exact absurd again dealt
      · rw [Flow.isManual_of_step? found] at manual
        simp [fresh, verdict, manual, Flow.id_of_step? found, unanswered]
    next => exact fresh

/-- There is one way in which the steps of a flow can be settled. -/
theorem result?_eq_of_settled (wf : t.flow.WellFormed) (reads : t.flow.ReadsAncestors)
    (alike : Alike t u) (first : Settled w opts t) (second : Settled w opts u) :
    ∀ id ∈ t.flow.order, t.result? id = u.result? id := by
  -- By induction the two sessions agree on the ancestors of a step. So they agree on whether it is
  -- ready, and on its verdict if it is.
  refine wf.induction fun id declared before => ?_
  obtain ⟨d, found⟩ := Flow.exists_step?_of_mem declared
  have waits : t.missing id = u.missing id := by
    unfold missing
    rw [← alike.flow]
    refine List.filter_congr fun p link => ?_
    rw [isCompleted_congr (before p (.single link))]
  have judged : verdict w opts t d = verdict w opts u d :=
    verdict_congr alike found fun x source => before x <| by
      have ancestor := reads d (Flow.mem_steps_of_step? found) x source
      rwa [Flow.id_of_step? found] at ancestor
  rw [first id d found, second id d (alike.flow ▸ found), waits, judged]

theorem result?_eq_of_finished (wf : s.flow.WellFormed) (reads : s.flow.ReadsAncestors)
    {others : List String} (first : Progress w opts s done t) (ended : Finished w done t)
    (second : Progress w opts s others u) (endedToo : Finished w others u) (id : String) :
    t.result? id = u.result? id := by
  by_cases declared : id ∈ s.flow.order
  · have wfHere : t.flow.WellFormed := first.alike.flow ▸ wf
    exact result?_eq_of_settled wfHere (first.alike.flow ▸ reads)
      (first.alike.symm.trans second.alike) (first.settled ended) (second.settled endedToo) id
      (first.alike.flow ▸ declared)
  · have undeclared : ∀ {v : Session}, v.Consistent → Alike s v → v.result? id = none := by
      intro v consistent alike
      by_contra has
      obtain ⟨r, found⟩ := Option.ne_none_iff_exists'.mp has
      exact declared (alike.flow ▸ consistent.declared id (Ledger.mem_names_of_get? found))
    rw [undeclared first.consistent first.alike, undeclared second.consistent second.alike]

end Session

end Walkthrough
