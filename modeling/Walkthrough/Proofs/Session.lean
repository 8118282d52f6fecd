import Walkthrough.Session.Basic
import Walkthrough.Proofs.Checks
import Walkthrough.Proofs.Flow
import Walkthrough.Proofs.Ledger

/-!
# What calls do to a session

Every call on a session either leaves it as it is or makes one of two changes: it stores a result of
a step that is not completed, or it clears a step with all that consume it (`Session.Change`).
Invariants are shown for these two changes and hold after every sequence of calls. The first of them
is `Session.Consistent`: only declared steps have results, and the prerequisites of a completed step
are completed.
-/

namespace Walkthrough.Session

open Walkthrough.Checks
open Relation (ReflTransGen)

variable {s t : Session} {id x : String} {r : StepResult}

/-! ## Storing -/

@[simp] theorem flow_store : (s.store id r).flow = s.flow := rfl

theorem result?_store (s : Session) (id x : String) (r : StepResult) :
    (s.store id r).result? x = if id = x then some r else s.result? x :=
  Ledger.get?_put s.results id x r

theorem store_store (s : Session) (id : String) (first second : StepResult) :
    (s.store id first).store id second = s.store id second := by
  simp [store, Ledger.put_put]

theorem isCompleted_iff :
    s.isCompleted id = true ↔ ∃ r, s.result? id = some r ∧ r.status = .completed := by
  unfold isCompleted status
  cases s.result? id <;> simp

theorem isCompleted_congr (h : s.result? x = t.result? x) : s.isCompleted x = t.isCompleted x := by
  simp [isCompleted, status, h]

theorem isCompleted_store_self (s : Session) (id : String) (r : StepResult) :
    (s.store id r).isCompleted id = (r.status == .completed) := by
  simp [isCompleted, status, result?_store]

theorem status_store (s : Session) (id x : String) (r : StepResult) :
    (s.store id r).status x = if id = x then r.status else s.status x := by
  rw [status, result?_store]
  split <;> rfl

theorem isCompleted_store_of_ne (r : StepResult) (h : id ≠ x) :
    (s.store id r).isCompleted x = s.isCompleted x :=
  isCompleted_congr (by rw [result?_store, if_neg h])

theorem isCompleted_store_iff (done : r.status = .completed) :
    (s.store id r).isCompleted x = true ↔ id = x ∨ s.isCompleted x = true := by
  by_cases same : id = x
  · subst same
    simp [isCompleted_store_self, done]
  · simp [isCompleted_store_of_ne r same, same]

theorem missing_eq_nil_iff :
    s.missing id = [] ↔ ∀ p ∈ s.flow.prerequisites id, s.isCompleted p = true := by
  simp [missing, List.filter_eq_nil_iff]

theorem ne_of_isCompleted (incomplete : s.isCompleted id = false) (done : s.isCompleted x = true) :
    id ≠ x := by
  rintro rfl
  rw [incomplete] at done
  cases done

/-- A step that waits for nothing waits for nothing after one more result. -/
theorem missing_store (incomplete : s.isCompleted id = false) (r : StepResult)
    (ready : s.missing x = []) : (s.store id r).missing x = [] := by
  rw [missing_eq_nil_iff] at ready ⊢
  intro p link
  have done := ready p link
  rw [isCompleted_store_of_ne r (ne_of_isCompleted incomplete done)]
  exact done

/-- A result that completes nothing leaves all completed steps completed, and completes no other. -/
theorem isCompleted_store_of_ne_completed (incomplete : s.isCompleted id = false)
    (unfinished : r.status ≠ .completed) (x : String) :
    (s.store id r).isCompleted x = s.isCompleted x := by
  by_cases same : id = x
  · subst same
    rw [isCompleted_store_self, incomplete, beq_eq_false_iff_ne]
    exact unfinished
  · exact isCompleted_store_of_ne r same

theorem missing_store_of_ne_completed (incomplete : s.isCompleted id = false)
    (unfinished : r.status ≠ .completed) (x : String) :
    (s.store id r).missing x = s.missing x :=
  List.filter_congr fun p _ => by rw [isCompleted_store_of_ne_completed incomplete unfinished]

/-! ## Clearing -/

/-- The session without the results of a step and of all that consume it. -/
def cleanse (s : Session) (id : String) : Session :=
  { s with results := (s.cleared id).foldl Ledger.erase s.results }

@[simp] theorem flow_cleanse : (s.cleanse id).flow = s.flow := rfl

/-- The second step consumes the first one, directly or through others. -/
def Consumes (f : Flow) : String → String → Prop :=
  ReflTransGen (Linked (consumers f))

theorem linked_consumers_iff {f : Flow} :
    Linked (consumers f) id x ↔
      ∃ d ∈ f.steps, d.id = x ∧ (id ∈ d.prerequisites ∨ id ∈ d.sources) := by
  simp only [Linked, consumers, List.mem_map, List.mem_filter, Bool.or_eq_true,
    List.contains_iff_mem]
  constructor
  · rintro ⟨d, ⟨mem, link⟩, same⟩
    exact ⟨d, mem, same, link⟩
  · rintro ⟨d, mem, same, link⟩
    exact ⟨d, ⟨mem, link⟩, same⟩

theorem mem_order_of_linked {f : Flow} (link : Linked (consumers f) id x) : x ∈ f.order := by
  obtain ⟨d, mem, same, _⟩ := linked_consumers_iff.mp link
  exact List.mem_map.mpr ⟨d, mem, same⟩

theorem mem_affected_iff (f : Flow) : x ∈ affected f id ↔ Consumes f id x := by
  have size : f.steps.length = f.order.length := by simp [Flow.order]
  rw [affected, size]
  exact mem_spread_self_iff fun _ _ => mem_order_of_linked

theorem mem_order_of_consumes {f : Flow} (declared : id ∈ f.order) (h : Consumes f id x) :
    x ∈ f.order := by
  cases h with
  | refl => exact declared
  | tail _ link => exact mem_order_of_linked link

open Classical in
/-- A restart takes the results of exactly the steps that consume the restarted one. -/
theorem result?_cleanse (declared : id ∈ s.flow.order) (x : String) :
    (s.cleanse id).result? x = if Consumes s.flow id x then none else s.result? x := by
  -- Only steps with a result are listed as cleared; the others have nothing to lose.
  have gone : x ∈ s.cleared id ↔ Consumes s.flow id x ∧ s.results.has x = true := by
    rw [cleared, List.mem_filter, Bool.and_eq_true, List.contains_iff_mem, mem_affected_iff]
    exact ⟨And.right, fun h => ⟨mem_order_of_consumes declared h.1, h⟩⟩
  unfold cleanse result?
  rw [Ledger.get?_foldl_erase]
  by_cases h : Consumes s.flow id x
  · by_cases has : s.results.has x = true
    · simp [gone, h, has]
    · have absent : s.results.get? x = none := by
        rw [← Option.isNone_iff_eq_none, ← Option.not_isSome, Ledger.isSome_get?]
        simpa using has
      simp [h, absent]
  · simp [gone, h]

/-! ## Calls -/

theorem step_ok_iff {d : Step} : s.step id = .ok d ↔ s.flow.step? id = some d := by
  unfold step
  cases s.flow.step? id <;> simp

theorem requirePrerequisites_ok_iff {u : Unit} :
    s.requirePrerequisites id = .ok u ↔ s.missing id = [] := by
  simp [requirePrerequisites]

def underWay (request : Request) : StepResult :=
  { status := .running, origin := .http, request := some request }

theorem markRunning_ok_iff {request : Request} :
    s.markRunning id request = .ok t ↔
      ∃ d, s.flow.step? id = some d ∧ d.manual = false ∧ s.isCompleted id = false ∧
        s.status id ≠ .running ∧ s.missing id = [] ∧ s.store id (underWay request) = t := by
  simp only [markRunning, bind_ok_iff, step_ok_iff, check_ok_iff, throw_ok_iff, imp_false,
    Bool.not_eq_true, beq_iff_eq, pure_ok_iff, requirePrerequisites_ok_iff, exists_const, underWay,
    ne_eq]

theorem record_ok_iff :
    s.record id r = .ok t ↔
      ∃ d, s.flow.step? id = some d ∧ s.isCompleted id = false ∧
        (r.status = .completed → s.missing id = []) ∧ s.store id r = t := by
  simp only [record, bind_ok_iff, step_ok_iff, check_ok_iff, throw_ok_iff, imp_false,
    Bool.not_eq_true, beq_iff_eq, pure_ok_iff, requirePrerequisites_ok_iff]

theorem completeManual_ok_iff {fields : Fields} :
    s.completeManual id fields = .ok t ↔
      ∃ d, s.flow.step? id = some d ∧ d.manual = true ∧ s.isCompleted id = false ∧
        s.missing id = [] ∧ s.store id (manualResult fields) = t := by
  simp only [completeManual, bind_ok_iff, step_ok_iff, check_ok_iff, throw_ok_iff, imp_false,
    Bool.not_eq_true, Bool.not_eq_false, Bool.not_eq_true', pure_ok_iff,
    requirePrerequisites_ok_iff, exists_const]

theorem restart_ok_iff {gone : List String} :
    s.restart id = .ok (t, gone) ↔
      ∃ d, s.flow.step? id = some d ∧ s.cleanse id = t ∧ s.cleared id = gone := by
  simp only [restart, bind_ok_iff, step_ok_iff, pure_ok_iff, Prod.mk.injEq, cleanse]

inductive Call
  | markRunning (id : String) (request : Request)
  | record (id : String) (r : StepResult)
  | completeManual (id : String) (fields : Fields)
  | restart (id : String)

/-- The session after a call, or the rule that forbids it. -/
def answer (s : Session) : Call → Except Misuse Session
  | .markRunning id request => s.markRunning id request
  | .record id r => s.record id r
  | .completeManual id fields => s.completeManual id fields
  | .restart id => (s.restart id).map (·.1)

/-- The session after a call; a forbidden call leaves it as it is. -/
def after (s : Session) (c : Call) : Session :=
  match s.answer c with
  | .ok t => t
  | .error _ => s

def afterAll (s : Session) (calls : List Call) : Session :=
  calls.foldl after s

theorem after_of_answer_ok {c : Call} (accepted : s.answer c = .ok t) : s.after c = t := by
  rw [after, accepted]

theorem after_of_answer_error {c : Call} {m : Misuse} (refused : s.answer c = .error m) :
    s.after c = s := by
  rw [after, refused]

theorem afterAll_concat (s : Session) (calls : List Call) (c : Call) :
    s.afterAll (calls ++ [c]) = (s.afterAll calls).after c :=
  List.foldl_concat after s c calls

/-- What a call can do to a session. -/
inductive Change (s : Session) : Session → Prop
  | store {id : String} {r : StepResult} (declared : id ∈ s.flow.order)
      (incomplete : s.isCompleted id = false) (ready : r.status = .completed → s.missing id = []) :
      Change s (s.store id r)
  | clear {id : String} (declared : id ∈ s.flow.order) : Change s (s.cleanse id)

theorem change_of_answer {c : Call} (h : s.answer c = .ok t) : Change s t := by
  cases c with
  | markRunning id request =>
    obtain ⟨d, found, _, incomplete, _, ready, rfl⟩ := markRunning_ok_iff.mp h
    exact .store (Flow.mem_order_of_step? found) incomplete fun _ => ready
  | record id r =>
    obtain ⟨d, found, incomplete, ready, rfl⟩ := record_ok_iff.mp h
    exact .store (Flow.mem_order_of_step? found) incomplete ready
  | completeManual id fields =>
    obtain ⟨d, found, _, incomplete, ready, rfl⟩ := completeManual_ok_iff.mp h
    exact .store (Flow.mem_order_of_step? found) incomplete fun _ => ready
  | restart id =>
    obtain ⟨⟨t, gone⟩, done, rfl⟩ := map_ok_iff.mp h
    obtain ⟨d, found, rfl, _⟩ := restart_ok_iff.mp done
    exact .clear (Flow.mem_order_of_step? found)

theorem after_cases (s : Session) (c : Call) : s.after c = s ∨ Change s (s.after c) := by
  unfold after
  cases h : s.answer c with
  | ok t => exact Or.inr (change_of_answer h)
  | error m => exact Or.inl rfl

theorem after_completeManual_cases (s : Session) (id : String) (fields : Fields) :
    s.after (.completeManual id fields) = s ∨
      s.after (.completeManual id fields) = s.store id (manualResult fields) ∧
        id ∈ s.flow.order ∧ s.isCompleted id = false ∧ s.missing id = [] := by
  unfold after
  cases made : s.answer (.completeManual id fields) with
  | error m => exact Or.inl rfl
  | ok t =>
    obtain ⟨d, found, _, incomplete, ready, rfl⟩ := completeManual_ok_iff.mp made
    exact Or.inr ⟨rfl, Flow.mem_order_of_step? found, incomplete, ready⟩

theorem after_restart_cases (s : Session) (id : String) :
    s.after (.restart id) = s ∨ s.after (.restart id) = s.cleanse id ∧ id ∈ s.flow.order := by
  unfold after
  cases made : s.answer (.restart id) with
  | error m => exact Or.inl rfl
  | ok t =>
    obtain ⟨⟨_, _⟩, restarted, rfl⟩ := map_ok_iff.mp made
    obtain ⟨d, found, rfl, _⟩ := restart_ok_iff.mp restarted
    exact Or.inr ⟨rfl, Flow.mem_order_of_step? found⟩

theorem Change.flow_eq (h : Change s t) : t.flow = s.flow := by
  cases h <;> rfl

/-- What every change preserves is preserved by every sequence of calls. -/
theorem afterAll_induction {motive : Session → Prop}
    (step : ∀ s t, Change s t → motive s → motive t) (start : motive s) (calls : List Call) :
    motive (s.afterAll calls) := by
  induction calls generalizing s with
  | nil => exact start
  | cons c calls ih =>
    rcases after_cases s c with same | change
    · exact ih (same.symm ▸ start)
    · exact ih (step s _ change start)

/-! ## Consistent sessions -/

/-- Only declared steps have results, one each, and the prerequisites of a completed step are
completed. -/
structure Consistent (s : Session) : Prop where
  distinct : s.results.names.Nodup
  declared : ∀ id ∈ s.results.names, id ∈ s.flow.order
  closed : ∀ id, s.isCompleted id = true → ∀ p ∈ s.flow.prerequisites id, s.isCompleted p = true

/-- A session without results. -/
def IsNew (s : Session) : Prop :=
  s.results = []

theorem IsNew.result? (new : s.IsNew) (id : String) : s.result? id = none := by
  unfold Session.result?
  rw [new]
  rfl

theorem IsNew.isCompleted (new : s.IsNew) (id : String) : s.isCompleted id = false := by
  simp [Session.isCompleted, status, new.result?]

theorem IsNew.consistent (new : s.IsNew) : s.Consistent where
  distinct := by
    rw [new]
    exact List.nodup_nil
  declared := by
    rw [new]
    exact fun _ mem => by cases mem
  closed := fun id done => by simp [new.isCompleted] at done

theorem linked_of_mem_prerequisites {f : Flow} {p : String} (h : p ∈ f.prerequisites id) :
    Linked (consumers f) p id := by
  obtain ⟨d, found⟩ := Flow.exists_step?_of_mem (Flow.mem_order_of_mem_prerequisites h)
  rw [Flow.prerequisites_of_step? found] at h
  exact linked_consumers_iff.mpr
    ⟨d, Flow.mem_steps_of_step? found, Flow.id_of_step? found, Or.inl h⟩

/-- A result that a restart leaves is the one from before, and its step is not affected. -/
theorem result?_cleanse_eq_some (declared : id ∈ s.flow.order)
    (h : (s.cleanse id).result? x = some r) : ¬Consumes s.flow id x ∧ s.result? x = some r := by
  rw [result?_cleanse declared] at h
  split at h
  · cases h
  · exact ⟨‹_›, h⟩

theorem result?_cleanse_of_not (declared : id ∈ s.flow.order) (h : ¬Consumes s.flow id x) :
    (s.cleanse id).result? x = s.result? x := by
  rw [result?_cleanse declared, if_neg h]

/-- Where a step has all its prerequisites, all its ancestors are completed. -/
theorem Consistent.isCompleted_of_hasAncestor (h : s.Consistent) (ready : s.missing id = [])
    (ancestor : s.flow.HasAncestor id x) : s.isCompleted x = true := by
  induction ancestor with
  | single link => exact missing_eq_nil_iff.mp ready _ link
  | tail _ link ih => exact h.closed _ ih _ link

/-- A step that a restart does not affect waits for the same steps as before: had one of its
prerequisites been affected, it would have been affected with it. -/
theorem missing_cleanse (declared : id ∈ s.flow.order) (unaffected : ¬Consumes s.flow id x) :
    (s.cleanse id).missing x = s.missing x := by
  refine List.filter_congr fun p link => ?_
  have apart : ¬Consumes s.flow id p := fun affected =>
    unaffected (affected.tail (linked_of_mem_prerequisites link))
  rw [isCompleted_congr (result?_cleanse_of_not declared apart)]

theorem Consistent.cleanse (h : s.Consistent) (declared : id ∈ s.flow.order) :
    (s.cleanse id).Consistent := by
  have sub : (s.cleanse id).results.names.Sublist s.results.names :=
    (Ledger.foldl_erase_sublist s.results _).map _
  refine ⟨sub.nodup h.distinct, fun y mem => h.declared y (sub.subset mem), ?_⟩
  intro y done
  obtain ⟨r, found, completed⟩ := isCompleted_iff.mp done
  obtain ⟨unaffected, found⟩ := result?_cleanse_eq_some declared found
  have ready : s.missing y = [] :=
    missing_eq_nil_iff.mpr (h.closed y (isCompleted_iff.mpr ⟨r, found, completed⟩))
  rw [← missing_cleanse declared unaffected] at ready
  exact missing_eq_nil_iff.mp ready

theorem Consistent.store (h : s.Consistent) (declared : id ∈ s.flow.order)
    (incomplete : s.isCompleted id = false) (ready : r.status = .completed → s.missing id = []) :
    (s.store id r).Consistent := by
  refine ⟨Ledger.nodup_names_put h.distinct id r, fun y mem => ?_, ?_⟩
  · rcases Ledger.mem_names_put.mp mem with rfl | old
    · exact declared
    · exact h.declared y old
  · intro y done p link
    have before : s.isCompleted p = true := by
      by_cases same : id = y
      · subst same
        rw [isCompleted_store_self, beq_iff_eq] at done
        exact missing_eq_nil_iff.mp (ready done) p link
      · rw [isCompleted_store_of_ne r same] at done
        exact h.closed y done p link
    -- The step stored was not completed, so it is no prerequisite of a completed step.
    rw [isCompleted_store_of_ne r (ne_of_isCompleted incomplete before)]
    exact before

theorem Consistent.change (h : s.Consistent) (c : Change s t) : t.Consistent := by
  cases c with
  | store declared incomplete ready => exact h.store declared incomplete ready
  | clear declared => exact h.cleanse declared

theorem Consistent.after (h : s.Consistent) (c : Call) : (s.after c).Consistent := by
  rcases after_cases s c with same | change
  · rw [same]
    exact h
  · exact h.change change

theorem IsNew.consistent_afterAll (new : s.IsNew) (calls : List Call) :
    (s.afterAll calls).Consistent :=
  afterAll_induction (fun _ _ c h => Consistent.change h c) new.consistent calls

theorem flow_afterAll (s : Session) (calls : List Call) : (s.afterAll calls).flow = s.flow :=
  afterAll_induction (motive := fun t => t.flow = s.flow)
    (fun _ _ c h => c.flow_eq.trans h) rfl calls

end Walkthrough.Session
