import Walkthrough.Session.Walk
import Walkthrough.Proofs.Steady

/-!
# Rounds of a walk

A round attempts an eligible automatic step or offers an eligible manual one (`Session.Advance`).
Each round deals with another step, so the rounds that a walk is given suffice, and it ends where
nothing is left to do: `Session.Stage.Sound.advances_of_rounds` takes every walk from a steady session
apart into such rounds.
-/

namespace Walkthrough.Session

variable {opts : RunOptions} {t : Session} {id : String} {d : Step}
  {attempted offered ids : List String} {f : Flow} {offers : Bool}

/-! ## What comes next -/

theorem of_find? {kind : String → Bool} {seen : List String}
    (h : ids.find? (fun x => kind x && !seen.contains x) = some id) :
    id ∈ ids ∧ kind id = true ∧ id ∉ seen := by
  have fits := List.find?_some h
  simp only [Bool.and_eq_true, Bool.not_eq_true', List.contains_eq_mem,
    decide_eq_false_iff_not] at fits
  exact ⟨List.mem_of_find?_eq_some h, fits⟩

theorem find?_of_nextRound (h : nextRound f ids attempted offered offers = some (.attempt id)) :
    ids.find? (fun id => !f.isManual id && !attempted.contains id) = some id := by
  unfold nextRound at h
  split at h
  next x found =>
    cases h
    exact found
  next =>
    split at h
    · split at h
      · obtain ⟨_, _, wrong⟩ := Option.map_eq_some_iff.mp h
        cases wrong
      · cases h
    · cases h

theorem nextRound_attempt (h : nextRound f ids attempted offered offers = some (.attempt id)) :
    id ∈ ids ∧ f.isManual id = false ∧ id ∉ attempted := by
  obtain ⟨mem, automatic, once⟩ := of_find? (find?_of_nextRound h)
  exact ⟨mem, by simpa using automatic, once⟩

theorem nextRound_offer (h : nextRound f ids attempted offered offers = some (.offer d)) :
    d.id ∈ ids ∧ f.isManual d.id = true ∧ d.id ∉ offered ∧ offers = true := by
  unfold nextRound at h
  split at h
  · cases h
  next =>
    split at h
    next asks =>
      split at h
      next x found =>
        obtain ⟨e, declared, same⟩ := Option.map_eq_some_iff.mp h
        cases same
        obtain ⟨mem, manual, once⟩ := of_find? found
        rw [Flow.id_of_step? declared]
        exact ⟨mem, manual, once, asks⟩
      · cases h
    · cases h

/-- There is no further round only when all eligible steps have been dealt with. -/
theorem nextRound_none (h : nextRound f ids attempted offered offers = none)
    (declared : ∀ id ∈ ids, id ∈ f.order) :
    ∀ id ∈ ids, (f.isManual id = false → id ∈ attempted) ∧
      (f.isManual id = true → offers = true → id ∈ offered) := by
  unfold nextRound at h
  split at h
  · cases h
  next automatic =>
    intro id mem
    refine ⟨fun kind => by simpa [kind] using List.find?_eq_none.mp automatic id mem,
      fun kind asks => ?_⟩
    rw [if_pos asks] at h
    split at h
    next x found =>
      obtain ⟨e, step⟩ := Flow.exists_step?_of_mem
        (declared x (List.mem_of_find?_eq_some found))
      simp [step] at h
    next manual => simpa [kind] using List.find?_eq_none.mp manual id mem

/-! ## What has been dealt with -/

/-- The steps attempted are automatic and the steps offered are manual, and each is listed once. -/
structure Dealt (f : Flow) (attempted offered : List String) : Prop where
  automatic : ∀ id ∈ attempted, f.isManual id = false
  manual : ∀ id ∈ offered, f.isManual id = true
  distinct : (attempted ++ offered).Nodup
  declared : ∀ id ∈ attempted ++ offered, id ∈ f.order

theorem dealt_start (f : Flow) : Dealt f [] [] where
  automatic := by simp
  manual := by simp
  distinct := by simp
  declared := by simp

theorem Dealt.attempt (h : Dealt f attempted offered) (automatic : f.isManual id = false)
    (mem : id ∈ f.order) (once : id ∉ attempted) : Dealt f (attempted ++ [id]) offered := by
  have unoffered : id ∉ offered := by
    intro asked
    rw [h.manual id asked] at automatic
    cases automatic
  refine ⟨?_, h.manual, ?_, ?_⟩
  · rw [List.forall_mem_append, List.forall_mem_singleton]
    exact ⟨h.automatic, automatic⟩
  · rw [List.append_assoc, List.singleton_append, List.nodup_middle]
    exact List.nodup_cons.mpr ⟨by simp [once, unoffered], h.distinct⟩
  · have declared := h.declared
    rw [List.forall_mem_append] at declared ⊢
    rw [List.forall_mem_append, List.forall_mem_singleton]
    exact ⟨⟨declared.1, mem⟩, declared.2⟩

theorem Dealt.offer (h : Dealt f attempted offered) (manual : f.isManual id = true)
    (mem : id ∈ f.order) (once : id ∉ offered) : Dealt f attempted (offered ++ [id]) := by
  have untried : id ∉ attempted := by
    intro tried
    rw [h.automatic id tried] at manual
    cases manual
  refine ⟨h.automatic, ?_, ?_, ?_⟩
  · rw [List.forall_mem_append, List.forall_mem_singleton]
    exact ⟨h.manual, manual⟩
  · rw [← List.append_assoc, List.nodup_append_comm, List.singleton_append]
    exact List.nodup_cons.mpr ⟨by simp [once, untried], h.distinct⟩
  · rw [← List.append_assoc, List.forall_mem_append, List.forall_mem_singleton]
    exact ⟨h.declared, mem⟩

theorem Dealt.mem_of_length (h : Dealt f attempted offered)
    (all : f.order.length ≤ attempted.length + offered.length) (mem : id ∈ f.order) :
    id ∈ attempted ∨ id ∈ offered := by
  -- So many different steps out of the declared ones are all of them.
  have within : (attempted ++ offered).Subperm f.order := h.distinct.subperm h.declared
  have perm := within.perm_of_length_le (by simpa using all)
  exact List.mem_append.mp (perm.mem_iff.mpr mem)

theorem Dealt.nextRound_eq_none (h : Dealt f attempted offered)
    (all : ∀ id ∈ ids, id ∈ attempted ∨ id ∈ offered) :
    nextRound f ids attempted offered offers = none := by
  cases next : nextRound f ids attempted offered offers with
  | none => rfl
  | some round =>
    cases round with
    | attempt id =>
      obtain ⟨mem, automatic, once⟩ := nextRound_attempt next
      rcases all id mem with tried | asked
      · exact absurd tried once
      · rw [h.manual id asked] at automatic
        cases automatic
    | offer d =>
      obtain ⟨mem, manual, once, _⟩ := nextRound_offer next
      rcases all d.id mem with tried | asked
      · rw [h.automatic d.id tried] at manual
        cases manual
      · exact absurd asked once

/-! ## Rounds -/

/-- Where a walk stands: the session, the steps attempted and the steps offered so far. -/
structure Stage where
  session : Session
  attempted : List String
  offered : List String

/-- What a round does from a stage on, given the eligible steps. -/
def Stage.next (g : Stage) (opts : RunOptions) (ids : List String) : Option Round :=
  nextRound g.session.flow ids g.attempted g.offered opts.onManual.isSome

/-- A round takes one stage to another with the given events: the next step is attempted, or it is
offered and left, or it is offered and completed. -/
inductive Advance (opts : RunOptions) (g : Stage) : List Event → Stage → Prop
  | attempt {ids : List String} {id : String} {events : List Event} {u : Session} {r : StepResult}
      (told : g.session.eligible = .ok ids) (next : g.next opts ids = some (.attempt id))
      (run : (g.session.attempt id opts).Runs events (.ok (u, r))) :
      Advance opts g events ⟨u, g.attempted ++ [id], g.offered⟩
  | leave {ids : List String} {d : Step} {offer : Step → Talk (Option Fields)} {events : List Event}
      (told : g.session.eligible = .ok ids) (next : g.next opts ids = some (.offer d))
      (user : opts.onManual = some offer) (run : (offer d).Runs events none) :
      Advance opts g events ⟨g.session, g.attempted, g.offered ++ [d.id]⟩
  | complete {ids : List String} {d : Step} {offer : Step → Talk (Option Fields)}
      {events : List Event} {fields : Fields} {u : Session}
      (told : g.session.eligible = .ok ids) (next : g.next opts ids = some (.offer d))
      (user : opts.onManual = some offer) (run : (offer d).Runs events (some fields))
      (completed : g.session.completeManual d.id fields = .ok u) :
      Advance opts g (events ++ [.said (.leveled .info (manualDone d.id))])
        ⟨u, g.attempted, g.offered ++ [d.id]⟩

/-- So many rounds, one after the other. -/
inductive Advances (opts : RunOptions) : Nat → Stage → List Event → Stage → Prop
  | none (g : Stage) : Advances opts 0 g [] g
  | next {n : Nat} {g h k : Stage} {events later : List Event} (first : Advance opts g events h)
      (rest : Advances opts n h later k) : Advances opts (n + 1) g (events ++ later) k

/-- Nothing is left to do. -/
def Stage.Over (opts : RunOptions) (g : Stage) : Prop :=
  ∃ ids, g.session.eligible = .ok ids ∧ g.next opts ids = none

/-- What holds between the rounds of a walk. -/
structure Stage.Sound (g : Stage) : Prop where
  steady : g.session.Steady
  dealt : Dealt g.session.flow g.attempted g.offered
  tried : ∀ id ∈ g.attempted, g.session.result? id ≠ none

def Stage.size (g : Stage) : Nat :=
  g.attempted.length + g.offered.length

/-! ## What a round preserves -/

variable {g k : Stage} {events : List Event} {r : StepResult}

theorem Steady.stage_sound (h : t.Steady) : Stage.Sound ⟨t, [], []⟩ where
  steady := h
  dealt := dealt_start t.flow
  tried := by simp

theorem result?_store_ne_none (r : StepResult) (h : t.result? id ≠ none) (x : String) :
    (t.store x r).result? id ≠ none := by
  rw [result?_store]
  split
  · exact Option.some_ne_none r
  · exact h

theorem Stage.Sound.attempt_eq (h : g.Sound) (told : g.session.eligible = .ok ids)
    (next : g.next opts ids = some (.attempt id)) {out : Except Misuse (Session × StepResult)}
    (run : (g.session.attempt id opts).Runs events out) :
    ∃ r, out = .ok (g.session.store id r, r) ∧
      Stage.Sound ⟨g.session.store id r, g.attempted ++ [id], g.offered⟩ := by
  obtain ⟨mem, automatic, once⟩ := nextRound_attempt next
  obtain ⟨declared, incomplete, ready⟩ := (h.steady.mem_eligible_iff told).mp mem
  obtain ⟨d, found⟩ := Flow.exists_step?_of_mem declared
  have kind := Flow.isManual_of_step? found
  have ended := attempted_of_runs h.steady.consistent run
  obtain ⟨r, rfl, final⟩ :=
    h.steady.stored_of_attempted found (kind ▸ automatic) incomplete ready ended
  refine ⟨r, rfl, h.steady.store declared incomplete ready final,
    h.dealt.attempt automatic declared once, ?_⟩
  rw [List.forall_mem_append, List.forall_mem_singleton]
  constructor
  · intro x old
    exact result?_store_ne_none r (h.tried x old) id
  · simp [result?_store]

theorem Stage.Sound.complete_eq (h : g.Sound) (told : g.session.eligible = .ok ids)
    (next : g.next opts ids = some (.offer d)) (fields : Fields) :
    g.session.completeManual d.id fields = .ok (g.session.store d.id (manualResult fields)) ∧
      Stage.Sound ⟨g.session.store d.id (manualResult fields), g.attempted,
        g.offered ++ [d.id]⟩ := by
  obtain ⟨mem, manual, once, _⟩ := nextRound_offer next
  obtain ⟨declared, incomplete, ready⟩ := (h.steady.mem_eligible_iff told).mp mem
  constructor
  · obtain ⟨e, found⟩ := Flow.exists_step?_of_mem declared
    rw [Flow.isManual_of_step? found] at manual
    exact completeManual_ok_iff.mpr ⟨e, found, manual, incomplete, ready, rfl⟩
  · refine ⟨h.steady.store declared incomplete ready (Or.inl rfl),
      h.dealt.offer manual declared once, ?_⟩
    intro x old
    exact result?_store_ne_none _ (h.tried x old) d.id

theorem Stage.Sound.leave (h : g.Sound) (told : g.session.eligible = .ok ids)
    (next : g.next opts ids = some (.offer d)) :
    Stage.Sound ⟨g.session, g.attempted, g.offered ++ [d.id]⟩ := by
  obtain ⟨mem, manual, once, _⟩ := nextRound_offer next
  have declared := ((h.steady.mem_eligible_iff told).mp mem).1
  exact ⟨h.steady, h.dealt.offer manual declared once, h.tried⟩

/-- A round keeps a stage sound, stays with the flow and deals with one more step. -/
theorem Advance.sound (first : Advance opts g events k) (h : g.Sound) :
    k.Sound ∧ k.session.flow = g.session.flow ∧ k.size = g.size + 1 := by
  cases first with
  | attempt told next run =>
    obtain ⟨r, same, sound⟩ := h.attempt_eq told next run
    cases same
    refine ⟨sound, rfl, ?_⟩
    simp only [Stage.size, List.length_append, List.length_singleton]
    omega
  | leave told next user run =>
    refine ⟨h.leave told next, rfl, ?_⟩
    simp only [Stage.size, List.length_append, List.length_singleton]
    omega
  | complete told next user run completed =>
    obtain ⟨same, sound⟩ := h.complete_eq told next _
    rw [same] at completed
    cases completed
    refine ⟨sound, rfl, ?_⟩
    simp only [Stage.size, List.length_append, List.length_singleton]
    omega

theorem Advances.sound {n : Nat} (path : Advances opts n g events k) (h : g.Sound) :
    k.Sound ∧ k.session.flow = g.session.flow ∧ k.size = g.size + n := by
  induction path with
  | none g => exact ⟨h, rfl, rfl⟩
  | next first rest ih =>
    obtain ⟨sound, flow, size⟩ := first.sound h
    obtain ⟨soundToo, flowToo, sizeToo⟩ := ih sound
    refine ⟨soundToo, flowToo.trans flow, ?_⟩
    omega

/-! ## Walks as rounds -/

/-- The rounds of a walk that are left from a stage on. -/
def Stage.rounds (g : Stage) (opts : RunOptions) (fuel : Nat) :
    Talk (Session × Except Misuse (List String)) :=
  Session.rounds opts fuel g.session g.attempted g.offered

theorem Stage.rounds_of_over {fuel : Nat} (spent : g.Over opts) :
    g.rounds opts fuel = .done (g.session, .ok g.attempted) := by
  obtain ⟨ids, told, next⟩ := spent
  unfold Stage.next at next
  cases fuel with
  | zero => rfl
  | succ fuel => simp only [Stage.rounds, Session.rounds, told, next]

/-- As long as something is left to do, a walk goes on with a round. -/
theorem Stage.Sound.advance_of_rounds {fuel : Nat} (h : g.Sound) (pending : ¬g.Over opts)
    {out : Session × Except Misuse (List String)}
    (run : (g.rounds opts (fuel + 1)).Runs events out) :
    ∃ first second k, events = first ++ second ∧ Advance opts g first k ∧
      (k.rounds opts fuel).Runs second out := by
  have told := eligible_eq h.steady.consistent
  generalize eligibleAmong g.session.flow g.session.completed = ids at told
  cases next : g.next opts ids with
  | none => exact absurd ⟨ids, told, next⟩ pending
  | some round =>
    -- Only the branches in which the step can be attempted or completed are left of the loop.
    have goes := next
    unfold Stage.next at goes
    cases round with
    | attempt id =>
      simp only [Stage.rounds, Session.rounds, told, goes] at run
      obtain ⟨first, second, reply, rfl, attempts, goesOn⟩ := Talk.runs_bind_iff.mp run
      obtain ⟨r, rfl, _⟩ := h.attempt_eq told next attempts
      exact ⟨first, second, _, rfl, .attempt told next attempts, goesOn⟩
    | offer d =>
      obtain ⟨offer, user⟩ := Option.isSome_iff_exists.mp (nextRound_offer next).2.2.2
      rw [user] at goes
      simp only [Stage.rounds, Session.rounds, told, user, goes] at run
      obtain ⟨first, second, reply, rfl, offers, goesOn⟩ := Talk.runs_bind_iff.mp run
      cases reply with
      | none => exact ⟨first, second, _, rfl, .leave told next user offers, goesOn⟩
      | some fields =>
        obtain ⟨completed, _⟩ := h.complete_eq told next fields
        simp only [completed] at goesOn
        obtain ⟨third, rfl, noted⟩ := Talk.runs_note_iff.mp goesOn
        have step := Advance.complete told next user offers completed
        refine ⟨_, third, _, ?_, step, noted⟩
        rw [List.append_assoc, List.singleton_append]

theorem Stage.Sound.over_of_size (h : g.Sound) (all : g.session.flow.order.length ≤ g.size) :
    g.Over opts := by
  have told := eligible_eq h.steady.consistent
  refine ⟨_, told, h.dealt.nextRound_eq_none ?_⟩
  intro id mem
  exact h.dealt.mem_of_length all ((h.steady.mem_eligible_iff told).mp mem).1

/-- A walk is made of rounds and goes on until nothing is left to do, when it is given as many
rounds as there are steps to deal with. -/
theorem Stage.Sound.advances_of_rounds {fuel : Nat} (h : g.Sound)
    (enough : g.session.flow.order.length ≤ g.size + fuel)
    {out : Session × Except Misuse (List String)} (run : (g.rounds opts fuel).Runs events out) :
    ∃ n k, Advances opts n g events k ∧ k.Over opts ∧ out = (k.session, .ok k.attempted) := by
  -- The number of rounds that are left is at least that of the steps not yet dealt with.
  induction fuel generalizing g events with
  | zero =>
    have spent : g.Over opts := h.over_of_size enough
    rw [Stage.rounds_of_over spent] at run
    obtain ⟨rfl, rfl⟩ := Talk.runs_done_iff.mp run
    exact ⟨0, g, .none g, spent, rfl⟩
  | succ fuel ih =>
    by_cases spent : g.Over opts
    · rw [Stage.rounds_of_over spent] at run
      obtain ⟨rfl, rfl⟩ := Talk.runs_done_iff.mp run
      exact ⟨0, g, .none g, spent, rfl⟩
    · obtain ⟨first, second, k, rfl, step, rest⟩ := h.advance_of_rounds spent run
      obtain ⟨sound, flow, size⟩ := step.sound h
      have enoughThere : k.session.flow.order.length ≤ k.size + fuel := by
        rw [flow]
        omega
      obtain ⟨n, final, path, ended, rfl⟩ := ih sound enoughThere rest
      exact ⟨n + 1, final, .next step path, ended, rfl⟩

end Walkthrough.Session
