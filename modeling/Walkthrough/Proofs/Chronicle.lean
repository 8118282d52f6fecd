import Walkthrough.Proofs.Atomic
import Walkthrough.Proofs.Summary

/-!
# What a walk does once

A chronicle of a walk lists its rounds: the session each started from, what it did, and the events on
the way (`Session.Chronicle`). Every step is dealt with in one round at most, so no step is attempted
or offered twice, and a request goes out only while its step is not completed and all prerequisites
are (`Session.sparing_of_walk`).

The loop is not cut short by the number of rounds that it is given: no walk has more rounds than the
flow has steps, and more of them change nothing (`Session.Stage.Sound.rounds_eq_of_le`).
-/

namespace Walkthrough

namespace Round

def attempt? : Round → Option String
  | attempt id => some id
  | offer _ => none

def offer? : Round → Option String
  | attempt _ => none
  | offer d => some d.id

end Round

namespace Session

variable {opts : RunOptions} {s t u : Session} {id : String} {ids : List String}
  {events : List Event} {g k : Stage}

/-! ## The loop ends by itself -/

theorem Stage.Sound.over_or_advance (h : g.Sound) :
    g.Over opts ∨ ∃ events k, Advance opts g events k := by
  by_cases spent : g.Over opts
  · exact Or.inl spent
  · -- Any run of a single round that is left takes the round.
    obtain ⟨events, out, run, _⟩ :=
      Talk.exists_runs (fun _ => .answered ⟨200, "OK", [], .ok ""⟩) (g.rounds opts (0 + 1))
    obtain ⟨first, _, k, _, step, _⟩ := h.advance_of_rounds spent run
    exact Or.inr ⟨first, k, step⟩

theorem Stage.Sound.size_le (h : g.Sound) : g.size ≤ g.session.flow.order.length := by
  have within := (h.dealt.distinct.subperm h.dealt.declared).length_le
  rwa [List.length_append] at within

theorem Stage.Sound.rounds_succ {fuel : Nat} (h : g.Sound)
    (enough : g.session.flow.order.length ≤ g.size + fuel) :
    g.rounds opts (fuel + 1) = g.rounds opts fuel := by
  induction fuel generalizing g with
  | zero =>
    have spent : g.Over opts := h.over_of_size enough
    rw [Stage.rounds_of_over spent, Stage.rounds_of_over spent]
  | succ fuel ih =>
    have told := eligible_eq h.steady.consistent
    generalize eligibleAmong g.session.flow g.session.completed = ids at told
    cases next : g.next opts ids with
    | none =>
      have spent : g.Over opts := ⟨ids, told, next⟩
      rw [Stage.rounds_of_over spent, Stage.rounds_of_over spent]
    | some round =>
      have goes := next
      unfold Stage.next at goes
      -- Both sides take the same round; what follows it is settled by the induction.
      cases round with
      | attempt id =>
        rw [Stage.rounds, Stage.rounds, Session.rounds, Session.rounds]
        simp only [told, goes]
        apply Talk.bind_congr
        intro events out run
        obtain ⟨r, rfl, sound⟩ := h.attempt_eq told next run
        apply ih sound
        simp [Stage.size] at enough ⊢
        omega
      | offer d =>
        obtain ⟨offer, user⟩ := Option.isSome_iff_exists.mp (nextRound_offer next).2.2.2
        rw [user] at goes
        rw [Stage.rounds, Stage.rounds, Session.rounds, Session.rounds]
        simp only [told, user, goes]
        apply Talk.bind_congr
        rintro events (_ | fields) run
        · apply ih (h.leave told next)
          simp [Stage.size] at enough ⊢
          omega
        · obtain ⟨completed, sound⟩ := h.complete_eq told next fields
          simp only [completed]
          apply congrArg (Talk.note _)
          apply ih sound
          simp [Stage.size] at enough ⊢
          omega

theorem Stage.Sound.rounds_eq_of_le {fuel more : Nat} (h : g.Sound)
    (enough : g.session.flow.order.length ≤ g.size + fuel) (le : fuel ≤ more) :
    g.rounds opts more = g.rounds opts fuel := by
  induction le with
  | refl => rfl
  | step le ih =>
    have le : fuel ≤ _ := le
    rw [← ih]
    apply h.rounds_succ
    omega

/-! ## Chronicles -/

/-- A round of a walk: the session that it starts from, what it does, and the events on the way. -/
structure Deed where
  session : Session
  round : Round
  events : List Event

/-- The deeds are the rounds from one stage to another. -/
inductive Chronicle (opts : RunOptions) : Stage → List Deed → Stage → Prop
  | nil (g : Stage) : Chronicle opts g [] g
  | cons {g h k : Stage} {ids : List String} {round : Round} {events : List Event}
      {deeds : List Deed} (told : g.session.eligible = .ok ids)
      (next : g.next opts ids = some round) (first : Advance opts g events h)
      (rest : Chronicle opts h deeds k) : Chronicle opts g (⟨g.session, round, events⟩ :: deeds) k

/-- The rounds in which a step was attempted. -/
def attemptsOf (deeds : List Deed) (id : String) : List Deed :=
  deeds.filter (·.round.attempt? == some id)

/-- The rounds in which a step was offered to the user. -/
def offersOf (deeds : List Deed) (id : String) : List Deed :=
  deeds.filter (·.round.offer? == some id)

/-- The requests that were sent for a step. -/
def sentFor (deeds : List Deed) (id : String) : List (Wire × Outcome) :=
  (attemptsOf deeds id).flatMap (exchanges ·.events)

variable {deeds : List Deed}

theorem chronicle_of_advances {n : Nat} (path : Advances opts n g events k) :
    ∃ deeds, Chronicle opts g deeds k ∧ deeds.length = n ∧ events = deeds.flatMap (·.events) := by
  induction path with
  | none g => exact ⟨[], .nil g, rfl, rfl⟩
  | next first rest ih =>
    obtain ⟨deeds, chronicle, rfl, rfl⟩ := ih
    cases first with
    | attempt told next run =>
      exact ⟨_, .cons told next (.attempt told next run) chronicle, rfl, rfl⟩
    | leave told next user run =>
      exact ⟨_, .cons told next (.leave told next user run) chronicle, rfl, rfl⟩
    | complete told next user run completed =>
      exact ⟨_, .cons told next (.complete told next user run completed) chronicle, rfl, rfl⟩

/-- What a stage does in a round is settled by what is next there. -/
theorem Advance.of_next (first : Advance opts g events k) {round : Round}
    (told : g.session.eligible = .ok ids) (next : g.next opts ids = some round) :
    (∃ id out, round = .attempt id ∧ (g.session.attempt id opts).Runs events out ∧
      k.attempted = g.attempted ++ [id] ∧ k.offered = g.offered) ∨
    ∃ e offer own reply, round = .offer e ∧ opts.onManual = some offer ∧
      (offer e).Runs own reply ∧ exchanges events = exchanges own ∧
        k.attempted = g.attempted ∧ k.offered = g.offered ++ [e.id] := by
  cases first with
  | attempt again also run =>
    cases told.symm.trans again
    cases next.symm.trans also
    exact Or.inl ⟨_, _, rfl, run, rfl, rfl⟩
  | leave again also user run =>
    cases told.symm.trans again
    cases next.symm.trans also
    exact Or.inr ⟨_, _, _, _, rfl, user, run, rfl, rfl, rfl⟩
  | complete again also user run completed =>
    cases told.symm.trans again
    cases next.symm.trans also
    exact Or.inr ⟨_, _, _, _, rfl, user, run, by simp, rfl, rfl⟩

theorem Advance.lists (first : Advance opts g events k) {round : Round}
    (told : g.session.eligible = .ok ids) (next : g.next opts ids = some round) :
    k.attempted = g.attempted ++ round.attempt?.toList ∧
      k.offered = g.offered ++ round.offer?.toList := by
  obtain ⟨id, _, rfl, _, attempts, offers⟩ | ⟨e, _, _, _, rfl, _, _, _, attempts, offers⟩ :=
    first.of_next told next
  · simp [attempts, offers, Round.attempt?, Round.offer?]
  · simp [attempts, offers, Round.attempt?, Round.offer?]

theorem Advance.attempt_runs (first : Advance opts g events k) (told : g.session.eligible = .ok ids)
    (next : g.next opts ids = some (.attempt id)) :
    ∃ out, (g.session.attempt id opts).Runs events out := by
  obtain ⟨_, out, same, run, _⟩ | ⟨_, _, _, _, same, _⟩ := first.of_next told next
  · cases same
    exact ⟨out, run⟩
  · cases same

theorem Advance.offer_runs {e : Step} (first : Advance opts g events k)
    (told : g.session.eligible = .ok ids) (next : g.next opts ids = some (.offer e)) :
    ∃ offer own reply, opts.onManual = some offer ∧ (offer e).Runs own reply ∧
      exchanges events = exchanges own := by
  obtain ⟨_, _, same, _⟩ | ⟨_, offer, own, reply, same, user, run, sent, _⟩ :=
    first.of_next told next
  · cases same
  · cases same
    exact ⟨offer, own, reply, user, run, sent⟩

theorem filterMap_cons_toList {α β : Type} (f : α → Option β) (a : α) (l : List α) :
    (a :: l).filterMap f = (f a).toList ++ l.filterMap f := by
  cases found : f a <;> simp [found]

theorem Chronicle.lists (c : Chronicle opts g deeds k) :
    k.attempted = g.attempted ++ deeds.filterMap (·.round.attempt?) ∧
      k.offered = g.offered ++ deeds.filterMap (·.round.offer?) := by
  induction c with
  | nil g => simp
  | cons told next first rest ih =>
    obtain ⟨attempts, offers⟩ := first.lists told next
    simp [ih, attempts, offers, filterMap_cons_toList]

theorem Advance.isCompleted (first : Advance opts g events k) (h : g.Sound)
    (done : g.session.isCompleted id = true) : k.session.isCompleted id = true := by
  cases first with
  | @attempt ids x events u r told next run =>
    obtain ⟨r, same, _⟩ := h.attempt_eq told next run
    cases same
    have incomplete := ((h.steady.mem_eligible_iff told).mp (nextRound_attempt next).1).2.1
    rw [isCompleted_store_of_ne r (ne_of_isCompleted incomplete done)]
    exact done
  | leave => exact done
  | @complete ids d offer events fields u told next user run completed =>
    obtain ⟨same, _⟩ := h.complete_eq told next fields
    cases same.symm.trans completed
    have incomplete := ((h.steady.mem_eligible_iff told).mp (nextRound_offer next).1).2.1
    rw [isCompleted_store_of_ne _ (ne_of_isCompleted incomplete done)]
    exact done

/-- A deed of a walk from `t`: its round was next at a sound stage, at which all that was completed
before the walk still is. -/
structure Deed.Due (opts : RunOptions) (t : Session) (d : Deed) (g k : Stage) (ids : List String) :
    Prop where
  sound : g.Sound
  session : g.session = d.session
  flow : g.session.flow = t.flow
  kept : ∀ x, t.isCompleted x = true → g.session.isCompleted x = true
  told : g.session.eligible = .ok ids
  next : g.next opts ids = some d.round
  advance : Advance opts g d.events k

theorem Chronicle.due (c : Chronicle opts g deeds k) (h : g.Sound) :
    ∀ d ∈ deeds, ∃ start stop ids, d.Due opts g.session start stop ids := by
  induction c with
  | nil g => simp
  | @cons g later k ids round events deeds told next first rest ih =>
    obtain ⟨sound, flow, _⟩ := first.sound h
    rw [List.forall_mem_cons]
    constructor
    · exact ⟨g, later, ids, h, rfl, rfl, fun x done => done, told, next, first⟩
    · intro d mem
      obtain ⟨start, stop, others, due⟩ := ih sound d mem
      -- What is kept from the second round on is kept from the first one on.
      refine ⟨start, stop, others, { due with flow := due.flow.trans flow, kept := ?_ }⟩
      intro x done
      exact due.kept x (first.isCompleted h done)

/-! ## Attempts -/

/-- Either nothing is sent for the step, or one request is: the one that was rendered, after the step
was marked as running. In the session in which it is on its way the step is not completed, and all
its prerequisites are. -/
inductive Sending (s : Session) (id : String) : List (Wire × Outcome) → Prop
  | nothing : Sending s id []
  | once {request : Request} {running : Session} (outcome : Outcome)
      (rendered : s.render id = .ok (.ok request))
      (marked : s.markRunning id request = .ok running)
      (incomplete : running.isCompleted id = false)
      (ready : ∀ p ∈ s.flow.prerequisites id, running.isCompleted p = true) :
      Sending s id [(request.wire, outcome)]

theorem Attempted.sending {sent : List (Wire × Outcome)} {out : Except Misuse (Session × StepResult)}
    (a : Attempted s id opts sent out) (h : s.Consistent) : Sending s id sent := by
  cases a with
  | forbidden | unrendered => exact .nothing
  | @settled d request events reply admitted rendered idle exchanged =>
    obtain ⟨_, _, incomplete, ready⟩ := (requireRunnable_ok_iff h).mp admitted
    have marked := markRunning_of_runnable h admitted idle request
    rcases runs_exchange exchanged with ⟨_, none, _⟩ | ⟨_, outcome, one, _⟩
    · rw [none]
      exact .nothing
    · rw [one]
      apply Sending.once outcome rendered marked
      · exact isCompleted_store_self s id _
      · exact missing_eq_nil_iff.mp (missing_store incomplete _ ready)

/-- An attempt as it should be: of an automatic step that neither was completed before the walk nor
is now, and whose prerequisites are. -/
structure Deed.Fair (t : Session) (d : Deed) (id : String) : Prop where
  automatic : t.flow.isManual id = false
  fresh : t.isCompleted id = false
  incomplete : d.session.isCompleted id = false
  ready : ∀ p ∈ t.flow.prerequisites id, d.session.isCompleted p = true
  sending : Sending d.session id (exchanges d.events)

theorem Deed.Due.fair {d : Deed} (due : d.Due opts t g k ids) (which : d.round = .attempt id) :
    d.Fair t id := by
  have next := due.next
  rw [which] at next
  obtain ⟨mem, automatic, _⟩ := nextRound_attempt next
  obtain ⟨_, incomplete, ready⟩ := (due.sound.steady.mem_eligible_iff due.told).mp mem
  have consistent := due.sound.steady.consistent
  obtain ⟨out, run⟩ := due.advance.attempt_runs due.told next
  have sending := (attempted_of_runs consistent run).sending consistent
  rw [missing_eq_nil_iff, due.flow, due.session] at ready
  rw [due.flow] at automatic
  rw [due.session] at incomplete sending
  refine ⟨automatic, ?_, incomplete, ready, sending⟩
  rw [← Bool.not_eq_true]
  intro done
  have still := due.kept id done
  rw [due.session, incomplete] at still
  cases still

/-! ## Offers -/

/-- An offer as it should be: of a manual step of the flow, when it is eligible, by one call of the
user's function. -/
structure Deed.Apt (opts : RunOptions) (t : Session) (d : Deed) (e : Step) : Prop where
  declared : t.flow.step? e.id = some e
  manual : e.manual = true
  eligible : ∃ ids, d.session.eligible = .ok ids ∧ e.id ∈ ids
  called : ∃ offer own reply, opts.onManual = some offer ∧ (offer e).Runs own reply ∧
    exchanges d.events = exchanges own

theorem step?_of_nextRound {f : Flow} {attempted offered : List String} {offers : Bool} {e : Step}
    (h : nextRound f ids attempted offered offers = some (.offer e)) : f.step? e.id = some e := by
  unfold nextRound at h
  split at h
  · cases h
  · split at h
    · split at h
      · obtain ⟨d, declared, same⟩ := Option.map_eq_some_iff.mp h
        cases same
        rwa [Flow.id_of_step? declared]
      · cases h
    · cases h

theorem Deed.Due.apt {d : Deed} {e : Step} (due : d.Due opts t g k ids)
    (which : d.round = .offer e) : d.Apt opts t e := by
  have next := due.next
  rw [which] at next
  obtain ⟨mem, manual, _⟩ := nextRound_offer next
  have declared : t.flow.step? e.id = some e := due.flow ▸ step?_of_nextRound next
  rw [due.flow, Flow.isManual_of_step? declared] at manual
  exact ⟨declared, manual, ⟨ids, due.session ▸ due.told, mem⟩,
    due.advance.offer_runs due.told next⟩

/-! ## Counting -/

theorem length_filter_eq_count {α : Type} (f : α → Option String) (l : List α) (id : String) :
    (l.filter (f · == some id)).length = (l.filterMap f).count id := by
  induction l with
  | nil => rfl
  | cons a l ih =>
    cases found : f a with
    | none => simp [found, ih]
    | some x => by_cases same : x = id <;> simp [found, same, ih]

theorem Sending.length_le {sent : List (Wire × Outcome)} (h : Sending s id sent) :
    sent.length ≤ 1 := by
  cases h <;> simp

theorem length_sentFor_le (once : (attemptsOf deeds id).length ≤ 1)
    (fair : ∀ d ∈ attemptsOf deeds id, (exchanges d.events).length ≤ 1) :
    (sentFor deeds id).length ≤ 1 := by
  unfold sentFor
  match attempts : attemptsOf deeds id, once with
  | [], _ => simp
  | [d], _ => simpa using fair d (by simp [attempts])

/-- A walk from `t` as it should be: it deals with a step in one round at most. -/
structure Sparing (opts : RunOptions) (t : Session) (m : Summary) (deeds : List Deed) : Prop where
  rounds : deeds.length ≤ t.flow.steps.length
  executed : m.executed = deeds.filterMap (·.round.attempt?)
  distinct : m.executed.Nodup
  attempts : ∀ id, (attemptsOf deeds id).length ≤ 1
  sent : ∀ id, (sentFor deeds id).length ≤ 1
  fair : ∀ d ∈ deeds, ∀ id, d.round = .attempt id → d.Fair t id
  settled : ∀ id, t.isCompleted id = true → sentFor deeds id = []
  offers : ∀ id, (offersOf deeds id).length ≤ 1
  apt : ∀ d ∈ deeds, ∀ e, d.round = .offer e → d.Apt opts t e

theorem mem_attemptsOf_iff {d : Deed} :
    d ∈ attemptsOf deeds id ↔ d ∈ deeds ∧ d.round = .attempt id := by
  rw [attemptsOf, List.mem_filter, beq_iff_eq]
  cases d.round <;> simp [Round.attempt?]

theorem Chronicle.sparing {m : Summary} {offered : List String} (steady : t.Steady)
    (c : Chronicle opts ⟨t, [], []⟩ deeds ⟨u, m.executed, offered⟩)
    (sound : Stage.Sound ⟨u, m.executed, offered⟩) (few : deeds.length ≤ t.flow.steps.length) :
    Sparing opts t m deeds := by
  obtain ⟨executed, offers⟩ := c.lists
  simp only [List.nil_append] at executed offers
  have distinct := List.nodup_append.mp sound.dealt.distinct
  have fair : ∀ d ∈ deeds, ∀ id, d.round = .attempt id → d.Fair t id := by
    intro d mem id which
    obtain ⟨_, _, _, due⟩ := c.due steady.stage_sound d mem
    exact due.fair which
  have attempts : ∀ id, (attemptsOf deeds id).length ≤ 1 := by
    intro id
    rw [attemptsOf, length_filter_eq_count (·.round.attempt?) deeds, ← executed]
    exact List.nodup_iff_count_le_one.mp distinct.1 id
  constructor
  case rounds => exact few
  case executed => exact executed
  case distinct => exact distinct.1
  case attempts => exact attempts
  case fair => exact fair
  case sent =>
    intro id
    apply length_sentFor_le (attempts id)
    intro d mem
    obtain ⟨mem, which⟩ := mem_attemptsOf_iff.mp mem
    exact (fair d mem id which).sending.length_le
  case settled =>
    intro id done
    have untried : attemptsOf deeds id = [] := by
      rw [List.eq_nil_iff_forall_not_mem]
      intro d mem
      obtain ⟨mem, which⟩ := mem_attemptsOf_iff.mp mem
      have fresh := (fair d mem id which).fresh
      rw [done] at fresh
      cases fresh
    rw [sentFor, untried, List.flatMap_nil]
  case offers =>
    intro id
    rw [offersOf, length_filter_eq_count (·.round.offer?) deeds, ← offers]
    exact List.nodup_iff_count_le_one.mp distinct.2.1 id
  case apt =>
    intro d mem e which
    obtain ⟨_, _, _, due⟩ := c.due steady.stage_sound d mem
    exact due.apt which

/-! ## Walks -/

/-- The rounds of a walk end, after as many as there are steps at most, whatever servers and users
answer, and a limit on them changes nothing. A walk that has ended has dealt with no step twice. -/
theorem sparing_of_walk {doc : Option Value} (compiled : Flow.ofDocument doc = .ok s.flow)
    (new : s.IsNew) (visits : Visits s t) (opts : RunOptions) :
    (∀ n path g, Advances opts n ⟨t, [], []⟩ path g →
      n ≤ t.flow.steps.length ∧ (g.Over opts ∨ ∃ events k, Advance opts g events k)) ∧
    (∀ fuel, t.flow.steps.length ≤ fuel →
      rounds opts fuel t [] [] = rounds opts t.flow.steps.length t [] []) ∧
    (∃ events out, (t.walk opts).Runs events out) ∧
    ∀ events u outcome, (t.walk opts).Runs events (u, outcome) → ∃ m deeds offered,
      outcome = .ok m ∧ Chronicle opts ⟨t, [], []⟩ deeds ⟨u, m.executed, offered⟩ ∧
        Stage.Over opts ⟨u, m.executed, offered⟩ ∧
        events = deeds.flatMap (·.events) ++ [.said (walkNote t.flow m)] ∧
        Sparing opts t m deeds := by
  have steady := (steady_of_visits new visits).1
  have bounded : ∀ n path g, Advances opts n ⟨t, [], []⟩ path g →
      g.Sound ∧ n ≤ t.flow.steps.length := by
    intro n path g advances
    obtain ⟨sound, flow, size⟩ := advances.sound steady.stage_sound
    have within := sound.size_le
    simp only [flow, size, Flow.order, List.length_map] at within
    exact ⟨sound, Nat.le_trans (Nat.le_add_left n _) within⟩
  refine ⟨?_, ?_, (accounts_of_walk compiled new visits opts).1, ?_⟩
  · intro n path g advances
    obtain ⟨sound, few⟩ := bounded n path g advances
    exact ⟨few, sound.over_or_advance⟩
  · intro fuel enough
    apply steady.stage_sound.rounds_eq_of_le _ enough
    simp [Stage.size, Flow.order]
  · intro events u outcome run
    obtain ⟨n, g, path, standings, advances, sound, spent, flow, _, ended, rfl⟩ :=
      steady.ends_of_walk run
    cases ended
    have few := (bounded n path g advances).2
    obtain ⟨deeds, chronicle, rfl, rfl⟩ := chronicle_of_advances advances
    exact ⟨_, deeds, g.offered, rfl, chronicle, spent, rfl, chronicle.sparing steady sound few⟩

/-- One request has succeeded and one has been refused before the walk. -/
theorem sparing_after_requests : ∃ (doc : Value) (s t : Session) (opts : RunOptions),
    Flow.ofDocument (some doc) = .ok s.flow ∧ s.IsNew ∧ Visits s t ∧
      t.isCompleted "list" = true ∧ t.status "fetch" = .failed ∧
      ∀ events u outcome, (t.walk opts).Runs events (u, outcome) →
        ∃ m deeds, outcome = .ok m ∧ Sparing opts t m deeds ∧ sentFor deeds "list" = [] := by
  let s : Session :=
    { flow :=
        { steps :=
            [⟨"list", "list", "", [], [], [], some ⟨"GET", "/list", [], none, none⟩, []⟩,
              ⟨"fetch", "fetch", "", [], [], ["list"], some ⟨"GET", "/f", [], none, none⟩, []⟩]
          endpointDefaults := [], schedule := ["list", "fetch"], warnings := [] } }
  have compiled : Flow.ofDocument (some (.mapping
      [("steps", .list [.mapping [("id", .text "list")], .mapping [("id", .text "fetch")]]),
        ("dependencies", .mapping [("fetch", .list [.text "list"])]),
        ("requests", .mapping [("list", .mapping [("url", .text "/list")]),
          ("fetch", .mapping [("url", .text "/f")])])])) = .ok s.flow := rfl
  have listed := @Visits.attempt s s "list" { limit := .ofInt 1000 } _ _ .start
    (.note (.note (@Talk.Runs.send _ _ _ (.answered ⟨200, "OK", [], .ok ""⟩) _ _
      (.note (.done _)))))
  have refused := @Visits.attempt s _ "fetch" { limit := .ofInt 1000 } _ _ listed
    (.note (.note (@Talk.Runs.send _ _ _ (.answered ⟨500, "Error", [], .ok ""⟩) _ _
      (.note (.done _)))))
  refine ⟨_, s, _, { limit := .ofInt 1000 }, compiled, rfl, refused, rfl, rfl, ?_⟩
  intro events u outcome run
  obtain ⟨m, deeds, _, ended, _, _, _, sparing⟩ :=
    (sparing_of_walk compiled rfl refused _).2.2.2 _ _ _ run
  exact ⟨m, deeds, ended, sparing, sparing.settled "list" rfl⟩

end Session

end Walkthrough
