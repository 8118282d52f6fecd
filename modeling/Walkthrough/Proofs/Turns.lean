import Walkthrough.Proofs.Queue
import Walkthrough.Proofs.Summary

/-!
# The order in which a walk attempts steps

Where all steps are automatic and none fails, the completed steps are those that the walk has
attempted, so that the eligible steps are the ready ones. Each round takes the first of them in
declared order (`Session.Advances.earliest`), not the one that has been ready longest.
-/

namespace Walkthrough.Session

open Walkthrough.Order (Links linksOf Earliest Each ready mem_ready_iff)

variable {opts : RunOptions} {s t u : Session} {id x : String} {ids : List String} {f : Flow}
  {events : List Event} {g k : Stage} {order : List String} {links : Links}

/-- The flow has the declared order and the prerequisites, and sends a request for each step. -/
structure Automatic (f : Flow) (order : List String) (links : Links) : Prop where
  declared : f.order = order
  linked : ∀ id ∈ order, ∀ p, p ∈ linksOf links id ↔ p ∈ f.prerequisites id
  automatic : ∀ id, f.isManual id = false

/-! ## Rounds -/

/-- What holds between the rounds of a walk through a new session of automatic steps. -/
structure Stage.Plain (g : Stage) (order : List String) (links : Links) : Prop where
  sound : g.Sound
  flow : Automatic g.session.flow order links
  own : ∀ id, g.session.result? id ≠ none → id ∈ g.attempted

theorem Stage.Plain.attempt (h : g.Plain order links) (first : Advance opts g events k) :
    ∃ ids id r, g.session.eligible = .ok ids ∧
      ids.find? (fun id => !g.session.flow.isManual id && !g.attempted.contains id) = some id ∧
      k = ⟨g.session.store id r, g.attempted ++ [id], g.offered⟩ := by
  have unoffered : ∀ {ids d}, g.next opts ids ≠ some (.offer d) := fun next => by
    have manual := (nextRound_offer next).2.1
    rw [h.flow.automatic] at manual
    cases manual
  cases first with
  | attempt told next run =>
    obtain ⟨r, same, _⟩ := h.sound.attempt_eq told next run
    cases same
    exact ⟨_, _, _, told, find?_of_nextRound next, rfl⟩
  | leave _ next => exact absurd next unoffered
  | complete _ next => exact absurd next unoffered

theorem Stage.Plain.after (h : g.Plain order links) (first : Advance opts g events k) :
    k.Plain order links := by
  refine ⟨(first.sound h.sound).1, ?_, ?_⟩
  · rw [(first.sound h.sound).2.1]
    exact h.flow
  · obtain ⟨_, id, r, _, _, rfl⟩ := h.attempt first
    intro x stored
    rw [result?_store] at stored
    split at stored
    next same => simp [same]
    next => exact List.mem_append_left _ (h.own x stored)

/-- Every step that has been attempted is completed. -/
def Stage.Smooth (g : Stage) : Prop :=
  ∀ id ∈ g.attempted, g.session.isCompleted id = true

theorem Stage.Plain.mem_attempted_iff (h : g.Plain order links) (smooth : g.Smooth) :
    id ∈ g.attempted ↔ g.session.isCompleted id = true := by
  constructor
  · exact smooth id
  · intro done
    obtain ⟨r, found, _⟩ := isCompleted_iff.mp done
    exact h.own id (by simp [found])

/-- As long as nothing has failed, the eligible steps are those that wait for nothing but what has
been attempted. -/
theorem Stage.Plain.eligible_eq (h : g.Plain order links) (smooth : g.Smooth) :
    g.session.eligible = .ok (ready order links g.attempted) := by
  have consistent := h.sound.steady.consistent
  have dealt : ∀ x, x ∈ g.session.completed ↔ x ∈ g.attempted := fun x =>
    (mem_completed_iff consistent).trans (h.mem_attempted_iff smooth).symm
  rw [Session.eligible_eq consistent, eligibleAmong, h.flow.declared, ready]
  refine congrArg Except.ok (List.filter_congr fun id mem => ?_)
  rw [Bool.eq_iff_iff]
  simp [dealt, h.flow.linked id mem]

theorem Stage.Plain.earliest (h : g.Plain order links) (declared : order.Nodup) (smooth : g.Smooth)
    (told : g.session.eligible = .ok ids)
    (found : ids.find? (fun id => !g.session.flow.isManual id && !g.attempted.contains id) =
      some id) : Earliest order links g.attempted id := by
  cases told.symm.trans (h.eligible_eq smooth)
  refine Order.earliest_of_head? declared ?_
  -- None of the ready steps is manual or has been attempted, so that the first one is found.
  rw [← found, ← List.head?_filter, List.filter_eq_self.mpr]
  intro x mem
  have unplaced := (mem_ready_iff.mp mem).2.1
  simp [h.flow.automatic x, unplaced]

/-- Each round attempts the earliest declared of the ready steps. -/
theorem Advances.earliest {n : Nat} (path : Advances opts n g events k) (h : g.Plain order links)
    (declared : order.Nodup) (smooth : k.Smooth) :
    g.Smooth ∧ k.Plain order links ∧
      ∃ rest, k.attempted = g.attempted ++ rest ∧ Each (Earliest order links) g.attempted rest := by
  induction path with
  | none g => exact ⟨smooth, h, [], by simp, Order.each_nil _ _⟩
  | @next _ g _ _ _ _ first _ ih =>
    obtain ⟨smoothThere, plain, more, attempts, each⟩ := ih (h.after first) smooth
    obtain ⟨ids, id, r, told, found, rfl⟩ := h.attempt first
    obtain ⟨mem, _, once⟩ := of_find? found
    have smoothHere : g.Smooth := fun x tried => by
      have done := smoothThere x (List.mem_append_left _ tried)
      have other : id ≠ x := fun same => once (same ▸ tried)
      rwa [isCompleted_store_of_ne r other] at done
    refine ⟨smoothHere, plain, id :: more, by simp [attempts], ?_⟩
    rw [Order.each_cons_iff]
    exact ⟨h.earliest declared smoothHere told found, each⟩

/-! ## Walks -/

theorem Stage.Plain.perm_of_over (h : g.Plain order links) (wf : g.session.flow.WellFormed)
    (smooth : g.Smooth) (spent : g.Over opts) : g.attempted.Perm order := by
  have told := h.eligible_eq smooth
  -- A ready step has not been attempted, so it would have been attempted before the end.
  have nothing : ready order links g.attempted = [] := by
    rw [List.eq_nil_iff_forall_not_mem]
    intro id now
    exact (mem_ready_iff.mp now).2.1 (spent.tried h.sound told now (h.flow.automatic id))
  have all := (eligible_eq_nil_iff wf h.sound.steady.consistent told).mp nothing
  have dealt := h.sound.dealt
  have distinct := wf.distinct
  rw [h.flow.declared] at all distinct
  have once := (List.nodup_append.mp dealt.distinct).1
  refine (List.perm_ext_iff_of_nodup once distinct).mpr fun id => ?_
  constructor
  · intro tried
    rw [← h.flow.declared]
    exact dealt.declared id (List.mem_append_left _ tried)
  · intro mem
    exact (h.mem_attempted_iff smooth).mpr (all id mem)

/-- A walk through a new session of automatic steps ends well. If none of them fails, it attempts
all of them, the earliest declared of the ready ones each time. -/
theorem earliest_of_walk {doc : Option Value} (compiled : Flow.ofDocument doc = .ok s.flow)
    (new : s.IsNew) (plan : Automatic s.flow order links) {outcome : Except Misuse Summary}
    (run : (s.walk opts).Runs events (u, outcome)) :
    ∃ m, outcome = .ok m ∧
      (m.failed = [] → m.executed.Perm order ∧ Each (Earliest order links) [] m.executed) := by
  have wf := Flow.wellFormed_of_ofDocument compiled
  obtain ⟨n, g, path, standings, advances, sound, spent, flow, classified, ended, rfl⟩ :=
    new.steady.ends_of_walk run
  cases ended
  have accounts := spent.accounts sound (flow.symm ▸ wf) classified
  rw [flow] at accounts
  refine ⟨_, rfl, fun none => ?_⟩
  have smooth : g.Smooth := by
    intro id tried
    obtain ⟨r, found⟩ := Option.ne_none_iff_exists'.mp (sound.tried id tried)
    rcases sound.steady.final id r found with completed | failed
    · exact isCompleted_iff.mpr ⟨r, found, completed⟩
    · have declared := sound.dealt.declared id (List.mem_append_left _ tried)
      have listed := (accounts.failed id).mpr ⟨declared, by simp [status, found, failed]⟩
      rw [none] at listed
      cases listed
  have start : Stage.Plain ⟨s, [], []⟩ order links :=
    ⟨new.steady.stage_sound, plan, fun id stored => absurd (new.result? id) stored⟩
  have distinct := plan.declared ▸ wf.distinct
  obtain ⟨_, plain, rest, attempts, each⟩ := advances.earliest start distinct smooth
  rw [List.nil_append] at attempts
  exact ⟨plain.perm_of_over (flow.symm ▸ wf) smooth spent, attempts ▸ each⟩

end Walkthrough.Session

namespace Walkthrough.Order

open Relation (TransGen)

variable {order : List String} {links : Links}

/-- Without cycles there is one order, in which each step is the first of the ready ones to have
become so. It takes the earliest declared of the ready steps each time exactly when no step becomes
ready that is declared before one that is waiting, and under the same condition alone declared order
comes out as it is when it has all prerequisites first. A walk through a new session in which
nothing fails takes the earliest declared each time. -/
theorem arrange_ok_iff_foremost (declared : order.Nodup) (unreserved : Record.reserved ∉ order)
    (listed : ∀ id ∈ order, links.has id = true ∨ id ∉ Record.innate)
    (linked : ∀ id ∈ order, ∀ p ∈ linksOf links id, p ∈ order)
    (acyclic : ∀ id ∈ order, ¬TransGen (Linked (linksOf links)) id id) :
    (∀ out, arrange order links = .ok out ↔
      out.Perm order ∧ Each (Foremost order links) [] out) ∧
    (∃ out, arrange order links = .ok out ∧
      (Each (Earliest order links) [] out ↔ Each (Orderly order links) [] out)) ∧
    (Behind links [] order →
      (arrange order links = .ok order ↔ Each (Orderly order links) [] order)) ∧
    ∀ (doc : Option Value) (s : Session), Flow.ofDocument doc = .ok s.flow → s.IsNew →
      Session.Automatic s.flow order links → ∀ opts events u outcome,
        (s.walk opts).Runs events (u, outcome) → ∃ m, outcome = .ok m ∧ (m.failed = [] →
          m.executed.Perm order ∧ Each (Earliest order links) [] m.executed ∧
            (Behind links [] order → m.executed = order)) := by
  have settled : ∀ out, arrange order links = .ok out ↔
      out.Perm order ∧ Each (Foremost order links) [] out := fun out => by
    rw [arrange_eq_sort_of_linked listed linked, Checks.mapError_ok_iff]
    exact sort_ok_iff_foremost declared unreserved linked acyclic
  refine ⟨settled, ?_, ?_, ?_⟩
  · have sorted : arrange order links = .ok (placed order links) := by
      rw [arrange_eq_sort_of_linked listed linked, Checks.mapError_ok_iff]
      exact sort_of_acyclic declared unreserved linked acyclic
    obtain ⟨perm, queued⟩ := (settled _).mp sorted
    have all : ∀ id ∈ order, id ∈ placed order links := fun id mem => perm.mem_iff.mpr mem
    exact ⟨_, sorted, orderly_of_foremost all queued, earliest_of_foremost queued⟩
  · intro behind
    have eager := behind.each_earliest declared
    rw [settled]
    constructor
    · rintro ⟨_, queued⟩
      exact orderly_of_foremost (fun _ mem => mem) queued eager
    · intro orderly
      exact ⟨List.Perm.refl order, foremost_of_earliest eager orderly⟩
  · intro doc s compiled new plan opts events u outcome run
    obtain ⟨m, rfl, smooth⟩ := Session.earliest_of_walk compiled new plan run
    refine ⟨m, rfl, fun none => ?_⟩
    obtain ⟨perm, eager⟩ := smooth none
    refine ⟨perm, eager, fun behind => ?_⟩
    exact eager.unique (fun _ _ _ first second => first.unique second)
      (behind.each_earliest declared) perm.length_eq

/-- The order has the report before the list, which waits for the login; a walk has the list
first. -/
theorem foremost_of_late_list : ∃ (order : List String) (links : Links), order.Nodup ∧
    Record.reserved ∉ order ∧ (∀ id ∈ order, links.has id = true ∨ id ∉ Record.innate) ∧
      (∀ id ∈ order, ∀ p ∈ linksOf links id, p ∈ order) ∧
        (∀ id ∈ order, ¬TransGen (Linked (linksOf links)) id id) ∧
          arrange order links = .ok ["login", "report", "list"] ∧
            Each (Foremost order links) [] ["login", "report", "list"] ∧
              ∃ (doc : Value) (s u : Session) (opts : RunOptions) (events : List Event) (m : Summary),
                Flow.ofDocument (some doc) = .ok s.flow ∧ s.IsNew ∧
                  Session.Automatic s.flow order links ∧ (s.walk opts).Runs events (u, .ok m) ∧
                    m.failed = [] ∧ m.executed = ["login", "list", "report"] ∧
                      Each (Earliest order links) [] m.executed := by
  let order := ["login", "list", "report"]
  let links : Links := [("login", []), ("list", ["login"]), ("report", [])]
  have arranged : arrange order links = .ok ["login", "report", "list"] := by decide +kernel
  have distinct : order.Nodup := by decide
  have unreserved : Record.reserved ∉ order := by decide
  have listed : ∀ id ∈ order, links.has id = true ∨ id ∉ Record.innate := by decide
  have linked : ∀ id ∈ order, ∀ p ∈ linksOf links id, p ∈ order := by decide
  have keyed : ∀ id ∈ order, ∃ ps, links.lookup id = some ps ∧ ∀ p ∈ ps, p ∈ order := by
    simp [order, links, List.lookup_cons]
  have acyclic := (arrange_iff_acyclic distinct unreserved keyed).1.mp ⟨_, arranged⟩
  let s : Session :=
    { flow :=
        { steps :=
            [⟨"login", "login", "", [], [], [], some ⟨"POST", "/login", [], none, none⟩, []⟩,
              ⟨"list", "list", "", [], [], ["login"], some ⟨"GET", "/list", [], none, none⟩, []⟩,
              ⟨"report", "report", "", [], [], [], some ⟨"GET", "/report", [], none, none⟩, []⟩]
          endpointDefaults := [], schedule := ["login", "report", "list"], warnings := [] } }
  have compiled : Flow.ofDocument (some (.mapping
      [("steps", .list [.mapping [("id", .text "login")], .mapping [("id", .text "list")],
          .mapping [("id", .text "report")]]),
        ("dependencies", .mapping [("list", .list [.text "login"])]),
        ("requests", .mapping
          [("login", .mapping [("method", .text "POST"), ("url", .text "/login")]),
            ("list", .mapping [("url", .text "/list")]),
            ("report", .mapping [("url", .text "/report")])])])) = .ok s.flow := rfl
  have plan : Session.Automatic s.flow order links := by
    refine ⟨rfl, ?_, fun id => ?_⟩
    · simp [order, links, linksOf, List.lookup_cons, Flow.prerequisites, Flow.step?, s]
    · simp only [Flow.isManual, Flow.step?, s, List.find?_cons]
      cases "login" == id <;> cases "list" == id <;> cases "report" == id <;> rfl
  have run : (s.walk { limit := .ofInt 1000 }).Runs _ (_, .ok _) :=
    .note (.note (@Talk.Runs.send _ _ _ (.answered ⟨200, "OK", [], .ok ""⟩) _ _ (.note
      (.note (.note (@Talk.Runs.send _ _ _ (.answered ⟨200, "OK", [], .ok ""⟩) _ _ (.note
        (.note (.note (@Talk.Runs.send _ _ _ (.answered ⟨200, "OK", [], .ok ""⟩) _ _ (.note
          (.note (.done _)))))))))))))
  obtain ⟨settled, _, _, walked⟩ :=
    arrange_ok_iff_foremost distinct unreserved listed linked acyclic
  obtain ⟨m, ended, smooth⟩ := walked _ s compiled rfl plan _ _ _ _ run
  cases ended
  exact ⟨order, links, distinct, unreserved, listed, linked, acyclic, arranged,
    ((settled _).mp arranged).2, _, s, _, _, _, _, compiled, rfl, plan, run, rfl, rfl,
    (smooth rfl).2.1⟩

/-- The report is ready from the start, and so it is placed before the list, which is declared
before it and is ready when it is placed. -/
theorem overtaken_in_queue :
    Behind [("login", []), ("list", ["login"]), ("report", [])] [] ["login", "list", "report"] ∧
    arrange ["login", "list", "report"] [("login", []), ("list", ["login"]), ("report", [])] =
      .ok ["login", "report", "list"] ∧
    ¬Each (Earliest ["login", "list", "report"]
      [("login", []), ("list", ["login"]), ("report", [])]) [] ["login", "report", "list"] := by
  refine ⟨by simp [Behind, linksOf, List.lookup_cons], by decide +kernel, fun eager => ?_⟩
  have least := (eager ["login"] "report" ["list"] rfl).2 "list" (by decide)
  revert least
  decide

end Walkthrough.Order
