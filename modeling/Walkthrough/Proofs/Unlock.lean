import Walkthrough.Proofs.Eligible
import Walkthrough.Proofs.WriteOnce

/-!
# What a completed step makes eligible

Only a completion changes which steps are eligible. It takes the completed step off the list and puts
the steps on it that have waited for that step alone. No other step comes or goes, and the steps stay
in declared order (`Session.eligible_of_answer`).
-/

namespace Walkthrough.Session

variable {s t u : Session} {id x : String} {r : StepResult} {c : Call}

/-- The step is not completed, and its prerequisites are. -/
def Ready (s : Session) (id : String) : Prop :=
  s.isCompleted id = false ∧ s.missing id = []

instance : Decidable (s.Ready id) :=
  inferInstanceAs (Decidable (_ ∧ _))

/-- The step is not completed, and of its prerequisites the given one alone is missing. -/
def WaitsOnlyFor (s : Session) (x id : String) : Prop :=
  s.isCompleted id = false ∧ x ∈ s.flow.prerequisites id ∧
    ∀ p ∈ s.flow.prerequisites id, p ≠ x → s.isCompleted p = true

instance : Decidable (s.WaitsOnlyFor x id) :=
  inferInstanceAs (Decidable (_ ∧ _ ∧ _))

theorem Consistent.eligible_eq_filter (h : s.Consistent) :
    s.eligible = .ok (s.flow.order.filter (s.Ready ·)) := by
  rw [eligible_eq h, eligibleAmong]
  congr 1
  refine List.filter_congr fun id _ => ?_
  rw [Bool.eq_iff_iff]
  simp [Ready, missing_eq_nil_iff, mem_completed_iff h]

/-! ## Storing a result -/

/-- A result that completes nothing leaves every step as ready as it was. -/
theorem ready_store_of_not (incomplete : s.isCompleted id = false)
    (unfinished : r.status ≠ .completed) : (s.store id r).Ready x ↔ s.Ready x := by
  rw [Ready, isCompleted_store_of_ne_completed incomplete unfinished,
    missing_store_of_ne_completed incomplete unfinished, Ready]

/-- With a step completed, the steps are ready that were so before, itself apart, and those that have
waited for it alone. -/
theorem ready_store_iff (ready : s.Ready id) (done : r.status = .completed) :
    (s.store id r).Ready x ↔ s.Ready x ∧ x ≠ id ∨ s.WaitsOnlyFor id x := by
  have completed (y : String) :
      (s.store id r).isCompleted y = true ↔ id = y ∨ s.isCompleted y = true :=
    isCompleted_store_iff done
  have undone : (s.store id r).isCompleted x = false ↔ id ≠ x ∧ s.isCompleted x = false := by
    rw [← Bool.not_eq_true, completed, not_or, Bool.not_eq_true]
  rw [Ready, missing_eq_nil_iff, undone]
  simp only [flow_store, completed]
  constructor
  · rintro ⟨⟨apart, incomplete⟩, met⟩
    by_cases waits : id ∈ s.flow.prerequisites x
    · exact Or.inr ⟨incomplete, waits, fun p link other => (met p link).resolve_left other.symm⟩
    · -- The completed step is no prerequisite, so the prerequisites were completed before.
      refine Or.inl ⟨⟨incomplete, missing_eq_nil_iff.mpr fun p link => ?_⟩, apart.symm⟩
      exact (met p link).resolve_left fun same => waits (same ▸ link)
  · rintro (⟨⟨incomplete, met⟩, apart⟩ | ⟨incomplete, waits, others⟩)
    · exact ⟨⟨apart.symm, incomplete⟩, fun p link => Or.inr (missing_eq_nil_iff.mp met p link)⟩
    · refine ⟨⟨?_, incomplete⟩, fun p link => ?_⟩
      · -- The completed step did not wait for itself: its prerequisites were completed.
        rintro rfl
        have own := missing_eq_nil_iff.mp ready.2 id waits
        rw [incomplete] at own
        cases own
      · by_cases same : p = id
        · exact Or.inl same.symm
        · exact Or.inr (others p link same)

/-! ## Accepted writes -/

/-- The eligible steps before and after the completion of a step: it was eligible, the others still
are, in the order that they had, and the steps that have waited for it alone are among them now, each
in its declared place. -/
structure Unlocked (t : Session) (x : String) (ids later : List String) : Prop where
  mem : x ∈ ids
  kept : (ids.erase x).Sublist later
  eq : later = t.flow.order.filter fun id => id ∈ ids ∧ id ≠ x ∨ t.WaitsOnlyFor x id

/-- Whatever calls a session has come to, an accepted write changes which steps are eligible only
where it completes a step. Then the list is the one from before, without that step, and with the
incomplete steps that have it among their prerequisites and all others of these completed. -/
theorem eligible_of_answer {doc : Option Value} (compiled : Flow.ofDocument doc = .ok s.flow)
    (new : s.IsNew) {calls : List Call} (reached : s.afterAll calls = t)
    (accepted : t.answer c = .ok u) (write : c.written? = some x) :
    ∃ ids later, t.eligible = .ok ids ∧ u.eligible = .ok later ∧
      (c.completing = true → Unlocked t x ids later) ∧ (c.completing = false → later = ids) := by
  have flow : t.flow = s.flow := reached ▸ flow_afterAll s calls
  have distinct : t.flow.order.Nodup := flow ▸ (Flow.wellFormed_of_ofDocument compiled).distinct
  have consistent : t.Consistent := reached ▸ new.consistent_afterAll calls
  obtain ⟨r, rfl, declared, incomplete, completes, ready⟩ := exists_store_of_write accepted write
  have stored := consistent.store declared incomplete ready
  refine ⟨_, _, consistent.eligible_eq_filter, stored.eligible_eq_filter, fun done => ?_,
    fun undone => ?_⟩
  · rw [← completes] at done
    have here : t.Ready x := ⟨incomplete, ready done⟩
    refine ⟨?_, ?_, ?_⟩
    · simpa using ⟨declared, here⟩
    · rw [(distinct.filter _).erase_eq_filter, List.filter_filter]
      refine List.monotone_filter_right _ fun id kept => ?_
      rw [Bool.and_eq_true, bne_iff_ne, decide_eq_true_eq] at kept
      simpa [ready_store_iff here done] using Or.inl kept.symm
    · refine List.filter_congr fun id mem => ?_
      rw [flow_store] at mem
      simp [ready_store_iff here done, mem]
  · have unfinished : r.status ≠ .completed := fun done => by
      rw [completes.mp done] at undone
      cases undone
    refine List.filter_congr fun id _ => ?_
    simp [ready_store_of_not incomplete unfinished]

/-- The login is completed while one step is eligible, one has failed before its time, and one waits
for a step that is completed already. -/
theorem unlocked_by_login : ∃ (doc : Value) (s t u : Session) (calls : List Call) (c : Call),
    Flow.ofDocument (some doc) = .ok s.flow ∧ s.IsNew ∧ s.afterAll calls = t ∧
      t.answer c = .ok u ∧ c.written? = some "login" ∧ t.status "list" = .failed ∧
        t.isCompleted "fetch" = true ∧ t.eligible = .ok ["ping", "login"] ∧
          u.eligible = .ok ["ping", "list", "report"] ∧
            Unlocked t "login" ["ping", "login"] ["ping", "list", "report"] := by
  let s : Session :=
    { flow :=
        { steps :=
            [⟨"ping", "ping", "", [], [], [], some ⟨"GET", "/ping", [], none, none⟩, []⟩,
              ⟨"login", "login", "", [], [], [], none, []⟩,
              ⟨"fetch", "fetch", "", [], [], [], some ⟨"GET", "/f", [], none, none⟩, []⟩,
              ⟨"list", "list", "", [], [], ["login"], some ⟨"GET", "/l", [], none, none⟩, []⟩,
              ⟨"report", "report", "", [], [], ["fetch", "login"], none, []⟩]
          endpointDefaults := [], schedule := ["ping", "login", "fetch", "list", "report"]
          warnings := [] } }
  have compiled : Flow.ofDocument (some (.mapping
      [("steps", .list [.mapping [("id", .text "ping")],
          .mapping [("id", .text "login"), ("manual", .bool true)],
          .mapping [("id", .text "fetch")], .mapping [("id", .text "list")],
          .mapping [("id", .text "report"), ("manual", .bool true)]]),
        ("dependencies", .mapping [("list", .list [.text "login"]),
          ("report", .list [.text "fetch", .text "login"])]),
        ("requests", .mapping [("ping", .mapping [("url", .text "/ping")]),
          ("fetch", .mapping [("url", .text "/f")]),
          ("list", .mapping [("url", .text "/l")])])])) = .ok s.flow := rfl
  let calls : List Call :=
    [.record "list" { status := .failed, origin := .http },
      .record "fetch" { status := .completed, origin := .http }]
  have answered : (s.afterAll calls).answer (.completeManual "login" []) = .ok _ := rfl
  obtain ⟨ids, later, before, after, unlocked, _⟩ :=
    eligible_of_answer compiled rfl (rfl : s.afterAll calls = _) answered rfl
  have first : (s.afterAll calls).eligible = .ok ["ping", "login"] := by decide +kernel
  have second : ((s.afterAll calls).store "login" (manualResult [])).eligible =
      .ok ["ping", "list", "report"] := by decide +kernel
  cases before.symm.trans first
  cases after.symm.trans second
  exact ⟨_, s, _, _, calls, .completeManual "login" [], compiled, rfl, rfl, answered, rfl, rfl, rfl,
    before, after, unlocked rfl⟩

end Walkthrough.Session
