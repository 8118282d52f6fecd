import Mathlib.Data.List.Induction
import Walkthrough.Proofs.Session

/-!
# The gate at the writes of a session

A manual step is to be completed by hand, and a step is to be under way only when all its
prerequisites are completed (`Session.Gated`). Of the three writes, `Session.markRunning` and
`Session.completeManual` check both. `Session.record` asks neither whether a completed step is manual
nor, of a result that is under way, whether the prerequisites are there; so it can be used to get
around the gate (`Session.Bypasses`). That is the only way: all states of a session are gated exactly
when no call bypasses the gate (`Session.gated_iff`).
-/

namespace Walkthrough.Session

variable {s : Session} {id x : String} {r : StepResult} {c : Call}

/-- Manual steps are completed by hand alone, and what is under way waits for nothing. -/
structure Gated (s : Session) : Prop where
  byHand : ∀ id r, s.flow.isManual id = true → s.result? id = some r → r.status = .completed →
    r.origin = .manual
  ready : ∀ id, s.status id = .running → ∀ p ∈ s.flow.prerequisites id, s.isCompleted p = true

/-- A result that the gate would not let through: a manual step completed without a hand, or a step
under way that waits for another. -/
def Forged (s : Session) (id : String) (r : StepResult) : Prop :=
  s.flow.isManual id = true ∧ r.status = .completed ∧ r.origin ≠ .manual ∨
    r.status = .running ∧ s.missing id ≠ []

/-- The call is a report that is accepted although the gate would not let it through. -/
def Bypasses (s : Session) (c : Call) : Prop :=
  ∃ id r t, c = .record id r ∧ s.answer c = .ok t ∧ s.Forged id r

theorem IsNew.gated (new : s.IsNew) : s.Gated where
  byHand := fun id r _ found _ => by
    rw [new.result?] at found
    cases found
  ready := fun id under => by simp [status, new.result?] at under

/-! ## One call -/

theorem exists_result_of_running (under : s.status x = .running) :
    ∃ r, s.result? x = some r ∧ r.status = .running := by
  unfold status at under
  cases found : s.result? x with
  | none => simp [found] at under
  | some r => exact ⟨r, rfl, by simpa [found] using under⟩

/-- A result keeps the gate exactly when the gate lets it through. -/
theorem Gated.store_iff (h : s.Gated) (incomplete : s.isCompleted id = false) :
    (s.store id r).Gated ↔ ¬s.Forged id r := by
  constructor
  · rintro gated (⟨manual, completed, byRequest⟩ | ⟨under, waits⟩)
    · exact byRequest (gated.byHand id r manual (by simp [result?_store]) completed)
    · have now : (s.store id r).status id = .running := by simp [status_store, under]
      have ready := missing_eq_nil_iff.mpr (gated.ready id now)
      rw [missing_store_of_ne_completed incomplete (by simp [under])] at ready
      exact waits ready
  · intro genuine
    unfold Forged at genuine
    push Not at genuine
    refine ⟨fun x other manual found completed => ?_, fun x under => ?_⟩
    · rw [result?_store] at found
      split at found
      next same =>
        cases found
        exact genuine.1 (same ▸ manual) completed
      next => exact h.byHand x other manual found completed
    · rw [status_store] at under
      -- A step under way was ready when it was stored, and the result stored now completes one step
      -- or none.
      refine missing_eq_nil_iff.mp (missing_store incomplete r ?_)
      split at under
      next same => exact same ▸ genuine.2 under
      next => exact missing_eq_nil_iff.mpr (h.ready x under)

theorem Gated.cleanse (h : s.Gated) (declared : id ∈ s.flow.order) : (s.cleanse id).Gated := by
  refine ⟨fun x r manual found completed => ?_, fun x under => ?_⟩
  · exact h.byHand x r manual (result?_cleanse_eq_some declared found).2 completed
  · obtain ⟨r, found, running⟩ := exists_result_of_running under
    obtain ⟨unaffected, kept⟩ := result?_cleanse_eq_some declared found
    have before : s.status x = .running := by simp [status, kept, running]
    have ready := missing_eq_nil_iff.mpr (h.ready x before)
    rw [← missing_cleanse declared unaffected] at ready
    exact missing_eq_nil_iff.mp ready

theorem not_bypasses_of_error {m : Misuse} (refused : s.answer c = .error m) :
    ¬s.Bypasses c := by
  rintro ⟨_, _, t, _, accepted, _⟩
  rw [refused] at accepted
  cases accepted

theorem not_bypasses_of_ne (other : ∀ id r, c ≠ .record id r) : ¬s.Bypasses c := by
  rintro ⟨id, r, _, report, _⟩
  exact other id r report

/-- A call keeps the gate exactly when it does not bypass it. -/
theorem Gated.after_iff (h : s.Gated) (c : Call) : (s.after c).Gated ↔ ¬s.Bypasses c := by
  cases made : s.answer c with
  | error m =>
    rw [after_of_answer_error made]
    exact iff_of_true h (not_bypasses_of_error made)
  | ok t =>
    rw [after_of_answer_ok made]
    cases c with
    | record id r =>
      obtain ⟨d, _, incomplete, _, rfl⟩ := record_ok_iff.mp made
      refine (h.store_iff incomplete).trans (not_congr ⟨fun forged => ?_, ?_⟩)
      · exact ⟨id, r, _, rfl, made, forged⟩
      · rintro ⟨_, _, _, same, _, forged⟩
        cases same
        exact forged
    -- The other calls are no reports, so they cannot bypass the gate; and each of them keeps it.
    | markRunning id request =>
      obtain ⟨d, _, _, incomplete, _, ready, rfl⟩ := markRunning_ok_iff.mp made
      have genuine : ¬s.Forged id (underWay request) := by simp [Forged, underWay, ready]
      refine iff_of_true ((h.store_iff incomplete).mpr genuine) (not_bypasses_of_ne ?_)
      intro _ _ report
      cases report
    | completeManual id fields =>
      obtain ⟨d, _, _, incomplete, _, rfl⟩ := completeManual_ok_iff.mp made
      have genuine : ¬s.Forged id (manualResult fields) := by simp [Forged, manualResult]
      refine iff_of_true ((h.store_iff incomplete).mpr genuine) (not_bypasses_of_ne ?_)
      intro _ _ report
      cases report
    | restart id =>
      obtain ⟨⟨_, _⟩, restarted, rfl⟩ := Checks.map_ok_iff.mp made
      obtain ⟨d, found, rfl, _⟩ := restart_ok_iff.mp restarted
      refine iff_of_true (h.cleanse (Flow.mem_order_of_step? found)) (not_bypasses_of_ne ?_)
      intro _ _ report
      cases report

/-! ## All calls -/

/-- Of a new session, all states that a sequence of calls goes through are gated exactly when no call
of the sequence bypasses the gate. -/
theorem gated_iff (new : s.IsNew) (calls : List Call) :
    (∀ before, before <+: calls → (s.afterAll before).Gated) ↔
      ∀ before c, before ++ [c] <+: calls → ¬(s.afterAll before).Bypasses c := by
  constructor
  · intro gated before c here
    have earlier : before <+: calls := (List.prefix_append before [c]).trans here
    rw [← (gated before earlier).after_iff, ← afterAll_concat]
    exact gated (before ++ [c]) here
  · intro genuine before
    induction before using List.reverseRecOn with
    | nil => exact fun _ => new.gated
    | append_singleton before c ih =>
      intro here
      have earlier : before <+: calls := (List.prefix_append before [c]).trans here
      rw [afterAll_concat, (ih earlier).after_iff]
      exact genuine before c here

/-- A report that the list is under way, before the login that it waits for, opens the gate. -/
theorem not_gated_after_report : ∃ (s : Session) (c : Call), s.IsNew ∧ s.Bypasses c ∧
    ¬∀ before, before <+: [c] → (s.afterAll before).Gated := by
  let s : Session :=
    { flow :=
        { steps :=
            [⟨"login", "Login", "", [], [], [], none, []⟩,
              ⟨"list", "List", "", [], [], ["login"], some ⟨"GET", "/list", [], none, none⟩, []⟩]
          endpointDefaults := [], schedule := ["login", "list"], warnings := [] } }
  have bypasses : s.Bypasses (.record "list" { status := .running, origin := .http }) :=
    ⟨_, _, _, rfl, rfl, Or.inr ⟨rfl, by decide⟩⟩
  refine ⟨s, _, rfl, bypasses, fun gated => ?_⟩
  exact (gated_iff (s := s) rfl _).mp gated [] _ (List.prefix_refl _) bypasses

/-- A report completes a manual step without a hand, and another one puts a step under way while the
step that it waits for is not completed. -/
theorem bypassed_by_report : ∃ (doc : Value) (s : Session),
    Flow.ofDocument (some doc) = .ok s.flow ∧ s.IsNew ∧
      (∃ r, s.flow.isManual "login" = true ∧ r.status = .completed ∧ r.origin = .http ∧
        (s.afterAll [.record "login" r]).result? "login" = some r) ∧
      ∃ r, "login" ∈ s.flow.prerequisites "list" ∧
        (s.afterAll [.record "list" r]).status "list" = .running ∧
        (s.afterAll [.record "list" r]).isCompleted "login" = false := by
  have compiled : Flow.ofDocument (some (.mapping
      [("steps", .list [.mapping [("id", .text "login"), ("manual", .bool true)],
          .mapping [("id", .text "list")]]),
        ("dependencies", .mapping [("list", .list [.text "login"])]),
        ("requests", .mapping [("list", .mapping [("url", .text "/list")])])])) =
      .ok (Session.flow { flow := _ }) := rfl
  refine ⟨_, _, compiled, rfl, ?_, ?_⟩
  · exact ⟨{ status := .completed, origin := .http }, by decide, rfl, rfl, rfl⟩
  · exact ⟨{ status := .running, origin := .http }, by decide, rfl, rfl⟩

end Walkthrough.Session
