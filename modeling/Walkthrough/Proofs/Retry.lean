import Walkthrough.Proofs.Dialogue
import Walkthrough.Proofs.Warning

/-!
# A retry runs the step again

In a flow without warnings a step reads from its ancestors alone, so that all that consumes a step
comes after it. A restart of a step then leaves its ancestors as they are. Between two calls the
prerequisites of every step with a result are completed, so after the restart nothing stands against
running the step (`Session.retry_runs_again`).
-/

namespace Walkthrough

namespace Flow

variable {f : Flow} {doc : Option Value} {id x : String}

/-- What consumes a step is the step itself or comes after it. -/
theorem hasAncestor_of_consumes (compiled : ofDocument doc = .ok f) (quiet : f.warnings = [])
    (affected : Session.Consumes f id x) : x = id ∨ f.HasAncestor x id := by
  induction affected with
  | refl => exact Or.inl rfl
  | @tail y x _ link before =>
    obtain ⟨d, mem, same, takes⟩ := Session.linked_consumers_iff.mp link
    have next : f.HasAncestor x y := by
      rcases takes with needs | reads
      · have found := (wellFormed_of_ofDocument compiled).step?_of_mem mem
        rw [same] at found
        rw [← prerequisites_of_step? found] at needs
        exact .single needs
      · rw [← same]
        exact hasAncestor_of_mem_sources compiled quiet mem reads
    rcases before with rfl | ancestor
    · exact Or.inr next
    · exact Or.inr (next.trans ancestor)

/-- No ancestor of a step consumes it. -/
theorem not_consumes_of_hasAncestor (compiled : ofDocument doc = .ok f) (quiet : f.warnings = [])
    (ancestor : f.HasAncestor id x) : ¬Session.Consumes f id x := by
  intro affected
  have wf := wellFormed_of_ofDocument compiled
  have cycle : f.HasAncestor id id := by
    rcases hasAncestor_of_consumes compiled quiet affected with rfl | behind
    · exact ancestor
    · exact ancestor.trans behind
  exact Nat.lt_irrefl _ (wf.lt_of_hasAncestor cycle).2

end Flow

namespace Session

variable {s t : Session} {id x : String} {r : StepResult} {doc : Option Value}

/-! ## After the restart -/

/-- After a restart of a step, its prerequisites are completed if they were so before. -/
theorem missing_cleanse_self (compiled : Flow.ofDocument doc = .ok s.flow)
    (quiet : s.flow.warnings = []) (declared : id ∈ s.flow.order) (ready : s.missing id = []) :
    (s.cleanse id).missing id = [] := by
  rw [missing_eq_nil_iff] at ready ⊢
  intro p link
  have apart : ¬Consumes s.flow id p :=
    Flow.not_consumes_of_hasAncestor compiled quiet (.single link)
  rw [isCompleted_congr (result?_cleanse_of_not declared apart)]
  exact ready p link

theorem Steady.clear_cleanse (h : s.Steady) (compiled : Flow.ofDocument doc = .ok s.flow)
    (quiet : s.flow.warnings = []) (automatic : s.flow.isManual id = false)
    (stored : s.result? id = some r) : (s.cleanse id).Clear id false := by
  have declared := h.consistent.declared id (Ledger.mem_names_of_get? stored)
  obtain ⟨d, found⟩ := Flow.exists_step?_of_mem declared
  have gone : (s.cleanse id).result? id = none := result?_cleanse_of_consumes declared .refl
  refine ⟨d, found, Flow.isManual_of_step? found ▸ automatic, ?_,
    missing_cleanse_self compiled quiet declared (h.grounded id r stored)⟩
  rw [← Bool.not_eq_true, isCompleted_iff, gone]
  rintro ⟨_, none, _⟩
  cases none

/-! ## The command -/

/-- However the command goes, it says first what has been cleared, and then the step is attempted in
the session that the restart has left; the attempt is not refused, and its result is stored. -/
structure Reruns (u : Session) (gone : List String) (id : String) (opts : RunOptions)
    (talk : Talk Turn) : Prop where
  ends : ∃ events turn, talk.Runs events turn
  runs : ∀ events turn, talk.Runs events turn → ∃ later r,
    events = .said (.line (Colour.gray ("cleared: " ++ Text.commaList gone))) :: later ∧
      (u.attempt id opts).Runs later (.ok (u.store id r, r)) ∧
        (r.status = .completed ∨ r.status = .failed) ∧ turn = (u.store id r, .ok true)

theorem stepCommand_retry (found : (s.flow.step? id).isSome = true) (rest : List String)
    (opts : RunOptions) :
    s.stepCommand "retry" (some id) rest opts = s.restartAnd id true opts := by
  simp [stepCommand, found]

theorem command_retry {line : String} {rest : List String} (opts : RunOptions)
    (read : Text.words line = "retry" :: id :: rest) :
    s.command line opts = s.stepCommand "retry" (some id) rest opts := by
  simp [command, read, isStepCommand]

theorem restartAnd_of_runnable (opts : RunOptions) (declared : id ∈ s.flow.order)
    (mem : id ∈ s.cleared id) (runnable : (s.cleanse id).whyNotRunnable id = .ok none) :
    s.restartAnd id true opts =
      .note (.line (Colour.gray ("cleared: " ++ Text.commaList (s.cleared id))))
        (((s.cleanse id).attempt id opts).bind fun
          | .error m => .done (s.cleanse id, .error m)
          | .ok (t, _) => .done (t, .ok true)) := by
  have some : (s.cleared id).isEmpty = false := by simpa using List.ne_nil_of_mem mem
  rw [restartAnd, restart_eq declared]
  simp only [some, runnable]
  rfl

theorem Steady.reruns_restartAnd (h : s.Steady) (opts : RunOptions) (declared : id ∈ s.flow.order)
    (mem : id ∈ s.cleared id) (free : (s.cleanse id).Clear id false) :
    Reruns (s.cleanse id) (s.cleared id) id opts (s.restartAnd id true opts) := by
  have cleansed := h.cleanse declared
  have runnable : (s.cleanse id).whyNotRunnable id = .ok none := by
    rw [cleansed.consistent.whyNotRunnable_eq, reason?_eq_none_iff.mpr free]
    rfl
  constructor
  · obtain ⟨events, turn, run, _⟩ :=
      Talk.exists_runs (fun _ => .answered ⟨200, "OK", [], .ok ""⟩) (s.restartAnd id true opts)
    exact ⟨events, turn, run⟩
  · intro events turn run
    rw [restartAnd_of_runnable opts declared mem runnable] at run
    obtain ⟨_, rfl, attempts⟩ := Talk.runs_note_iff.mp run
    obtain ⟨later, last, out, rfl, attempted, ended⟩ := Talk.runs_bind_iff.mp attempts
    obtain ⟨d, found, automatic, incomplete, ready⟩ := free
    obtain ⟨r, rfl, final⟩ := cleansed.stored_of_attempted found automatic incomplete ready
      (attempted_of_runs cleansed.consistent attempted)
    obtain ⟨rfl, rfl⟩ := Talk.runs_done_iff.mp ended
    exact ⟨later, r, by rw [List.append_nil], attempted, final, rfl⟩

/-- In a flow without warnings, whatever has been done to a session before, an automatic step that has
a result can be retried: its restart clears it and otherwise only steps that come after it, so none of
its ancestors, and nothing stands against running it then. So the retry clears the step and then runs
it, whatever line it is given by. -/
theorem retry_runs_again (compiled : Flow.ofDocument doc = .ok s.flow) (quiet : s.flow.warnings = [])
    (new : s.IsNew) (visits : Visits s t) (automatic : s.flow.isManual x = false)
    (stored : t.result? x = some r) :
    ∃ u gone, t.restart x = .ok (u, gone) ∧ x ∈ gone ∧
      (∀ y ∈ gone, y = x ∨ s.flow.HasAncestor y x) ∧ (∀ y, s.flow.HasAncestor x y → y ∉ gone) ∧
      (∀ y, u.result? y = if y ∈ gone then none else t.result? y) ∧
      u.whyNotRunnable x = .ok none ∧
      ∀ opts, (∀ rest, Reruns u gone x opts (t.stepCommand "retry" (some x) rest opts)) ∧
        ∀ line rest, Text.words line = "retry" :: x :: rest →
          t.command line opts = t.stepCommand "retry" (some x) rest opts := by
  obtain ⟨steady, flow⟩ := steady_of_visits new visits
  rw [← flow] at compiled quiet automatic ⊢
  have declared := steady.consistent.declared x (Ledger.mem_names_of_get? stored)
  have free := steady.clear_cleanse compiled quiet automatic stored
  have mem : x ∈ t.cleared x := (mem_cleared_iff declared).mpr ⟨.refl, by simp [stored]⟩
  refine ⟨t.cleanse x, t.cleared x, restart_eq declared, mem, fun y gone => ?_,
    fun y ancestor gone => ?_, fun y => ?_, ?_, fun opts => ⟨fun rest => ?_, fun line rest => ?_⟩⟩
  · exact Flow.hasAncestor_of_consumes compiled quiet ((mem_cleared_iff declared).mp gone).1
  · have affected := ((mem_cleared_iff declared).mp gone).1
    exact Flow.not_consumes_of_hasAncestor compiled quiet ancestor affected
  · exact Ledger.get?_foldl_erase _ _ _
  · rw [(steady.cleanse declared).consistent.whyNotRunnable_eq, reason?_eq_none_iff.mpr free]
    rfl
  · rw [stepCommand_retry (Flow.step?_isSome_iff.mpr declared)]
    exact steady.reruns_restartAnd opts declared mem free
  · exact command_retry opts

/-- The list has been fetched with a key that the user gave, and the report behind it has been refused;
the retry of the list clears both, and the login stays. -/
theorem reruns_of_list : ∃ (doc : Value) (s t : Session),
    Flow.ofDocument (some doc) = .ok s.flow ∧ s.flow.warnings = [] ∧ s.IsNew ∧ Visits s t ∧
      s.flow.isManual "list" = false ∧ t.status "list" = .completed ∧ t.status "report" = .failed ∧
        ∃ u, t.restart "list" = .ok (u, ["list", "report"]) ∧ u.status "login" = .completed ∧
          u.whyNotRunnable "list" = .ok none ∧
            ∀ opts, Reruns u ["list", "report"] "list" opts (t.command " retry\tlist now" opts) := by
  let s : Session :=
    { flow :=
        { steps :=
            [⟨"login", "login", "", [], [], [], none, []⟩,
              ⟨"list", "list", "", [], [], ["login"], some ⟨"GET", "/list?<key>", [], none, none⟩,
                [⟨"<key>", .field "login" "key", "step.login.key", none⟩]⟩,
              ⟨"report", "report", "", [], [], ["list"], some ⟨"GET", "/r", [], none, none⟩, []⟩]
          endpointDefaults := [], schedule := ["login", "list", "report"], warnings := [] } }
  have compiled : Flow.ofDocument (some (.mapping
      [("steps", .list [.mapping [("id", .text "login"), ("manual", .bool true)],
          .mapping [("id", .text "list")], .mapping [("id", .text "report")]]),
        ("dependencies", .mapping
          [("list", .list [.text "login"]), ("report", .list [.text "list"])]),
        ("requests", .mapping [("list", .mapping [("url", .text "/list?<key>")]),
          ("report", .mapping [("url", .text "/r")])]),
        ("substitution_rules", .mapping
          [("list", .mapping [("<key>", .text "step.login.key")])])])) = .ok s.flow := rfl
  have fetched := @Visits.attempt s _ "list" { limit := .ofInt 1000 } _ _
    (.completeManual .start "login" [("key", .text "k")])
    (.note (.note (@Talk.Runs.send _ _ _ (.answered ⟨200, "OK", [], .ok ""⟩) _ _
      (.note (.done _)))))
  have refused := @Visits.attempt s _ "report" { limit := .ofInt 1000 } _ _ fetched
    (.note (.note (@Talk.Runs.send _ _ _ (.answered ⟨500, "Error", [], .ok ""⟩) _ _
      (.note (.done _)))))
  obtain ⟨u, gone, restarted, _, _, _, left, runnable, reruns⟩ :=
    retry_runs_again compiled rfl rfl refused (rfl : s.flow.isManual "list" = false) rfl
  have declared : "list" ∈ s.flow.order := by simp [s, Flow.order]
  rw [← (steady_of_visits (s := s) rfl refused).2] at declared
  have both : gone = ["list", "report"] := by
    rw [restart_eq declared] at restarted
    cases restarted
    decide +kernel
  subst both
  refine ⟨_, s, _, compiled, rfl, rfl, refused, rfl, rfl, rfl, u, restarted, ?_, runnable,
    fun opts => ?_⟩
  · rw [status, left "login"]
    rfl
  · rw [(reruns opts).2 " retry\tlist now" ["now"] (by decide)]
    exact (reruns opts).1 ["now"]

end Session

end Walkthrough
