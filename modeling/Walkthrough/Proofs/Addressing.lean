import Walkthrough.Proofs.Dialogue
import Walkthrough.Proofs.Referring

/-!
# Steps that a line can name

A command names a step by one word of its line, and a word has no blank in it. For an eligible step
without a blank in its id, `run` does what an attempt of the step does, and `complete` completes it.
The compiler takes ids with blanks too; whatever line is given, it names another step than such a
one, or none (`Session.driven_by_lines`).
-/

namespace Walkthrough

namespace Text

variable {c : Char} {word cs : List Char} {s line : String}

/-! ## Words of a line -/

theorem wordsFrom_append_blank (blank : isBlank c = true) (word before behind : List Char) :
    wordsFrom word (before ++ c :: behind) = wordsFrom word before ++ wordsFrom [] behind := by
  induction before generalizing word with
  | nil =>
    simp only [List.nil_append, wordsFrom, blank, if_true]
    cases word <;> rfl
  | cons d before ih =>
    simp only [List.cons_append, wordsFrom, ih]
    split
    · cases word <;> rfl
    · rfl

/-- The words on both sides of a space are read one by one. -/
theorem words_space (first second : String) :
    words (first ++ " " ++ second) = words first ++ words second := by
  have spelled : (first ++ " " ++ second).toList = first.toList ++ ' ' :: second.toList := by simp
  rw [words, spelled]
  exact wordsFrom_append_blank (by decide) _ _ _

theorem plain_of_mem_wordsFrom (plain : ∀ c ∈ word, isBlank c = false) :
    ∀ w ∈ wordsFrom word cs, ∀ c ∈ w.toList, isBlank c = false := by
  have closed {rest : List String} (others : ∀ w ∈ rest, ∀ c ∈ w.toList, isBlank c = false)
      {word : List Char} (plain : ∀ c ∈ word, isBlank c = false) :
      ∀ w ∈ closeWord word rest, ∀ c ∈ w.toList, isBlank c = false := by
    cases word with
    | nil => exact others
    | cons first word =>
      refine List.forall_mem_cons.mpr ⟨?_, others⟩
      simpa only [String.toList_ofList, List.mem_reverse] using plain
  induction cs generalizing word with
  | nil => exact closed (by simp) plain
  | cons d cs ih =>
    unfold wordsFrom
    split
    next => exact closed (ih (by simp)) plain
    next visible =>
      rw [Bool.not_eq_true] at visible
      exact ih (List.forall_mem_cons.mpr ⟨visible, plain⟩)

theorem plain_of_mem_words : ∀ w ∈ words line, ∀ c ∈ w.toList, isBlank c = false :=
  plain_of_mem_wordsFrom (by simp)

theorem words_of_plain (some : s ≠ "") (plain : ∀ c ∈ s.toList, isBlank c = false) :
    words s = [s] := by
  have read (cs word : List Char) (plain : ∀ c ∈ cs, isBlank c = false) :
      wordsFrom word cs = closeWord (cs.reverse ++ word) [] := by
    induction cs generalizing word with
    | nil => rfl
    | cons c cs ih =>
      obtain ⟨first, others⟩ := List.forall_mem_cons.mp plain
      simp [wordsFrom, first, ih _ others]
  obtain ⟨c, cs, spelled⟩ : ∃ c cs, s.toList.reverse = c :: cs :=
    List.exists_cons_of_ne_nil (by simpa using some)
  rw [words, read _ _ plain, List.append_nil, spelled, closeWord, ← spelled, List.reverse_reverse,
    String.ofList_toList]
  simp

theorem words_ne_nil (visible : allBlank s = false) : words s ≠ [] := by
  have drop : s.toList.dropWhile isBlank ≠ [] := by
    intro none
    have all : allBlank s = true := List.all_eq_true.mpr (List.dropWhile_eq_nil_iff.mp none)
    rw [visible] at all
    cases all
  obtain ⟨c, rest, left⟩ := List.exists_cons_of_ne_nil drop
  have first := head?_wordsFrom_nil s.toList
  rw [left] at first
  intro none
  rw [words] at none
  rw [none] at first
  cases first

end Text

theorem Flow.visible_of_mem_order {doc : Option Value} {f : Flow} {id : String}
    (compiled : Flow.ofDocument doc = .ok f) (declared : id ∈ f.order) :
    Text.allBlank id = false := by
  obtain ⟨_, p, _, made, rfl⟩ := Flow.parts_of_ofDocument compiled
  rw [p.order_flow] at declared
  obtain ⟨d, mem, rfl⟩ := List.mem_map.mp declared
  exact Flow.visible_of_declarationsOf made.declarations d mem

namespace Session

variable {s t u : Session} {id x line : String} {rest ids : List String} {opts : RunOptions}
  {events : List Event} {outcome : Except Misuse Bool}

/-! ## Lines that run or complete a step -/

theorem command_run (read : Text.words line = "run" :: x :: rest) (opts : RunOptions) :
    s.command line opts = s.runOrSay x (s.whyNotRunnable x) opts := by
  simp [command, read, isStepCommand, stepCommand]

theorem command_complete (read : Text.words line = "complete" :: x :: rest) (opts : RunOptions) :
    s.command line opts = s.completeAsking x (Assignments.fields rest) := by
  simp [command, read, isStepCommand, stepCommand]

theorem words_run : Text.words "run" = ["run"] := by decide

theorem words_complete : Text.words "complete" = ["complete"] := by decide

/-- Running a step that nothing stands against is attempting it. -/
theorem Steady.runs_runOrSay_iff (h : s.Steady) (free : s.Clear id false) :
    (s.runOrSay id (s.whyNotRunnable id) opts).Runs events (u, outcome) ↔
      outcome = .ok true ∧ ∃ r, (s.attempt id opts).Runs events (.ok (u, r)) := by
  rw [h.consistent.whyNotRunnable_eq, reason?_eq_none_iff.mpr free]
  obtain ⟨d, found, automatic, incomplete, ready⟩ := free
  constructor
  · intro run
    obtain ⟨first, last, out, rfl, attempted, ended⟩ := Talk.runs_bind_iff.mp run
    obtain ⟨r, rfl, _⟩ := h.stored_of_attempted found automatic incomplete ready
      (attempted_of_runs h.consistent attempted)
    obtain ⟨rfl, same⟩ := Talk.runs_done_iff.mp ended
    cases same
    exact ⟨rfl, r, by rwa [List.append_nil]⟩
  · rintro ⟨rfl, r, attempted⟩
    exact Talk.runs_bind_iff.mpr ⟨events, [], _, (List.append_nil events).symm, attempted, .done _⟩

theorem Steady.runs_attempt (h : s.Steady) (free : s.Clear id false) (opts : RunOptions) :
    ∃ events u r, (s.attempt id opts).Runs events (.ok (u, r)) := by
  obtain ⟨d, found, automatic, incomplete, ready⟩ := free
  obtain ⟨events, out, run, _⟩ :=
    Talk.exists_runs (fun _ => .answered ⟨200, "OK", [], .ok ""⟩) (s.attempt id opts)
  obtain ⟨r, rfl, _⟩ := h.stored_of_attempted found automatic incomplete ready
    (attempted_of_runs h.consistent run)
  exact ⟨events, _, r, run⟩

/-- Completing a step that nothing stands against stores the fields that it is given. -/
theorem Consistent.always_completeAsking (h : s.Consistent) (free : s.Clear id true)
    (given : Fields) : (s.completeAsking id given).Always fun turn =>
      turn.2 = .ok true ∧ ∃ fields, s.completeManual id fields = .ok turn.1 := by
  rw [completeAsking, h.whyNotCompletable_eq, reason?_eq_none_iff.mpr free]
  obtain ⟨d, found, manual, incomplete, ready⟩ := free
  refine Talk.always_bind fun asking fields _ => ?_
  have accepted : s.completeManual id fields = .ok (s.store id (manualResult fields)) :=
    completeManual_ok_iff.mpr ⟨d, found, manual, incomplete, ready, rfl⟩
  simp only [accepted]
  exact Talk.always_sayAll (Talk.always_done ⟨rfl, fields, accepted⟩) _

/-! ## Steps that a line does not name -/

/-- After a turn a step has the result that it had, or none. -/
def Spared (s : Session) (id : String) (turn : Turn) : Prop :=
  turn.1.result? id = s.result? id ∨ turn.1.result? id = none

theorem always_said_spared (s : Session) (id : String) (notes : List Note) :
    (s.said notes).Always (Spared s id) := by
  have kept : Spared s id (s, .ok true) := Or.inl rfl
  exact Talk.always_sayAll (Talk.always_done kept) notes

theorem Consistent.result?_attempted (h : s.Consistent) (other : x ≠ id)
    {out : Except Misuse (Session × StepResult)} (run : (s.attempt x opts).Runs events out) :
    (s.leftBy out).result? id = s.result? id := by
  rcases (attempted_of_runs h run).leftBy_cases h with same | ⟨r, stored, _⟩
  · rw [same]
  · rw [stored, result?_store, if_neg other]

theorem Consistent.always_runOrSay_spared (h : s.Consistent) (other : x ≠ id)
    (why : Except Misuse (Option String)) : (s.runOrSay x why opts).Always (Spared s id) := by
  unfold runOrSay
  split
  next => exact Talk.always_done (Or.inl rfl)
  next => exact always_said_spared s id _
  next =>
    refine Talk.always_bind fun events out run => ?_
    have same := h.result?_attempted other run
    cases out with
    | error m => exact Talk.always_done (Or.inl rfl)
    | ok p => exact Talk.always_done (Or.inl same)

theorem Consistent.always_restartAnd_spared (h : s.Consistent) (declared : x ∈ s.flow.order)
    (other : x ≠ id) (again : Bool) : (s.restartAnd x again opts).Always (Spared s id) := by
  have cleared : (s.cleanse x).result? id = s.result? id ∨ (s.cleanse x).result? id = none := by
    rw [result?_cleanse declared]
    split
    · exact Or.inr rfl
    · exact Or.inl rfl
  rw [restartAnd, restart_eq declared]
  refine Talk.always_sayAll ?_ _
  cases again with
  | false => exact Talk.always_done cleared
  | true =>
    intro events turn run
    rcases (h.cleanse declared).always_runOrSay_spared other _ events turn run with same | none
    · exact cleared.imp same.trans same.trans
    · exact Or.inr none

theorem always_completeAsking_spared (s : Session) (other : x ≠ id) (given : Fields) :
    (s.completeAsking x given).Always (Spared s id) := by
  unfold completeAsking
  split
  next => exact Talk.always_done (Or.inl rfl)
  next => exact always_said_spared s id _
  next =>
    refine Talk.always_bind fun asking fields _ => ?_
    beta_reduce
    split
    next => exact Talk.always_done (Or.inl rfl)
    next t accepted =>
      obtain ⟨_, _, _, _, _, rfl⟩ := completeManual_ok_iff.mp accepted
      have kept : Spared s id (s.store x (manualResult fields), .ok true) := by
        rw [Spared, result?_store, if_neg other]
        exact Or.inl rfl
      exact Talk.always_sayAll (Talk.always_done kept) _

theorem Consistent.always_stepCommand_spared (h : s.Consistent) (name : String)
    {named : Option String} (other : ∀ x, named = some x → x ≠ id) (rest : List String) :
    (s.stepCommand name named rest opts).Always (Spared s id) := by
  unfold stepCommand
  split
  next => exact always_said_spared s id _
  next => exact always_said_spared s id _
  next =>
    split
    next => exact Talk.always_done (Or.inl rfl)
    next => exact always_said_spared s id _
  next => exact always_said_spared s id _
  next x => exact h.always_runOrSay_spared (other x rfl) _
  next => exact always_said_spared s id _
  next x => exact always_completeAsking_spared s (other x rfl) _
  next => exact always_said_spared s id _
  next x _ _ _ _ =>
    split
    next found => exact h.always_restartAnd_spared (Flow.step?_isSome_iff.mp found) (other x rfl) _
    next => exact always_said_spared s id _
  next => exact always_said_spared s id _

/-- A line that does not name a step, and does not run all of them, leaves the step the result that
it has, or clears it with another one. -/
theorem Consistent.always_command_spared (h : s.Consistent) (unnamed : id ∉ Text.words line)
    (single : ¬Text.FirstWord line "auto") : (s.command line opts).Always (Spared s id) := by
  unfold command
  split
  next => exact Talk.always_done (Or.inl rfl)
  next name rest read =>
    split
    next => exact Talk.always_done (Or.inl rfl)
    split
    next =>
      split
      next => exact Talk.always_done (Or.inl rfl)
      next => exact always_said_spared s id _
    split
    next auto =>
      rw [beq_iff_eq] at auto
      subst auto
      exact absurd (Text.head?_words_eq_some_iff.mp (by rw [read]; rfl)) single
    split
    next =>
      refine h.always_stepCommand_spared name (fun x first same => unnamed ?_) _
      rw [read, ← same]
      exact List.mem_cons_of_mem _ (List.mem_of_mem_head? first)
    next => exact always_said_spared s id _

/-- In every session that lines lead to, an eligible step with no blank in its id is driven by lines
that name it: `run` has the runs of an attempt of the step, and `complete` completes the step and
changes no other result. With a blank in the id both lines name the first word of it, and no line
completes the step but one that goes through the flow as a whole. -/
theorem driven_by_lines {doc : Option Value} (compiled : Flow.ofDocument doc = .ok s.flow)
    (new : s.IsNew) (led : Led s t) (told : t.eligible = .ok ids) (mem : id ∈ ids) :
    ((∀ c ∈ id.toList, Text.isBlank c = false) →
      (t.flow.isManual id = false → ∀ opts,
        (∃ events u r, (t.attempt id opts).Runs events (.ok (u, r))) ∧
        ∀ events u outcome, (t.command ("run " ++ id) opts).Runs events (u, outcome) ↔
          outcome = .ok true ∧ ∃ r, (t.attempt id opts).Runs events (.ok (u, r))) ∧
      (t.flow.isManual id = true → ∀ opts,
        (∃ events turn, (t.command ("complete " ++ id) opts).Runs events turn) ∧
        ∀ events u outcome, (t.command ("complete " ++ id) opts).Runs events (u, outcome) →
          outcome = .ok true ∧ (∃ fields, t.completeManual id fields = .ok u) ∧
            u.isCompleted id = true ∧ ∀ x, x ≠ id → u.result? x = t.result? x)) ∧
    ((∃ c ∈ id.toList, Text.isBlank c = true) →
      (∃ word rest, Text.words id = word :: rest ∧ word ≠ id ∧
        ∀ opts, t.command ("run " ++ id) opts = t.command ("run " ++ word) opts ∧
          t.command ("complete " ++ id) opts = t.completeAsking word (Assignments.fields rest)) ∧
      ∀ line opts events u outcome, ¬Text.FirstWord line "auto" →
        (t.command line opts).Runs events (u, outcome) → u.isCompleted id = false) := by
  obtain ⟨steady, flow⟩ := steady_of_led new led
  obtain ⟨declared, incomplete, ready⟩ := (steady.mem_eligible_iff told).mp mem
  have visible := Flow.visible_of_mem_order compiled (flow ▸ declared)
  obtain ⟨d, found⟩ := Flow.exists_step?_of_mem declared
  have kind : t.flow.isManual id = d.manual := by simp [Flow.isManual, found]
  have running (x : String) : Text.words ("run " ++ x) = "run" :: Text.words x := by
    have split := Text.words_space "run" x
    rwa [words_run] at split
  have completing (x : String) : Text.words ("complete " ++ x) = "complete" :: Text.words x := by
    have split := Text.words_space "complete" x
    rwa [words_complete] at split
  refine ⟨fun plain => ?named, ?unnamed⟩
  case named =>
    have alone : Text.words id = [id] := by
      refine Text.words_of_plain (fun empty => ?_) plain
      rw [empty] at visible
      cases visible
    have run := running id
    have complete := completing id
    rw [alone] at run complete
    refine ⟨fun automatic opts => ?_, fun manual opts => ⟨?_, fun events u outcome turns => ?_⟩⟩
    · have free : t.Clear id false := ⟨d, found, kind.symm.trans automatic, incomplete, ready⟩
      refine ⟨steady.runs_attempt free opts, fun events u outcome => ?_⟩
      rw [command_run run]
      exact steady.runs_runOrSay_iff free
    · obtain ⟨events, turn, turns, _⟩ := Talk.exists_runs
        (fun _ => .answered ⟨200, "OK", [], .ok ""⟩) (t.command ("complete " ++ id) opts)
      exact ⟨events, turn, turns⟩
    · have free : t.Clear id true := ⟨d, found, kind.symm.trans manual, incomplete, ready⟩
      rw [command_complete complete] at turns
      obtain ⟨goesOn, fields, accepted⟩ :=
        steady.consistent.always_completeAsking free _ events _ turns
      obtain ⟨_, _, _, _, _, rfl⟩ := completeManual_ok_iff.mp accepted
      refine ⟨goesOn, ⟨fields, accepted⟩, ?_, fun x other => ?_⟩
      · rw [isCompleted_store_self]
        rfl
      · rw [result?_store, if_neg (Ne.symm other)]
  case unnamed =>
    rintro ⟨c, inId, blank⟩
    have unspoken {line : String} : id ∉ Text.words line := by
      intro spoken
      rw [Text.plain_of_mem_words id spoken c inId] at blank
      cases blank
    constructor
    · obtain ⟨word, rest, read⟩ := List.exists_cons_of_ne_nil (Text.words_ne_nil visible)
      have inWords : word ∈ Text.words id := by simp [read]
      have apart : word ≠ id := fun same => unspoken (same ▸ inWords)
      have first : Text.FirstWord id word := Text.head?_words_eq_some_iff.mp (by rw [read]; rfl)
      have alone := Text.words_of_plain first.1 (Text.plain_of_mem_words word inWords)
      have run := running id
      have short := running word
      have complete := completing id
      rw [read] at run complete
      rw [alone] at short
      exact ⟨word, rest, read, apart, fun opts => ⟨(command_run run opts).trans
        (command_run short opts).symm, command_complete complete opts⟩⟩
    · intro line opts events u outcome single run
      rcases steady.consistent.always_command_spared unspoken single events _ run with same | none
      · exact (isCompleted_congr same).trans incomplete
      · simp [isCompleted, status, none]

/-- After the login two requests are left. A line that names the first one does what an attempt of
it does, and no line with the name of the second one completes it. -/
theorem driven_up_to_a_blank : ∃ (doc : Option Value) (s t : Session),
    Flow.ofDocument doc = .ok s.flow ∧ s.IsNew ∧ Led s t ∧
      t.eligible = .ok ["list", "get list"] ∧
      (∀ opts events u outcome, (t.command "run list" opts).Runs events (u, outcome) ↔
        outcome = .ok true ∧ ∃ r, (t.attempt "list" opts).Runs events (.ok (u, r))) ∧
      ∀ opts events u outcome, (t.command "run get list" opts).Runs events (u, outcome) →
        u.isCompleted "get list" = false := by
  let s : Session :=
    { flow :=
        { steps :=
            [⟨"login", "login", "", [], [], [], none, []⟩,
              ⟨"list", "list", "", [], [], ["login"], some ⟨"GET", "/list", [], none, none⟩, []⟩,
              ⟨"get list", "get list", "", [], [], ["login"], some ⟨"GET", "/get", [], none, none⟩,
                []⟩]
          endpointDefaults := [], schedule := ["login", "list", "get list"], warnings := [] } }
  have compiled : Flow.ofDocument (some (.mapping
      [("steps", .list [.mapping [("id", .text "login"), ("manual", .bool true)],
          .mapping [("id", .text "list")], .mapping [("id", .text "get list")]]),
        ("dependencies", .mapping [("list", .list [.text "login"]),
          ("get list", .list [.text "login"])]),
        ("requests", .mapping [("list", .mapping [("url", .text "/list")]),
          ("get list", .mapping [("url", .text "/get")])])])) = .ok s.flow := rfl
  let opts : RunOptions := { limit := .ofInt 1000 }
  have new : s.IsNew := rfl
  have led := @Led.command s s _ "complete login" opts _ _ .start (.note (.done _))
  have first : "list" ∈ ["list", "get list"] := by decide
  have second : "get list" ∈ ["list", "get list"] := by decide
  have list := driven_by_lines compiled new led rfl first
  have spaced := driven_by_lines compiled new led rfl second
  refine ⟨_, s, _, compiled, new, led, rfl, ?_, ?_⟩
  · exact fun opts => (list.1 (by simp [Text.isBlank])).1 rfl opts |>.2
  · intro opts events u outcome run
    have single : ¬Text.FirstWord "run get list" "auto" := by
      rw [← Text.head?_words_eq_some_iff]
      decide
    exact (spaced.2 ⟨' ', by decide, rfl⟩).2 _ opts _ _ _ single run

/-- A request of two words and a manual step of two words are both eligible. The line with the name
of the request runs another step, and the line with that of the manual step completes nothing. -/
theorem driven_astray : ∃ (doc : Option Value) (s : Session) (opts : RunOptions),
    Flow.ofDocument doc = .ok s.flow ∧ s.IsNew ∧
      s.eligible = .ok ["get", "get list", "sign in"] ∧
      s.flow.isManual "get list" = false ∧ s.flow.isManual "sign in" = true ∧
      (∃ events u r, (s.attempt "get list" opts).Runs events (.ok (u, r)) ∧
        u.isCompleted "get list" = true) ∧
      (∃ events u, (s.command "run get list" opts).Runs events (u, .ok true) ∧
        u.isCompleted "get" = true) ∧
      (∀ events u outcome, (s.command "run get list" opts).Runs events (u, outcome) →
        u.isCompleted "get list" = false) ∧
      ∀ events u outcome, (s.command "complete sign in" opts).Runs events (u, outcome) → u = s := by
  let s : Session :=
    { flow :=
        { steps :=
            [⟨"get", "get", "", [], [], [], some ⟨"GET", "/get", [], none, none⟩, []⟩,
              ⟨"get list", "get list", "", [], [], [], some ⟨"GET", "/list", [], none, none⟩, []⟩,
              ⟨"sign in", "sign in", "", [], [], [], none, []⟩]
          endpointDefaults := [], schedule := ["get", "get list", "sign in"], warnings := [] } }
  have compiled : Flow.ofDocument (some (.mapping
      [("steps", .list [.mapping [("id", .text "get")], .mapping [("id", .text "get list")],
          .mapping [("id", .text "sign in"), ("manual", .bool true)]]),
        ("requests", .mapping [("get", .mapping [("url", .text "/get")]),
          ("get list", .mapping [("url", .text "/list")])])])) = .ok s.flow := rfl
  let opts : RunOptions := { limit := .ofInt 1000 }
  let ok : Outcome := .answered ⟨200, "OK", [], .ok ""⟩
  have new : s.IsNew := rfl
  have attempted : (s.attempt "get list" opts).Runs _ _ :=
    .note (.note (@Talk.Runs.send _ _ _ ok _ _ (.note (.done _))))
  have run : (s.command "run get list" opts).Runs _ _ :=
    .note (.note (@Talk.Runs.send _ _ _ ok _ _ (.note (.done _))))
  refine ⟨_, s, opts, compiled, new, rfl, rfl, rfl, ⟨_, _, _, attempted, rfl⟩, ⟨_, _, run, rfl⟩,
    fun events u outcome turns => ?_, fun events u outcome turns => ?_⟩
  · have unnamed : "get list" ∉ Text.words "run get list" := by decide
    have single : ¬Text.FirstWord "run get list" "auto" := by
      rw [← Text.head?_words_eq_some_iff]
      decide
    have spared := new.steady.consistent.always_command_spared unnamed single events _ turns
    rcases spared with same | none
    · exact isCompleted_congr same
    · simp [isCompleted, status, none]
  · obtain ⟨_, _, ended⟩ := Talk.runs_note_iff.mp turns
    obtain ⟨_, same⟩ := Talk.runs_done_iff.mp ended
    exact congrArg Prod.fst same

end Session

end Walkthrough
