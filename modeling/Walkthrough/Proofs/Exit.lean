import Walkthrough.Main
import Walkthrough.Proofs.Summary

/-!
# How a run on its own exits

With `--auto` the program walks through the flow without a user, and only steps that have failed make
it exit with another code than 0. That says more than it seems: a step that is neither manual nor
behind a manual step is then completed, for whatever keeps it from that has failed
(`Session.failed_eq_nil_iff`, `Program.exitCode_eq_zero_iff`).

All this holds with any packages. Of the one that completes the environment it is used that what it
makes of an environment is settled by the disk, of the reader of documents nothing but the document
that it gives.
-/

namespace Walkthrough

/-- A step that no user is needed for: it is automatic, and so are its ancestors. -/
def Flow.Unaided (f : Flow) (id : String) : Prop :=
  f.isManual id = false ∧ ∀ a, f.HasAncestor id a → f.isManual a = false

/-! ## Walks without a user -/

namespace Session

variable {opts : RunOptions} {s u : Session} {f : Flow} {m : Summary} {events : List Event}
  {g k : Stage}

/-- Only automatic steps get results when nobody is offered the manual ones. -/
theorem automatic_of_advance (first : Advance opts g events k) (h : g.Sound)
    (alone : opts.onManual = none)
    (before : ∀ x, g.session.result? x ≠ none → g.session.flow.isManual x = false) :
    ∀ x, k.session.result? x ≠ none → g.session.flow.isManual x = false := by
  cases first with
  | attempt told next run =>
    obtain ⟨r, same, _⟩ := h.attempt_eq told next run
    cases same
    intro x stored
    rw [result?_store] at stored
    split at stored
    next same => exact same ▸ (nextRound_attempt next).2.1
    next => exact before x stored
  | leave told next user | complete told next user =>
    rw [alone] at user
    cases user

theorem automatic_of_advances {n : Nat} (path : Advances opts n g events k) (h : g.Sound)
    (alone : opts.onManual = none)
    (before : ∀ x, g.session.result? x ≠ none → g.session.flow.isManual x = false) :
    ∀ x, k.session.result? x ≠ none → g.session.flow.isManual x = false := by
  induction path with
  | none g => exact before
  | next first rest ih =>
    obtain ⟨sound, flow, _⟩ := first.sound h
    rw [← flow]
    exact ih sound (flow ▸ automatic_of_advance first h alone before)

theorem Steady.result?_ne_none (h : u.Steady) {id : String} (done : u.status id ≠ .pending) :
    u.result? id ≠ none :=
  fun absent => done (h.status_eq_pending_iff.mpr absent)

/-- With nobody to ask, the steps that fail are among those that no user is needed for. -/
theorem Steady.unaided_of_failed (h : u.Steady)
    (automatic : ∀ x, u.result? x ≠ none → u.flow.isManual x = false) {id : String}
    (failed : u.status id = .failed) : u.flow.Unaided id := by
  have ready : u.missing id = [] := by
    rcases h.status id with ⟨pending, _⟩ | ⟨_, ready⟩
    · rw [failed] at pending
      cases pending
    · exact ready
  refine ⟨automatic id (h.result?_ne_none (by simp [failed])), ?_⟩
  -- An ancestor of a step that was attempted is completed, and so it was attempted itself.
  intro a ancestor
  have done := h.consistent.isCompleted_of_hasAncestor ready ancestor
  rw [isCompleted, beq_iff_eq] at done
  exact automatic a (h.result?_ne_none (by simp [done]))

/-- When nothing has failed, then whatever keeps a step from being completed is a manual step. -/
theorem Accounts.completed_of_unaided (a : Accounts u m) (clean : m.failed = []) {id : String}
    (declared : id ∈ u.flow.order) (unaided : u.flow.Unaided id) : u.isCompleted id = true := by
  have listed := a.partition.mem_iff.mpr declared
  simp only [clean, List.append_nil, List.mem_append] at listed
  rcases listed with (completed | waiting) | blocked
  · rw [isCompleted, beq_iff_eq]
    exact ((a.completed id).mp completed).2
  · have manual := ((a.waiting id).mp waiting).2.1
    rw [unaided.1] at manual
    cases manual
  · obtain ⟨x, ancestor, cause⟩ := (a.behind id).mp blocked
    simp only [clean, List.not_mem_nil, false_or] at cause
    have manual := ((a.waiting x).mp cause).2.1
    rw [unaided.2 x ancestor] at manual
    cases manual

/-- A walk without a user fails nowhere exactly when it completes all steps that no user is needed
for. -/
theorem failed_eq_nil_iff {doc : Option Value} (compiled : Flow.ofDocument doc = .ok s.flow)
    (new : s.IsNew) (alone : opts.onManual = none) {outcome : Except Misuse Summary}
    (run : (s.walk opts).Runs events (u, outcome)) :
    ∃ m, outcome = .ok m ∧ u.flow = s.flow ∧
      (m.failed = [] ↔ ∀ id ∈ s.flow.order, s.flow.Unaided id → u.isCompleted id = true) := by
  obtain ⟨m, rfl, flow, accounts, n, path, offered, advances, _⟩ :=
    (accounts_of_walk compiled new .start opts).2 _ _ _ run
  obtain ⟨sound, _, _⟩ := advances.sound new.steady.stage_sound
  have automatic : ∀ x, u.result? x ≠ none → u.flow.isManual x = false := by
    rw [flow]
    apply automatic_of_advances advances new.steady.stage_sound alone
    intro x stored
    exact absurd (new.result? x) stored
  refine ⟨m, rfl, flow, ?_⟩
  rw [← flow]
  constructor
  · intro clean id declared unaided
    exact accounts.completed_of_unaided clean declared unaided
  · intro complete
    rw [List.eq_nil_iff_forall_not_mem]
    intro id mem
    obtain ⟨declared, failed⟩ := (accounts.failed id).mp mem
    have done := complete id declared (sound.steady.unaided_of_failed automatic failed)
    simp [isCompleted, failed] at done

end Session

/-! ## What comes before a walk -/

/-- With what is on the disk, the package can make nothing of the environment but the given one. -/
def Packages.Completes (p : Packages) (disk : String → Except ReadFault String) (directory : String)
    (words : List String) (env full : Record String) : Prop :=
  ∀ events found, (p.environment directory words env).Runs events found → OnDisk disk events →
    found = full

namespace Program

variable {p : Packages} {disk : String → Except ReadFault String} {directory text : String}
  {env full : Record String} {words : List String} {settings : Settings} {flow : Flow}
  {events : List Event}

/-- The full path of the flow that the arguments name, or else the settings. -/
def flowFile (directory : String) (settings : Settings) (words : List String) : String :=
  Path.resolve directory ((Arguments.read words).flowPath.getD settings.flowPath)

theorem always_discover (s : Session) (limit : Number) :
    (discover s limit).Always fun t => t.flow = s.flow ∧ t.results = s.results := by
  unfold discover
  split
  · exact Talk.always_note (Talk.always_done ⟨rfl, rfl⟩)
  · -- The endpoints that the server names are all that is changed.
    apply Talk.always_bind
    apply Talk.always_bind
    rintro _ (f | server) _
    · apply Talk.always_note
      apply Talk.always_done
      apply Talk.always_sayAll
      exact Talk.always_done ⟨rfl, rfl⟩
    · apply Talk.always_sayAll
      apply Talk.always_done
      apply Talk.always_sayAll
      exact Talk.always_done ⟨rfl, rfl⟩

/-- What a start gives when the flow can be loaded: a new session of the flow, and nobody who is
asked. -/
def Fresh (flow : Flow) (s : Session) (opts : RunOptions) : Prop :=
  s.flow = flow ∧ s.IsNew ∧ opts.onManual = none

theorem fresh_of_start {r : Except Flow.LoadFault (Session × RunOptions)}
    (file : disk (flowFile directory settings words) = .ok text)
    (compiled : Flow.ofText p.document (flowFile directory settings words) text = .ok flow)
    (run : (start p.document directory settings (Arguments.read words)).Runs events r)
    (read : OnDisk disk events) : ∃ s opts, r = .ok (s, opts) ∧ Fresh flow s opts := by
  obtain ⟨loading, rest, loaded, rfl, loads, goesOn⟩ := Talk.runs_bind_iff.mp run
  obtain ⟨content, later, rfl, ends⟩ := Talk.runs_read_iff.mp loads
  have same : content = .ok text :=
    (read (flowFile directory settings words) content List.mem_cons_self).trans file
  subst same
  obtain ⟨rfl, rfl⟩ := Talk.runs_done_iff.mp ends
  unfold flowFile at compiled
  simp only [compiled] at goesOn
  obtain ⟨_, _, _, rfl, _, discovers⟩ := Talk.runs_bind_iff.mp goesOn
  obtain ⟨_, _, s, rfl, discovered, finishes⟩ := Talk.runs_bind_iff.mp discovers
  obtain ⟨_, rfl⟩ := Talk.runs_done_iff.mp finishes
  obtain ⟨flow, results⟩ := always_discover _ _ _ s discovered
  exact ⟨s, _, rfl, flow, results, rfl⟩

theorem fresh_of_prepare {r : Option (Session × RunOptions)}
    (completes : p.Completes disk directory words env full)
    (valid : Settings.ofEnvironment full = .ok settings)
    (file : disk (flowFile directory settings words) = .ok text)
    (compiled : Flow.ofText p.document (flowFile directory settings words) text = .ok flow)
    (run : (prepare p directory env words).Runs events r) (read : OnDisk disk events) :
    ∃ s opts, r = some (s, opts) ∧ Fresh flow s opts := by
  obtain ⟨looking, rest, found, rfl, looks, goesOn⟩ := Talk.runs_bind_iff.mp run
  have known : found = full := completes looking found looks (onDisk_append_iff.mp read).1
  obtain ⟨rest, rfl, sets⟩ := Talk.runs_floor_iff.mp goesOn
  rw [known, valid] at sets
  obtain ⟨_, rest, _, rfl, _, starts⟩ := Talk.runs_bind_iff.mp sets
  obtain ⟨starting, rest, started, rfl, runs, ends⟩ := Talk.runs_bind_iff.mp starts
  have there : OnDisk disk starting := by
    intro name content mem
    exact read name content (by simp [mem])
  obtain ⟨s, opts, rfl, fresh⟩ := fresh_of_start file compiled runs there
  obtain ⟨_, rfl⟩ := Talk.runs_done_iff.mp ends
  exact ⟨s, opts, rfl, fresh⟩

/-! ## Whole runs -/

/-- The run can go on from a moment through the events to its end, one line of the user after the
other. -/
inductive GoesOn : Moment → List Event → Ending → Prop
  | ended (ending : Ending) : GoesOn (.ended ending) [] ending
  | turn {s : Session} {opts : RunOptions} {first rest : List Event} {m : Moment} {ending : Ending}
      (run : (turn s opts).Runs first m) (later : GoesOn m rest ending) :
      GoesOn (.talking s opts) (first ++ rest) ending

/-- The program can go through the events and end. -/
def Runs (p : Packages) (directory : String) (env : Record String) (words : List String)
    (events : List Event) (ending : Ending) : Prop :=
  ∃ first rest m, events = first ++ rest ∧ (opening p directory env words).Runs first m ∧
    GoesOn m rest ending

/-- The run walks through a flow on its own, and the walk leaves the session `u`. -/
def EndsIn (p : Packages) (directory : String) (env : Record String) (words : List String)
    (events : List Event) (u : Session) : Prop :=
  ∃ before walking after s opts outcome, events = before ++ (walking ++ after) ∧
    (prepare p directory env words).Runs before (some (s, opts)) ∧
    (s.walk opts).Runs walking (u, outcome)

theorem EndsIn.unique {u v : Session} (first : EndsIn p directory env words events u)
    (second : EndsIn p directory env words events v) : u = v := by
  obtain ⟨before, walking, after, s, opts, outcome, rfl, prepared, walks⟩ := first
  obtain ⟨_, _, _, t, others, _, same, preparedToo, walksToo⟩ := second
  obtain ⟨_, started, rest⟩ := prepared.unique preparedToo same
  cases started
  obtain ⟨_, left, _⟩ := walks.unique walksToo rest
  cases left
  rfl

/-- A walk ends the run, in success exactly when it has failed nowhere. -/
theorem exists_of_runs_walk {s : Session} {opts : RunOptions} {m : Moment}
    (run : (walk s opts).Runs events m) : ∃ walking after u outcome ending,
      events = walking ++ after ∧ m = .ended ending ∧ (s.walk opts).Runs walking (u, outcome) ∧
      ∀ summary, outcome = .ok summary → (ending = .success ↔ summary.failed = []) := by
  obtain ⟨walking, after, ⟨u, outcome⟩, rfl, walks, tells⟩ := Talk.runs_bind_iff.mp run
  cases outcome with
  | error misuse =>
    obtain ⟨_, rfl, ends⟩ := Talk.runs_note_iff.mp tells
    obtain ⟨_, rfl⟩ := Talk.runs_done_iff.mp ends
    exact ⟨walking, _, u, _, _, rfl, rfl, walks, nofun⟩
  | ok summary =>
    obtain ⟨_, _, _, rfl, _, ends⟩ := Talk.runs_bind_iff.mp tells
    obtain ⟨_, rfl⟩ := Talk.runs_done_iff.mp ends
    refine ⟨walking, _, u, _, _, rfl, rfl, walks, ?_⟩
    rintro _ ⟨⟩
    cases summary.failed <;> simp

theorem toOption_eq_some_iff {ε α : Type} {x : Except ε α} {a : α} :
    x.toOption = some a ↔ x = .ok a := by
  cases x <;> simp [Except.toOption]

theorem exists_document_of_ofText {read : Flow.TextReader} {source : String}
    (compiled : Flow.ofText read source text = .ok flow) :
    ∃ doc, Flow.ofDocument (some doc) = .ok flow := by
  unfold Flow.ofText at compiled
  split at compiled
  · cases compiled
  · cases compiled
  next doc _ =>
    split at compiled
    · cases compiled
    · cases compiled
    next made =>
      cases compiled
      exact ⟨doc, made⟩

theorem exitCode_eq_zero_iff_success {ending : Ending} :
    CommandLine.exitCode ending = 0 ↔ ending = .success := by
  cases ending <;> simp [CommandLine.exitCode]

/-- What the opening of a run on its own comes to: an end, and a walk that settles which one. -/
theorem exists_of_runs_opening (completes : p.Completes disk directory words env full)
    (valid : Settings.ofEnvironment full = .ok settings)
    (auto : (Arguments.read words).auto = true)
    (file : disk (flowFile directory settings words) = .ok text)
    (compiled : Flow.ofText p.document (flowFile directory settings words) text = .ok flow)
    {m : Moment} (run : (opening p directory env words).Runs events m) (read : OnDisk disk events) :
    ∃ ending u, m = .ended ending ∧ EndsIn p directory env words events u ∧ u.flow = flow ∧
      (ending = .success ↔ ∀ id ∈ flow.order, flow.Unaided id → u.isCompleted id = true) := by
  obtain ⟨before, rest, started, rfl, prepared, goesOn⟩ := Talk.runs_bind_iff.mp run
  obtain ⟨s, opts, rfl, rfl, new, alone⟩ :=
    fresh_of_prepare completes valid file compiled prepared (onDisk_append_iff.mp read).1
  simp only [auto, if_true] at goesOn
  obtain ⟨walking, after, u, outcome, ending, rfl, rfl, walks, success⟩ :=
    exists_of_runs_walk goesOn
  obtain ⟨doc, made⟩ := exists_document_of_ofText compiled
  obtain ⟨summary, rfl, flow, clean⟩ := Session.failed_eq_nil_iff made new alone walks
  refine ⟨ending, u, rfl, ?_, flow, ?_⟩
  · exact ⟨before, walking, after, s, opts, _, rfl, prepared, walks⟩
  · rw [success summary rfl, clean]

/-- With `--auto`, valid settings and a flow that compiles, the program runs to its end whatever the
server answers, and exits with 0 exactly when the walk leaves every step completed that neither is
manual nor has a manual ancestor. -/
theorem exitCode_eq_zero_iff (completes : p.Completes disk directory words env full)
    (valid : Settings.ofEnvironment full = .ok settings)
    (auto : (Arguments.read words).auto = true)
    (file : disk (flowFile directory settings words) = .ok text)
    (compiled : Flow.ofText p.document (flowFile directory settings words) text = .ok flow) :
    (∀ server, ∃ events ending, Runs p directory env words events ending ∧
      ServedBy server events ∧ OnDisk disk events) ∧
    ∀ events ending, Runs p directory env words events ending → OnDisk disk events →
      ∃ u, EndsIn p directory env words events u ∧
        (∀ v, EndsIn p directory env words events v → v = u) ∧ u.flow = flow ∧
        (CommandLine.exitCode ending = 0 ↔
          ∀ id ∈ flow.order, flow.Unaided id → u.isCompleted id = true) := by
  constructor
  · intro server
    obtain ⟨events, m, run, served, read⟩ :=
      Talk.exists_runs_on server disk (opening p directory env words)
    obtain ⟨ending, _, rfl, _⟩ :=
      exists_of_runs_opening completes valid auto file compiled run read
    exact ⟨events, ending, ⟨events, [], _, by simp, run, .ended ending⟩, served, read⟩
  · rintro events ending ⟨first, rest, m, rfl, run, goesOn⟩ read
    obtain ⟨_, u, rfl, ends, flow, success⟩ :=
      exists_of_runs_opening completes valid auto file compiled run (onDisk_append_iff.mp read).1
    cases goesOn
    rw [List.append_nil]
    refine ⟨u, ends, fun v other => other.unique ends, flow, ?_⟩
    rw [exitCode_eq_zero_iff_success, success]

/-- A disk with one file. -/
def oneFile (path text : String) : String → Except ReadFault String :=
  fun file => if file = path then .ok text else .error .missing

/-- Packages as they are with documents in JSON, where no file completes the environment. -/
def jsonPackages : Packages where
  environment directory _ env := .read (Path.resolve directory ".env") fun _ => .done env
  document text := (Json.read? text).elim (.error (.malformed "no JSON")) .ok

/-- A flow with a step to be done by hand, one behind it, and one apart from both. -/
def mixedText : String :=
  "\x7b\"steps\": [\x7b\"id\": \"login\", \"manual\": true\x7d, \x7b\"id\": \"list\"\x7d,"
    ++ " \x7b\"id\": \"fetch\"\x7d], \"dependencies\": \x7b\"list\": [\"login\"]\x7d,"
    ++ " \"requests\": \x7b\"list\": \x7b\"url\": \"/list\"\x7d, \"fetch\": \x7b\"url\": \"/fetch\"\x7d\x7d\x7d"

def mixedFlow : Flow :=
  { steps :=
      [⟨"login", "login", "", [], [], [], none, []⟩,
        ⟨"list", "list", "", [], [], ["login"], some ⟨"GET", "/list", [], none, none⟩, []⟩,
        ⟨"fetch", "fetch", "", [], [], [], some ⟨"GET", "/fetch", [], none, none⟩, []⟩]
    endpointDefaults := [], schedule := ["login", "fetch", "list"], warnings := [] }

theorem exitCode_mixed : ∃ disk : String → Except ReadFault String, ∀ events ending,
    Runs jsonPackages "/home" [] ["--auto", "--flow", "flow.json"] events ending →
      OnDisk disk events →
      ∃ u, EndsIn jsonPackages "/home" [] ["--auto", "--flow", "flow.json"] events u ∧
        (CommandLine.exitCode ending = 0 ↔
          ∀ id ∈ mixedFlow.order, mixedFlow.Unaided id → u.isCompleted id = true) := by
  let disk := oneFile "/home/flow.json" mixedText
  have completes :
      jsonPackages.Completes disk "/home" ["--auto", "--flow", "flow.json"] [] [] := by
    intro events found run _
    obtain ⟨_, _, _, ends⟩ := Talk.runs_read_iff.mp run
    exact (Talk.runs_done_iff.mp ends).2
  have file : disk (flowFile "/home"
      ⟨"flows/token-exchange.yaml", none, none, .ofInt 10000, none, none⟩
      ["--auto", "--flow", "flow.json"]) = .ok mixedText := if_pos (by decide +kernel)
  have compiled : Flow.ofText jsonPackages.document (flowFile "/home"
      ⟨"flows/token-exchange.yaml", none, none, .ofInt 10000, none, none⟩
      ["--auto", "--flow", "flow.json"]) mixedText = .ok mixedFlow :=
    toOption_eq_some_iff.mp (by decide +kernel)
  refine ⟨disk, ?_⟩
  intro events ending ran onDisk
  obtain ⟨u, ends, _, _, exits⟩ :=
    (exitCode_eq_zero_iff completes (toOption_eq_some_iff.mp (by decide +kernel)) (by decide +kernel)
      file compiled).2 events ending ran onDisk
  exact ⟨u, ends, exits⟩

end Program

end Walkthrough
