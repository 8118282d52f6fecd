import Walkthrough.Rehearsal
import Walkthrough.Proofs.Attempt
import Walkthrough.Proofs.Bytes

/-!
# Where the files of an attempt are

An attempt writes the files of its step and no others. The names on the way to them are those of the
run, the plain parts of the id, and the name of the file, unless the id leads upwards; so the id
decides whether the files of a step stay below the run and apart from those of other steps. Nothing
keeps an id of a flow from leading upwards, or from naming the place of another one.
-/

namespace Walkthrough

open Walkthrough.Checks

/-! ## Written files -/

/-- The file that an event writes. -/
def Event.file? : Event → Option String
  | .saved _ file _ _ => some file
  | _ => none

/-- The files that are written in a run. -/
def filesOf (events : List Event) : List String :=
  events.filterMap Event.file?

@[simp] theorem filesOf_nil : filesOf [] = [] := rfl

@[simp] theorem filesOf_said (n : Note) (events : List Event) :
    filesOf (.said n :: events) = filesOf events := rfl

@[simp] theorem filesOf_sent (request : Wire) (outcome : Outcome) (events : List Event) :
    filesOf (.sent request outcome :: events) = filesOf events := rfl

@[simp] theorem filesOf_saved (directory file text : String) (complaint : Option String)
    (events : List Event) :
    filesOf (.saved directory file text complaint :: events) = file :: filesOf events := rfl

@[simp] theorem filesOf_append (first second : List Event) :
    filesOf (first ++ second) = filesOf first ++ filesOf second :=
  List.filterMap_append

namespace Archive

variable {a : Archive} {id name : String}

/-- The names of the files of a step. -/
def fileNames : List String :=
  ["request.json", "response.json"]

/-- The directory of the run. -/
def root (a : Archive) : String :=
  Path.join [a.directory, a.run]

/-- One of the files of a step, if there is an archive. -/
def Keeps (archive : Option Archive) (id p : String) : Prop :=
  ∃ a name, archive = some a ∧ name ∈ fileNames ∧ p = a.file id name

theorem filesOf_save {v : Value} {events : List Event} {u : Unit}
    (run : (a.save id name v).Runs events u) : filesOf events = [a.file id name] := by
  rcases events_of_save run with rfl | ⟨reason, rfl⟩ <;> rfl

/-! ## The places of files -/

theorem isName_of_mem : ∀ name ∈ fileNames, Path.IsName name := by
  decide

/-- The names of the files are on the disk as they are. -/
theorem repair_of_mem : ∀ name ∈ fileNames, Text.repair name = name := by
  decide

theorem reach_root (plain : Path.IsName a.run) (cwd : String) :
    Path.reach cwd a.root = a.run :: Path.reach cwd a.directory := by
  rw [root, Path.reach_join plain.nonempty (Path.isAbsolute_of_whole plain.whole)]
  exact Path.follow_name plain _

theorem reach_file (plain : Path.IsName a.run) (mem : name ∈ fileNames) (cwd : String) :
    Path.reach cwd (a.file id name) = name :: Path.follow (Path.reach cwd a.root) id := by
  have named := isName_of_mem name mem
  have folder : Path.reach cwd (a.folder id) = Path.follow (Path.reach cwd a.root) id := by
    rw [Archive.folder, Path.reach_join plain.nonempty (Path.isAbsolute_of_whole plain.whole),
      Path.follow_name plain, reach_root plain]
    rfl
  rw [file, Path.reach_join named.nonempty (Path.isAbsolute_of_whole named.whole), folder]
  exact Path.follow_name named _

/-- The place of a file of a step whose id leads downwards. -/
theorem place_file (plain : Path.IsName a.run) (mem : name ∈ fileNames) (descends : Path.Descends id)
    (cwd : String) : Path.place cwd (a.file id name) =
      Path.place cwd a.root ++ Path.plainParts false id ++ [name] := by
  rw [Path.place, reach_file plain mem, Path.follow_of_descends descends]
  simp [Path.place]

/-- An id that leads upwards leads out of the run in some archive. -/
theorem exists_outside (climbs : ¬Path.Descends id) (cwd : String) :
    ∃ b : Archive, Path.IsName b.run ∧ ∀ name ∈ fileNames,
      ¬Path.place cwd b.root <+: Path.place cwd (b.file id name) := by
  obtain ⟨names, leads⟩ := Path.exists_follow_of_not_descends climbs
  -- The run has a name other than those at which the ways to the files begin.
  obtain ⟨run, plain, free, other⟩ : ∃ run, Path.IsName run ∧ run ∉ fileNames ∧
      names.reverse.head? ≠ some run := by
    by_cases taken : names.reverse.head? = some "r"
    · exact ⟨"s", by decide, by decide, by simp [taken]⟩
    · exact ⟨"r", by decide, by decide, taken⟩
  refine ⟨⟨run, "/"⟩, plain, fun name mem => ?_⟩
  have atTop : Path.reach cwd "/" = [] := rfl
  have top := reach_root (a := ⟨run, "/"⟩) plain cwd
  rw [atTop] at top
  have file : Path.reach cwd (Archive.file ⟨run, "/"⟩ id name) = _ :=
    reach_file (a := ⟨run, "/"⟩) plain mem cwd
  rw [top, leads run plain] at file
  rw [Path.place, Path.place, top, file, List.reverse_singleton, List.reverse_cons]
  rintro ⟨rest, same⟩
  generalize names.reverse = way at other same
  cases way with
  | nil =>
    cases same
    exact free mem
  | cons first way =>
    cases same
    exact other rfl

end Archive

namespace Rehearsal

variable {p q : String}

/-- Two paths are those of one file when the names on the way to it are the same on the disk. -/
theorem pathOf_eq_iff (r : Rehearsal) (some : Path.place r.directory p ≠ [])
    (someToo : Path.place r.directory q ≠ []) : r.pathOf p = r.pathOf q ↔
      (Path.place r.directory p).map Text.repair = (Path.place r.directory q).map Text.repair := by
  have spelled (p : String) : r.pathOf p =
      "/" ++ Text.joinWith "/" ((Path.place r.directory p).map Text.repair) := by
    have slash := Text.repair_slash "" (Text.joinWith "/" (Path.place r.directory p))
    rw [pathOf, Path.resolve_eq, ← Text.repair_joinWith]
    exact slash
  have whole (p : String) : ∀ n ∈ (Path.place r.directory p).map Text.repair, '/' ∉ n.toList := by
    intro n mem
    obtain ⟨m, within, rfl⟩ := List.mem_map.mp mem
    exact Text.slash_not_mem_repair (Path.isName_of_mem_place within).whole
  rw [spelled, spelled, String.append_right_inj]
  exact Text.joinWith_inj (by simpa using some) (by simpa using someToo) (whole p) (whole q)

end Rehearsal

namespace Session

variable {s t : Session} {id x y : String} {d : Step} {opts more : RunOptions}
  {events later : List Event} {out other : Except Misuse (Session × StepResult)}
  {request : Request} {r : StepResult} {u : Unit}

theorem keeps_of_keep {archive : Option Archive}
    (run : (keep archive id request r).Runs events u) :
    ∀ p ∈ filesOf events, Archive.Keeps archive id p := by
  cases archive with
  | none =>
    obtain ⟨rfl, _⟩ := Talk.runs_done_iff.mp run
    simp
  | some a =>
    have kept {name : String} (mem : name ∈ Archive.fileNames) :
        Archive.Keeps (some a) id (a.file id name) := ⟨a, name, rfl, mem, rfl⟩
    obtain ⟨first, second, _, rfl, requestFile, responseFile⟩ := Talk.runs_bind_iff.mp run
    rw [filesOf_append, Archive.filesOf_save requestFile]
    split at responseFile
    · obtain ⟨rfl, _⟩ := Talk.runs_done_iff.mp responseFile
      simpa using kept (by decide)
    · rw [Archive.filesOf_save responseFile]
      simpa using ⟨kept (by decide), kept (by decide)⟩

theorem request_kept {a : Archive} (run : (keep (some a) id request r).Runs events u) :
    a.file id "request.json" ∈ filesOf events := by
  obtain ⟨first, second, _, rfl, requestFile, _⟩ := Talk.runs_bind_iff.mp run
  simp [Archive.filesOf_save requestFile]

/-! ## Attempts that write -/

theorem filesOf_exchange {limit : Number} {reply : Except TransportFault Response}
    (run : (exchange request limit).Runs events reply) : filesOf events = [] := by
  unfold exchange at run
  split at run
  · obtain ⟨rfl, _⟩ := Talk.runs_done_iff.mp run
    rfl
  · obtain ⟨outcome, rest, rfl, received⟩ := Talk.runs_send_iff.mp run
    obtain ⟨rfl, _⟩ := Talk.runs_done_iff.mp received
    rfl

theorem filesOf_execute (run : (d.execute request opts).Runs events r) : filesOf events = [] := by
  obtain ⟨sending, _, reply, rfl, exchanged, concluded⟩ := Talk.runs_bind_iff.mp run
  obtain ⟨rfl, _⟩ := Talk.runs_done_iff.mp concluded
  rw [List.append_nil, filesOf_exchange exchanged]

/-- The request of a step is sent, and the result is stored. -/
structure Stores (s : Session) (id : String) (opts : RunOptions) (request : Request)
    (r : StepResult) : Prop where
  admitted : ∃ d, s.requireRunnable id = .ok d ∧ ∃ events, (d.execute request opts).Runs events r
  rendered : s.render id = .ok (.ok request)
  stored : ∃ running t, s.markRunning id request = .ok running ∧ running.record id r = .ok t

theorem step?_of_runnable (admitted : s.requireRunnable id = .ok d) : s.flow.step? id = some d := by
  simp only [requireRunnable, bind_ok_iff, step_ok_iff, check_ok_iff, pure_ok_iff] at admitted
  obtain ⟨_, found, _, _, _, _, _, rfl⟩ := admitted
  exact found

theorem id_of_runnable (admitted : s.requireRunnable id = .ok d) : d.id = id :=
  Flow.id_of_step? (step?_of_runnable admitted)

/-- What an attempt writes: nothing, when it comes to no request, or what is kept of the result that
it stores. -/
inductive Filed (s : Session) (id : String) (opts : RunOptions) :
    List Event → Except Misuse (Session × StepResult) → Prop
  | nothing {events : List Event} {out : Except Misuse (Session × StepResult)}
      (none : filesOf events = [])
      (unsent : ∀ t r, out = .ok (t, r) → r.request = .none ∧ r.response = .none) :
      Filed s id opts events out
  | kept {before keeping after : List Event} {request : Request} {r : StepResult} {t : Session}
      {u : Unit} (stores : s.Stores id opts request r)
      (kept : (keep opts.archive id request r).Runs keeping u) (first : filesOf before = [])
      (last : filesOf after = []) : Filed s id opts (before ++ keeping ++ after) (.ok (t, r))

theorem Filed.said (filed : s.Filed id opts events out) (n : Note) :
    s.Filed id opts (.said n :: events) out := by
  cases filed with
  | nothing none unsent => exact .nothing none unsent
  | @kept before keeping after request r t u stores kept first last =>
    exact @Filed.kept s id opts (.said n :: before) keeping after request r t u stores kept first
      last

theorem filed_of_settle {running : Session} (admitted : s.requireRunnable id = .ok d)
    (rendered : s.render id = .ok (.ok request)) (marked : s.markRunning id request = .ok running)
    (run : (settle running d request opts).Runs events out) : s.Filed id opts events out := by
  have same := id_of_runnable admitted
  obtain ⟨executing, _, r, rfl, executed, stores⟩ := Talk.runs_bind_iff.mp run
  rw [same] at stores
  split at stores
  next =>
    obtain ⟨rfl, rfl⟩ := Talk.runs_done_iff.mp stores
    exact .nothing (by simp [filesOf_execute executed]) (by rintro t r ⟨⟩)
  next t recorded =>
    obtain ⟨keeping, _, u, rfl, kept, told⟩ := Talk.runs_bind_iff.mp stores
    obtain ⟨_, rfl, ended⟩ := Talk.runs_note_iff.mp told
    obtain ⟨rfl, rfl⟩ := Talk.runs_done_iff.mp ended
    have stored : s.Stores id opts request r :=
      ⟨⟨d, admitted, executing, executed⟩, rendered, running, t, marked, recorded⟩
    rw [← List.append_assoc]
    exact .kept stored kept (filesOf_execute executed) rfl

theorem filed_of_perform (admitted : s.requireRunnable id = .ok d)
    (run : (perform s d opts).Runs events out) : s.Filed id opts events out := by
  unfold perform at run
  rw [id_of_runnable admitted] at run
  split at run
  next =>
    obtain ⟨rfl, rfl⟩ := Talk.runs_done_iff.mp run
    exact .nothing rfl (by rintro t r ⟨⟩)
  next =>
    split at run
    next =>
      obtain ⟨rfl, rfl⟩ := Talk.runs_done_iff.mp run
      exact .nothing rfl (by rintro t r ⟨⟩)
    next =>
      obtain ⟨_, rfl, ended⟩ := Talk.runs_note_iff.mp run
      obtain ⟨rfl, rfl⟩ := Talk.runs_done_iff.mp ended
      exact .nothing rfl (by rintro t r ⟨⟩; exact ⟨rfl, rfl⟩)
  next request rendered =>
    obtain ⟨_, rfl, marks⟩ := Talk.runs_note_iff.mp run
    split at marks
    next =>
      obtain ⟨rfl, rfl⟩ := Talk.runs_done_iff.mp marks
      exact .nothing rfl (by rintro t r ⟨⟩)
    next running marked => exact (filed_of_settle admitted rendered marked marks).said _

theorem filed_of_attempt (run : (s.attempt id opts).Runs events out) :
    s.Filed id opts events out := by
  unfold attempt at run
  split at run
  next =>
    obtain ⟨rfl, rfl⟩ := Talk.runs_done_iff.mp run
    exact .nothing rfl (by rintro t r ⟨⟩)
  next d admitted =>
    obtain ⟨_, rfl, performed⟩ := Talk.runs_note_iff.mp run
    exact (filed_of_perform admitted performed).said _

/-- An attempt writes nothing, or its result is stored and then kept. -/
theorem stores_of_attempt (run : (s.attempt id opts).Runs events out) :
    filesOf events = [] ∨ ∃ request r keeping u, s.Stores id opts request r ∧
      (keep opts.archive id request r).Runs keeping u ∧ filesOf events = filesOf keeping := by
  cases filed_of_attempt run with
  | nothing none => exact Or.inl none
  | kept stores kept first last =>
    exact Or.inr ⟨_, _, _, _, stores, kept, by simp [first, last]⟩

/-- When the result is stored the request is written, whatever archive there is. -/
theorem Stores.exists_run (stores : s.Stores id opts request r) (a : Archive) : ∃ events out,
    (s.attempt id { opts with archive := some a }).Runs events out ∧
      a.file id "request.json" ∈ filesOf events := by
  obtain ⟨⟨d, admitted, executing, executed⟩, rendered, running, t, marked, recorded⟩ := stores
  have same := id_of_runnable admitted
  obtain ⟨keeping, u, kept, _⟩ :=
    Talk.exists_runs (fun _ => Rehearsal.exhausted) (keep (some a) id request r)
  have settled : (settle running d request { opts with archive := some a }).Runs
      (executing ++ (keeping ++ [.said (resultNote id r)])) (.ok (t, r)) := by
    refine Talk.runs_bind_iff.mpr ⟨executing, _, r, rfl, executed, ?_⟩
    rw [same, recorded]
    exact Talk.runs_bind_iff.mpr ⟨keeping, _, u, rfl, kept, .note (.done _)⟩
  have performed : (perform s d { opts with archive := some a }).Runs
      (.said (.leveled .debug request.title) ::
        (executing ++ (keeping ++ [.said (resultNote id r)]))) (.ok (t, r)) := by
    unfold perform
    rw [same, rendered]
    refine .note ?_
    rw [marked]
    exact settled
  have run : (s.attempt id { opts with archive := some a }).Runs (.said (announcement d) ::
      .said (.leveled .debug request.title) ::
        (executing ++ (keeping ++ [.said (resultNote id r)]))) (.ok (t, r)) := by
    unfold attempt
    rw [admitted]
    exact .note performed
  exact ⟨_, _, run, by simp [request_kept kept]⟩

/-- A step that can be attempted and rendered has its request written. -/
theorem exists_run_writing (h : s.Consistent) (admitted : s.requireRunnable x = .ok d)
    (rendered : s.render x = .ok (.ok request)) (idle : s.status x ≠ .running)
    (opts : RunOptions) (a : Archive) : ∃ events out,
      (s.attempt x { opts with archive := some a }).Runs events out ∧
        a.file x "request.json" ∈ filesOf events := by
  obtain ⟨executing, r, executed, _⟩ :=
    Talk.exists_runs (fun _ => Rehearsal.exhausted) (d.execute request opts)
  have stores : s.Stores x opts request r :=
    { admitted := ⟨d, admitted, executing, executed⟩
      rendered
      stored := ⟨_, _, markRunning_of_runnable h admitted idle request, record_settled h admitted⟩ }
  exact stores.exists_run a

/-- An attempt writes nothing but the files of its step. -/
theorem keeps_of_attempt (run : (s.attempt id opts).Runs events out) :
    ∀ p ∈ filesOf events, Archive.Keeps opts.archive id p := by
  rcases stores_of_attempt run with none | ⟨request, r, keeping, u, _, kept, same⟩
  · simp [none]
  · rw [same]
    exact keeps_of_keep kept

/-- An attempt writes files of its step only. When the id of the step leads downwards they lie below
the run, at the plain parts of the id, and two such steps have a file in common exactly when these
parts are the same on the disk and the file has one name. A step with any other id that is written at
all has files outside of the run when it is attempted with some other archive. -/
theorem files_in_place {a : Archive} (kept : opts.archive = some a) (keptToo : more.archive = some a)
    (plain : Path.IsName a.run) (run : (s.attempt x opts).Runs events out)
    (again : (t.attempt y more).Runs later other) {p q : String} (wrote : p ∈ filesOf events)
    (wroteToo : q ∈ filesOf later) (r : Rehearsal) :
    ∃ n ∈ Archive.fileNames, ∃ m ∈ Archive.fileNames, p = a.file x n ∧ q = a.file y m ∧
      (Path.Descends x → Path.place r.directory p =
        Path.place r.directory a.root ++ Path.plainParts false x ++ [n]) ∧
      (Path.Descends x → Path.Descends y → (r.pathOf p = r.pathOf q ↔
        (Path.plainParts false x).map Text.repair = (Path.plainParts false y).map Text.repair ∧
          n = m)) ∧
      (¬Path.Descends x → ∃ b : Archive, Path.IsName b.run ∧ ∃ events out,
        (s.attempt x { opts with archive := some b }).Runs events out ∧ ∃ p ∈ filesOf events,
          ¬Path.place r.directory b.root <+: Path.place r.directory p) := by
  obtain ⟨b, n, held, first, rfl⟩ := keeps_of_attempt run p wrote
  cases kept.symm.trans held
  obtain ⟨b, m, held, second, rfl⟩ := keeps_of_attempt again q wroteToo
  cases keptToo.symm.trans held
  refine ⟨n, first, m, second, rfl, rfl, ?below, ?apart, ?outside⟩
  case below => exact fun descends => Archive.place_file plain first descends r.directory
  case apart =>
    intro descends descendsToo
    have place := Archive.place_file plain first descends r.directory
    have placeToo := Archive.place_file plain second descendsToo r.directory
    rw [Rehearsal.pathOf_eq_iff r (by simp [place]) (by simp [placeToo]), place, placeToo]
    simp [Archive.repair_of_mem n first, Archive.repair_of_mem m second]
  case outside =>
    intro climbs
    obtain ⟨b, plainToo, outside⟩ := Archive.exists_outside climbs r.directory
    rcases stores_of_attempt run with none | ⟨request, _, _, _, stores, _⟩
    · rw [none] at wrote
      cases wrote
    obtain ⟨events, out, run, wrote⟩ := stores.exists_run b
    exact ⟨b, plainToo, events, out, run, _, wrote, outside _ (by decide)⟩

/-- Two steps, of which the second one has its files in a directory of the first one. -/
theorem files_of_login_and_refresh : ∃ (doc : Value) (s : Session) (opts : RunOptions)
    (events later : List Event) (out other : Except Misuse (Session × StepResult)) (p q : String),
    Flow.ofDocument (some doc) = .ok s.flow ∧ s.IsNew ∧
      (s.attempt "login" opts).Runs events out ∧
        (s.attempt "login/refresh" opts).Runs later other ∧
          p ∈ filesOf events ∧ q ∈ filesOf later ∧ ∀ r : Rehearsal, r.directory = "/" →
            ["runs", "r1", "login"] <+: Path.place r.directory p ∧ r.pathOf p ≠ r.pathOf q := by
  let s : Session :=
    { flow :=
        { steps :=
            [⟨"login", "login", "", [], [], [], some ⟨"GET", "/login", [], none, none⟩, []⟩,
              ⟨"login/refresh", "login/refresh", "", [], [], [],
                some ⟨"GET", "/refresh", [], none, none⟩, []⟩]
          endpointDefaults := [], schedule := ["login", "login/refresh"], warnings := [] } }
  have compiled : Flow.ofDocument (some (.mapping
      [("steps", .list [.mapping [("id", .text "login")], .mapping [("id", .text "login/refresh")]]),
        ("requests", .mapping [("login", .mapping [("url", .text "/login")]),
          ("login/refresh", .mapping [("url", .text "/refresh")])])])) = .ok s.flow := rfl
  have new : s.IsNew := rfl
  let a : Archive := { run := "r1" }
  let opts : RunOptions := { limit := .ofInt 1000 }
  obtain ⟨events, out, run, wrote⟩ :=
    exists_run_writing (x := "login") new.consistent rfl rfl (by decide) opts a
  obtain ⟨later, other, again, wroteToo⟩ :=
    exists_run_writing (x := "login/refresh") new.consistent rfl rfl (by decide) opts a
  refine ⟨_, s, _, events, later, out, other, _, _, compiled, new, run, again, wrote, wroteToo,
    fun r home => ?_⟩
  obtain ⟨n, _, m, _, _, _, below, apart, _⟩ :=
    files_in_place rfl rfl (by decide) run again wrote wroteToo r
  have root : Path.place r.directory a.root = ["runs", "r1"] := by
    rw [home]
    decide
  have parts : Path.plainParts false "login" = ["login"] := by decide
  constructor
  · rw [below (by decide), root, parts]
    exact List.prefix_append ["runs", "r1", "login"] [n]
  · intro same
    exact absurd ((apart (by decide) (by decide)).mp same).1 (by decide)

/-- A flow with three steps: one has its files outside the run, and two have the same files. -/
theorem files_out_of_place : ∃ (doc : Value) (s : Session) (opts : RunOptions) (a : Archive),
    Flow.ofDocument (some doc) = .ok s.flow ∧ s.IsNew ∧ opts.archive = some a ∧
      Path.IsName a.run ∧
        (∃ events out p, (s.attempt "../login" opts).Runs events out ∧ p ∈ filesOf events ∧
          ¬Path.place "/" a.root <+: Path.place "/" p) ∧
        ∃ events out later other p, (s.attempt "login" opts).Runs events out ∧
          (s.attempt "./login" opts).Runs later other ∧ p ∈ filesOf events ∧ p ∈ filesOf later := by
  let s : Session :=
    { flow :=
        { steps :=
            [⟨"login", "login", "", [], [], [], some ⟨"GET", "/login", [], none, none⟩, []⟩,
              ⟨"./login", "./login", "", [], [], [], some ⟨"GET", "/login", [], none, none⟩, []⟩,
              ⟨"../login", "../login", "", [], [], [], some ⟨"GET", "/login", [], none, none⟩, []⟩]
          endpointDefaults := [], schedule := ["login", "./login", "../login"], warnings := [] } }
  have compiled : Flow.ofDocument (some (.mapping
      [("steps", .list [.mapping [("id", .text "login")], .mapping [("id", .text "./login")],
          .mapping [("id", .text "../login")]]),
        ("requests", .mapping [("login", .mapping [("url", .text "/login")]),
          ("./login", .mapping [("url", .text "/login")]),
          ("../login", .mapping [("url", .text "/login")])])])) = .ok s.flow := rfl
  have new : s.IsNew := rfl
  let a : Archive := { run := "r1" }
  let opts : RunOptions := { limit := .ofInt 1000 }
  obtain ⟨events, out, run, wrote⟩ :=
    exists_run_writing (x := "login") new.consistent rfl rfl (by decide) opts a
  obtain ⟨later, other, again, wroteToo⟩ :=
    exists_run_writing (x := "./login") new.consistent rfl rfl (by decide) opts a
  obtain ⟨last, ended, outside, wroteLast⟩ :=
    exists_run_writing (x := "../login") new.consistent rfl rfl (by decide) opts a
  have same : a.file "./login" "request.json" = a.file "login" "request.json" := by
    decide +kernel
  rw [same] at wroteToo
  exact ⟨_, s, _, a, compiled, new, rfl, by decide,
    ⟨last, ended, a.file "../login" "request.json", outside, wroteLast, by decide +kernel⟩,
    events, out, later, other, a.file "login" "request.json", run, again, wrote, wroteToo⟩

end Session

end Walkthrough
