import Walkthrough.Proofs.Archive
import Walkthrough.Proofs.Restart

/-!
# The two files of a step

Attempts write to a tree of files, and what a file of a step holds is what the last attempt left
there that had something for it (`Session.get?_of_worked`). An attempt whose request is lost on the
way has nothing for the response. So the two files of a step belong to one attempt unless the last
request of the step was lost; then the request stands beside the response to an earlier one
(`Session.paired_unless_lost`).
-/

namespace Walkthrough

/-! ## Saving in a tree -/

namespace FileTree

variable {t next : FileTree} {directory file text : String}

theorem files_makeDirectory (t : FileTree) (path : String) :
    (t.makeDirectory path).1.files = t.files := by
  unfold makeDirectory
  dsimp only
  split <;> rfl

/-- A file that is saved has its text, and the other files have theirs. -/
theorem get?_of_save (done : t.save directory file text = (next, true)) (path : String) :
    next.files.get? path = if file = path then some text else t.files.get? path := by
  have kept := files_makeDirectory t directory
  unfold save at done
  split at done
  next => cases done
  next made same =>
    rw [same] at kept
    unfold writeFile at done
    split at done
    next => cases done
    next wrote =>
      split at wrote
      · cases wrote
      · cases wrote
        cases done
        rw [Ledger.get?_put, kept]

/-- Whether a file is saved does not hang on its text. -/
theorem isSaved_text (t : FileTree) (directory file text other : String) :
    (t.save directory file text).2 = (t.save directory file other).2 := by
  unfold save
  split
  next => rfl
  next made _ =>
    unfold writeFile
    cases !isPossible file || !hasShortName file || made.isDirectory file <;> rfl

end FileTree

/-- The events write to a tree, and all that they write is saved. -/
inductive Stored (r : Rehearsal) : FileTree → List Event → FileTree → Prop
  | nil (tree : FileTree) : Stored r tree [] tree
  | saved {tree next last : FileTree} {directory file text : String} {events : List Event}
      (done : tree.save (r.pathOf directory) (r.pathOf file) (Text.repair text) = (next, true))
      (later : Stored r next events last) :
      Stored r tree (.saved directory file text none :: events) last
  | other {tree last : FileTree} {event : Event} {events : List Event}
      (unwritten : event.file? = none) (later : Stored r tree events last) :
      Stored r tree (event :: events) last

section
variable {r : Rehearsal} {tree last : FileTree} {first second events : List Event}

theorem Stored.save {directory file text : String}
    (free : (tree.save (r.pathOf directory) (r.pathOf file) "").2 = true)
    (later : Stored r (tree.save (r.pathOf directory) (r.pathOf file) (Text.repair text)).1 events
      last) : Stored r tree (.saved directory file text none :: events) last := by
  have done := (FileTree.isSaved_text tree _ _ (Text.repair text) "").trans free
  exact .saved (by rw [← done]) later

theorem stored_append_iff : Stored r tree (first ++ second) last ↔
    ∃ middle, Stored r tree first middle ∧ Stored r middle second last := by
  constructor
  · intro stored
    induction first generalizing tree with
    | nil => exact ⟨tree, .nil tree, stored⟩
    | cons event first ih =>
      cases stored with
      | saved done later =>
        obtain ⟨middle, before, after⟩ := ih later
        exact ⟨middle, .saved done before, after⟩
      | other unwritten later =>
        obtain ⟨middle, before, after⟩ := ih later
        exact ⟨middle, .other unwritten before, after⟩
  · rintro ⟨middle, before, after⟩
    induction before with
    | nil => exact after
    | saved done _ ih => exact .saved done (ih after)
    | other unwritten _ ih => exact .other unwritten (ih after)

theorem Stored.eq_of_unwritten (stored : Stored r tree events last) (none : filesOf events = []) :
    last = tree := by
  induction stored with
  | nil => rfl
  | saved => cases none
  | @other _ _ event events unwritten _ ih =>
    rw [filesOf, List.filterMap_cons, unwritten] at none
    exact ih none

end

/-! ## The files of different steps -/

namespace Path

/-- Below a path whose parts are given, a name leads to one place more. -/
theorem exists_reach_join (cwd : String) (paths : List String) : ∃ start, ∀ n, IsName n →
    reach cwd (join (paths ++ [n])) = n :: start := by
  have alone {n : String} (named : IsName n) : [n].filter (· != "") = [n] := by
    simp [named.nonempty]
  cases kept : paths.filter (· != "") with
  | nil =>
    refine ⟨follow [] cwd, fun n named => ?_⟩
    rw [join, reach_normalize, List.filter_append, kept, alone named]
    exact (reach_of_relative (isAbsolute_of_whole named.whole) cwd).trans (follow_name named _)
  | cons first others =>
    have some : first ≠ "" := by
      have mem : first ∈ paths.filter (· != "") := by simp [kept]
      simpa using (List.mem_filter.mp mem).2
    refine ⟨others.foldl follow (reach cwd first), fun n named => ?_⟩
    rw [join, reach_normalize, List.filter_append, kept, alone named, List.cons_append,
      reach_joined some, List.foldl_append]
    exact follow_name named _

end Path

namespace Archive

variable {a : Archive} {x y n m : String}

theorem exists_place (a : Archive) (cwd : String) : ∃ start, ∀ x n, Path.IsName x →
    n ∈ fileNames → Path.place cwd (a.file x n) = start ++ [x, n] := by
  obtain ⟨start, leads⟩ := Path.exists_reach_join cwd [a.directory, a.run]
  refine ⟨start.reverse, fun x n named mem => ?_⟩
  have filed := isName_of_mem n mem
  have reached : Path.reach cwd (a.file x n) = n :: x :: start := by
    rw [file, Path.reach_join filed.nonempty (Path.isAbsolute_of_whole filed.whole), folder,
      List.foldl_nil, Path.follow_name filed]
    exact congrArg _ (leads x named)
  simp [Path.place, reached]

/-- Steps whose ids are names have a file in common only when the ids are the same on the disk. -/
theorem pathOf_file_eq_iff (r : Rehearsal) (named : Path.IsName x) (namedToo : Path.IsName y)
    (mem : n ∈ fileNames) (memToo : m ∈ fileNames) :
    r.pathOf (a.file x n) = r.pathOf (a.file y m) ↔ Text.repair x = Text.repair y ∧ n = m := by
  obtain ⟨start, leads⟩ := exists_place a r.directory
  have first := leads x n named mem
  have second := leads y m namedToo memToo
  rw [Rehearsal.pathOf_eq_iff r (by simp [first]) (by simp [second]), first, second]
  simp [repair_of_mem n mem, repair_of_mem m memToo]

end Archive

/-! ## What an attempt leaves -/

/-- The text of a file that holds a value. -/
def fileText (v : Value) : String :=
  Text.repair (Json.print v)

namespace StepResult

/-- The text that a result has for a file of its step. -/
def textFor? (r : StepResult) (name : String) : Option String :=
  if name = "request.json" then r.request.map fun q => fileText q.toValue
  else if name = "response.json" then r.response.map fun p => fileText p.toValue
  else none

variable {r : StepResult}

@[simp] theorem textFor?_request :
    r.textFor? "request.json" = r.request.map fun q => fileText q.toValue := rfl

@[simp] theorem textFor?_response :
    r.textFor? "response.json" = r.response.map fun p => fileText p.toValue := rfl

theorem textFor?_request_eq_none_iff : r.textFor? "request.json" = none ↔ r.request = none := by
  simp

theorem textFor?_response_eq_none_iff : r.textFor? "response.json" = none ↔ r.response = none := by
  simp

end StepResult

theorem Step.failure_conclude {d : Step} {serverUrl : Option String} {request : Request}
    {reply : Except TransportFault Response}
    (lost : (d.conclude serverUrl request reply).response = none) :
    ∃ f, (d.conclude serverUrl request reply).failure = some (.transport f) := by
  cases reply with
  | error f => exact ⟨f, rfl⟩
  | ok response =>
    unfold conclude at lost
    dsimp only at lost
    split at lost <;> cases lost

/-- The ids are names, and they are different on the disk if they are different. -/
structure Apart (id x : String) : Prop where
  named : Path.IsName id
  namedToo : Path.IsName x
  apart : Text.repair id = Text.repair x → id = x

namespace Archive

variable {a : Archive} {id x n name : String} {v : Value} {events : List Event} {u : Unit}
  {r : Rehearsal} {tree last : FileTree}

/-- Of the files of steps, what is saved is one. -/
theorem get?_of_save (apart : Apart id x) (memToo : n ∈ fileNames) (mem : name ∈ fileNames)
    (run : (a.save id n v).Runs events u) (stored : Stored r tree events last) :
    last.files.get? (r.pathOf (a.file x name)) =
      if id = x ∧ n = name then some (fileText v)
      else tree.files.get? (r.pathOf (a.file x name)) := by
  have place : r.pathOf (a.file id n) = r.pathOf (a.file x name) ↔ id = x ∧ n = name := by
    rw [pathOf_file_eq_iff r apart.named apart.namedToo memToo mem]
    exact and_congr_left' ⟨apart.apart, congrArg _⟩
  simp only [← place]
  rcases events_of_save run with rfl | ⟨reason, rfl⟩
  · cases stored with
    | saved done later =>
      rw [later.eq_of_unwritten rfl]
      exact FileTree.get?_of_save done _
    | other unwritten => cases unwritten
  · cases stored with
    | other unwritten => cases unwritten

end Archive

namespace Session

variable {s t : Session} {id x name : String} {a : Archive} {opts : RunOptions}
  {events : List Event} {out : Except Misuse (Session × StepResult)} {request : Request}
  {result : StepResult} {u : Unit} {r : Rehearsal} {tree disk last : FileTree}

/-- What is kept of a result is what it has for the files of its step. -/
theorem get?_of_keep (apart : Apart id x) (mem : name ∈ Archive.fileNames)
    (sent : result.request = some request) (run : (keep (some a) id request result).Runs events u)
    (stored : Stored r tree events last) : last.files.get? (r.pathOf (a.file x name)) =
      (if id = x then result.textFor? name else none).or
        (tree.files.get? (r.pathOf (a.file x name))) := by
  obtain ⟨first, second, _, rfl, requestFile, responseFile⟩ := Talk.runs_bind_iff.mp run
  obtain ⟨middle, before, after⟩ := stored_append_iff.mp stored
  have requested := Archive.get?_of_save apart (by decide) mem requestFile before
  have responded : last.files.get? (r.pathOf (a.file x name)) =
      (if id = x ∧ "response.json" = name then result.response.map fun p => fileText p.toValue
        else none).or (middle.files.get? (r.pathOf (a.file x name))) := by
    split at responseFile
    next none =>
      obtain ⟨rfl, _⟩ := Talk.runs_done_iff.mp responseFile
      rw [after.eq_of_unwritten rfl, none]
      simp
    next response some =>
      rw [Archive.get?_of_save apart (by decide) mem responseFile after, some]
      split <;> rfl
  rw [responded, requested]
  by_cases same : id = x
  · simp only [Archive.fileNames, List.mem_cons, List.not_mem_nil, or_false] at mem
    rcases mem with rfl | rfl <;> simp [same, sent]
  · simp [same]

/-- The result that an attempt has come to, with its step. -/
def resultsOf (id : String) : Except Misuse (Session × StepResult) → List (String × StepResult)
  | .ok (_, result) => [(id, result)]
  | .error _ => []

/-- The text that a result has for a file of the given step. -/
def textIn? (id name : String) (e : String × StepResult) : Option String :=
  if e.1 = id then e.2.textFor? name else none

theorem Stores.sent (stores : s.Stores id opts request result) :
    result.request = some request ∧
      (result.response = none → ∃ f, result.failure = some (.transport f)) := by
  obtain ⟨⟨d, _, executing, executed⟩, _, _⟩ := stores
  obtain ⟨_, _, reply, rfl, _, concluded⟩ := Talk.runs_bind_iff.mp executed
  obtain ⟨_, rfl⟩ := Talk.runs_done_iff.mp concluded
  exact ⟨Step.request_conclude, Step.failure_conclude⟩

theorem Stores.declared (stores : s.Stores id opts request result) : id ∈ s.flow.order := by
  obtain ⟨⟨d, admitted, _⟩, _, _⟩ := stores
  exact Flow.mem_order_of_step? (step?_of_runnable admitted)

/-- An attempt leaves in the files of steps what its result has for them, and nothing else. -/
theorem get?_of_attempt (apart : ∀ y ∈ s.flow.order, Apart y x) (mem : name ∈ Archive.fileNames)
    (kept : opts.archive = some a) (run : (s.attempt id opts).Runs events out)
    (stored : Stored r tree events last) : last.files.get? (r.pathOf (a.file x name)) =
      ((resultsOf id out).findSome? (textIn? x name)).or
        (tree.files.get? (r.pathOf (a.file x name))) := by
  cases filed_of_attempt run with
  | nothing none unsent =>
    rw [stored.eq_of_unwritten none]
    cases out with
    | error m => rfl
    | ok p =>
      obtain ⟨t, result⟩ := p
      obtain ⟨request, response⟩ := unsent t result rfl
      simp [resultsOf, textIn?, StepResult.textFor?, request, response]
  | kept stores keeping first after =>
    obtain ⟨_, before, rest⟩ := stored_append_iff.mp stored
    obtain ⟨_, start, middle⟩ := stored_append_iff.mp before
    cases start.eq_of_unwritten first
    cases rest.eq_of_unwritten after
    rw [kept] at keeping
    rw [get?_of_keep (apart _ stores.declared) mem stores.sent.1 keeping middle]
    simp [resultsOf, textIn?]

/-! ## Attempts one after the other -/

/-- What attempts and calls can lead to, from a session and a tree on, when all that the attempts
write is saved. The results of the attempts are listed, the latest first. -/
inductive Worked (a : Archive) (r : Rehearsal) (s : Session) (tree : FileTree) :
    Session → FileTree → List (String × StepResult) → Prop
  | start : Worked a r s tree s tree []
  | attempt {t : Session} {disk last : FileTree} {results : List (String × StepResult)}
      {id : String} {opts : RunOptions} {events : List Event}
      {out : Except Misuse (Session × StepResult)}
      (prior : Worked a r s tree t disk results) (kept : opts.archive = some a)
      (run : (t.attempt id opts).Runs events out) (stored : Stored r disk events last) :
      Worked a r s tree (t.leftBy out) last (resultsOf id out ++ results)
  | call {t : Session} {disk : FileTree} {results : List (String × StepResult)}
      (prior : Worked a r s tree t disk results) (c : Call) :
      Worked a r s tree (t.after c) disk results

variable {results : List (String × StepResult)}

theorem flow_of_worked (h : s.Consistent) (worked : Worked a r s tree t disk results) :
    t.Consistent ∧ t.flow = s.flow := by
  induction worked with
  | start => exact ⟨h, rfl⟩
  | @attempt t _ _ _ _ _ _ out _ _ run _ ih =>
    have attempted := attempted_of_runs ih.1 run
    refine ⟨ih.1.attempted attempted, Eq.trans ?_ ih.2⟩
    rcases attempted.leftBy_cases ih.1 with same | ⟨_, stored, _⟩
    · rw [same]
    · rw [stored]
      rfl
  | @call t _ _ _ c ih => exact ⟨ih.1.after c, (flow_afterAll t [c]).trans ih.2⟩

/-- A file of a step has what the latest attempt left there that had something for it. -/
theorem get?_of_worked (h : s.Consistent) (apart : ∀ y ∈ s.flow.order, Apart y x)
    (mem : name ∈ Archive.fileNames) (worked : Worked a r s tree t disk results) :
    disk.files.get? (r.pathOf (a.file x name)) = (results.findSome? (textIn? x name)).or
      (tree.files.get? (r.pathOf (a.file x name))) := by
  induction worked with
  | start => rfl
  | attempt prior kept run stored ih =>
    rw [get?_of_attempt ((flow_of_worked h prior).2 ▸ apart) mem kept run stored, ih,
      List.findSome?_append, Option.or_assoc]
  | call _ _ ih => exact ih

theorem orderly_of_worked (worked : Worked a r s tree t disk results) : ∀ e ∈ results,
    e.2.request = none ∧ e.2.response = none ∨ (∃ request, e.2.request = some request) ∧
      (e.2.response = none → ∃ f, e.2.failure = some (.transport f)) := by
  induction worked with
  | start => simp
  | @attempt _ _ _ _ id _ _ out _ _ run _ ih =>
    refine List.forall_mem_append.mpr ⟨?_, ih⟩
    cases filed_of_attempt run with
    | nothing _ unsent =>
      cases out with
      | error m => simp [resultsOf]
      | ok p => simpa [resultsOf] using Or.inl (unsent p.1 p.2 rfl)
    | kept stores _ _ _ =>
      simpa [resultsOf] using Or.inr ⟨⟨_, stores.sent.1⟩, stores.sent.2⟩
  | call _ _ ih => exact ih

/-! ## The request and the response of a step -/

theorem textIn?_eq_some_iff {e : String × StepResult} {text : String} :
    textIn? id name e = some text ↔ e.1 = id ∧ e.2.textFor? name = some text := by
  simp [textIn?]

theorem textIn?_eq_none_iff {e : String × StepResult} :
    textIn? id name e = none ↔ (e.1 = id → e.2.textFor? name = none) := by
  simp [textIn?]

/-- When all is saved, the request that is kept of a step is that of its latest attempt that came to
one. The response beside it is the one to this request, unless the request was lost on the way; then
it is the latest one that came before. -/
theorem paired_unless_lost (h : s.Consistent) (named : ∀ x ∈ s.flow.order, Path.IsName x)
    (apart : ∀ x ∈ s.flow.order, ∀ y ∈ s.flow.order, Text.repair x = Text.repair y → x = y)
    (worked : Worked a r s tree t disk results) (declared : id ∈ s.flow.order)
    (fresh : ∀ name ∈ Archive.fileNames, tree.files.get? (r.pathOf (a.file id name)) = none)
    {q p : String} (requested : disk.files.get? (r.pathOf (a.file id "request.json")) = some q)
    (responded : disk.files.get? (r.pathOf (a.file id "response.json")) = some p) :
    ∃ later result earlier request, results = later ++ (id, result) :: earlier ∧
      (∀ e ∈ later, e.1 = id → e.2.request = none) ∧ result.request = some request ∧
      q = fileText request.toValue ∧
      ((∃ response, result.response = some response ∧ p = fileText response.toValue) ∨
        result.response = none ∧ (∃ f, result.failure = some (.transport f)) ∧
          ∃ between old oldest response, earlier = between ++ (id, old) :: oldest ∧
            (∀ e ∈ between, e.1 = id → e.2.response = none) ∧ old.response = some response ∧
              p = fileText response.toValue) := by
  have orderly := orderly_of_worked worked
  have left {name : String} (mem : name ∈ Archive.fileNames) :
      disk.files.get? (r.pathOf (a.file id name)) = results.findSome? (textIn? id name) := by
    rw [get?_of_worked h (fun y other => ⟨named y other, named id declared,
      apart y other id declared⟩) mem worked, fresh name mem, Option.or_none]
  rw [left (by decide)] at requested responded
  obtain ⟨later, ⟨x, result⟩, earlier, rfl, latest, unsent⟩ :=
    List.findSome?_eq_some_iff.mp requested
  have own := orderly (x, result) (List.mem_append_right _ List.mem_cons_self)
  obtain ⟨rfl, wrote⟩ := textIn?_eq_some_iff.mp latest
  obtain ⟨request, sent, rfl⟩ := Option.map_eq_some_iff.mp wrote
  have bare : ∀ e ∈ later, e.1 = x → e.2.request = none := fun e mem same =>
    StepResult.textFor?_request_eq_none_iff.mp (textIn?_eq_none_iff.mp (unsent e mem) same)
  -- Without a request there is no response, so the later attempts have left none.
  have unanswered : later.findSome? (textIn? x "response.json") = none := by
    rw [List.findSome?_eq_none_iff]
    intro e mem
    rw [textIn?_eq_none_iff]
    intro same
    rcases orderly e (List.mem_append_left _ mem) with ⟨_, none⟩ | ⟨⟨_, some⟩, _⟩
    · exact StepResult.textFor?_response_eq_none_iff.mpr none
    · cases (bare e mem same).symm.trans some
  rw [List.findSome?_append, unanswered, Option.none_or, List.findSome?_cons] at responded
  refine ⟨later, result, earlier, request, rfl, bare, sent, rfl, ?_⟩
  split at responded
  next answered =>
    cases responded
    obtain ⟨_, kept⟩ := textIn?_eq_some_iff.mp answered
    obtain ⟨response, some, rfl⟩ := Option.map_eq_some_iff.mp kept
    exact Or.inl ⟨response, some, rfl⟩
  next lost =>
    have none := StepResult.textFor?_response_eq_none_iff.mp (textIn?_eq_none_iff.mp lost rfl)
    obtain ⟨between, ⟨_, old⟩, oldest, rfl, answered, silent⟩ :=
      List.findSome?_eq_some_iff.mp responded
    obtain ⟨rfl, kept⟩ := textIn?_eq_some_iff.mp answered
    obtain ⟨response, some, rfl⟩ := Option.map_eq_some_iff.mp kept
    have failed : ∃ f, result.failure = .some (.transport f) := by
      rcases own with ⟨unsent, _⟩ | ⟨_, failed⟩
      · cases sent.symm.trans unsent
      · exact failed none
    refine Or.inr ⟨none, failed, between, old, oldest, response, rfl, fun e mem same => ?_, some,
      rfl⟩
    exact StepResult.textFor?_response_eq_none_iff.mp (textIn?_eq_none_iff.mp (silent e mem) same)

theorem paths_of_list :
    Rehearsal.pathOf {} (Archive.folder { run := "r1" } "list") = "/runs/r1/list" ∧
      Rehearsal.pathOf {} (Archive.file { run := "r1" } "list" "request.json") =
        "/runs/r1/list/request.json" ∧
      Rehearsal.pathOf {} (Archive.file { run := "r1" } "list" "response.json") =
        "/runs/r1/list/response.json" := by
  decide +kernel

/-- The first request is lost and the second one is answered with an error; the files are those of
the second one. -/
theorem paired_after_second_attempt : ∃ (a : Archive) (r : Rehearsal) (s t : Session)
    (disk : FileTree) (first second : StepResult), s.IsNew ∧
      Worked a r s {} t disk [("list", second), ("list", first)] ∧ first.response = none ∧
      second.status = .failed ∧ ∃ request response, second.request = some request ∧
        second.response = some response ∧
        disk.files.get? (r.pathOf (a.file "list" "request.json")) =
          some (fileText request.toValue) ∧
        disk.files.get? (r.pathOf (a.file "list" "response.json")) =
          some (fileText response.toValue) := by
  let s : Session :=
    { flow :=
        { steps := [⟨"list", "list", "", [], [], [], some ⟨"GET", "/list", [], none, none⟩, []⟩]
          endpointDefaults := [], schedule := ["list"], warnings := [] } }
  let a : Archive := { run := "r1" }
  let r : Rehearsal := {}
  let opts : RunOptions := { limit := .ofInt 1000, archive := some a }
  let request : Request := ⟨"GET", "/list", [], none, none⟩
  let first : StepResult :=
    { status := .failed, origin := .http, request := some request
      failure := some (.transport (.failed "GET /list" "lost")) }
  let second : StepResult :=
    { status := .failed, origin := .http, request := some request
      response := some ⟨500, "Internal Server Error", [], "", none⟩
      failure := some (.status 500 "Internal Server Error") }
  have folder : r.pathOf (a.folder "list") = "/runs/r1/list" := paths_of_list.1
  have requestFile : r.pathOf (a.file "list" "request.json") = "/runs/r1/list/request.json" :=
    paths_of_list.2.1
  have responseFile : r.pathOf (a.file "list" "response.json") = "/runs/r1/list/response.json" :=
    paths_of_list.2.2
  have new : s.IsNew := rfl
  obtain ⟨disk, worked⟩ : ∃ disk,
      Worked a r s {} (s.store "list" second) disk [("list", second), ("list", first)] := by
    have lost : Worked a r s {} (s.store "list" first) _ [("list", first)] :=
      @Worked.attempt a r s {} s _ _ _ "list" opts _ (.ok (_, first)) .start rfl
        (.note (.note (@Talk.Runs.send _ _ _ (.failed (.error "TypeError" "lost" none)) _ _
          (@Talk.Runs.save _ _ _ _ _ none _ _ (.note (.done _))))))
        (.other rfl (.other rfl (.other rfl
          (.save (by simp only [folder, requestFile]; decide +kernel) (.other rfl (.nil _))))))
    exact ⟨_, @Worked.attempt a r s {} (s.store "list" first) _ _ _ "list" opts _ (.ok (_, second))
      lost rfl
      (.note (.note (@Talk.Runs.send _ _ _
        (.answered ⟨500, "Internal Server Error", [], .ok ""⟩) _ _
        (@Talk.Runs.save _ _ _ _ _ none _ _
          (@Talk.Runs.save _ _ _ _ _ none _ _ (.note (.done _)))))))
      (.other rfl (.other rfl (.other rfl
        (.save (by simp only [folder, requestFile]; decide +kernel)
          (.save (by simp only [folder, requestFile, responseFile]; decide +kernel)
            (.other rfl (.nil _)))))))⟩
  have named : ∀ x ∈ s.flow.order, Path.IsName x := by decide
  have apart : ∀ x ∈ s.flow.order, ∀ y ∈ s.flow.order, Text.repair x = Text.repair y → x = y := by
    decide
  have left {name : String} (mem : name ∈ Archive.fileNames) :=
    get?_of_worked new.consistent (fun y declared => ⟨named y declared, named "list" (by decide),
      apart y declared "list" (by decide)⟩) mem worked
  have requested := @left "request.json" (by decide)
  have responded := @left "response.json" (by decide)
  obtain ⟨later, result, earlier, sent, parts, unsent, some, same, own⟩ :=
    paired_unless_lost new.consistent named apart worked (by decide) (by decide) requested responded
  cases later with
  | nil =>
    cases parts
    rcases own with ⟨response, answered, own⟩ | ⟨none, _⟩
    · exact ⟨a, r, s, _, disk, first, second, new, worked, rfl, rfl, sent, response, some, answered,
        same ▸ requested, own ▸ responded⟩
    · cases none
  | cons e later =>
    obtain ⟨rfl, _⟩ := List.cons.inj parts
    cases unsent ("list", second) List.mem_cons_self rfl

/-- The login is made anew after the list has been had, and then the request with the new key is
lost. It stands beside the response to the request with the old key. -/
theorem mispaired_after_lost_request : ∃ (doc : Option Value) (a : Archive) (r : Rehearsal)
    (s t : Session) (disk : FileTree) (first last : StepResult) (request earlier : Request)
    (response : Response), Flow.ofDocument doc = .ok s.flow ∧ s.IsNew ∧
      (∀ x ∈ s.flow.order, Path.IsName x) ∧
      Worked a r s {} t disk [("list", last), ("list", first)] ∧
      last.request = some request ∧ last.response = none ∧
      first.request = some earlier ∧ earlier ≠ request ∧ first.response = some response ∧
      disk.files.get? (r.pathOf (a.file "list" "request.json")) = some (fileText request.toValue) ∧
      disk.files.get? (r.pathOf (a.file "list" "response.json")) =
        some (fileText response.toValue) := by
  let s : Session :=
    { flow :=
        { steps :=
            [⟨"login", "login", "", ["key"], [], [], none, []⟩,
              ⟨"list", "list", "", [], [], ["login"],
                some ⟨"GET", "/list?key=<key>", [], none, none⟩,
                [⟨"<key>", .field "login" "key", "step.login.key", none⟩]⟩]
          endpointDefaults := [], schedule := ["login", "list"], warnings := [] } }
  have compiled : Flow.ofDocument (some (.mapping
      [("steps", .list [.mapping [("id", .text "login"), ("manual", .bool true),
            ("extract", .list [.text "key"])], .mapping [("id", .text "list")]]),
        ("dependencies", .mapping [("list", .list [.text "login"])]),
        ("requests", .mapping [("list", .mapping [("url", .text "/list?key=<key>")])]),
        ("substitution_rules",
          .mapping [("list", .mapping [("<key>", .text "step.login.key")])])])) = .ok s.flow := rfl
  let a : Archive := { run := "r1" }
  let r : Rehearsal := {}
  let opts : RunOptions := { limit := .ofInt 1000, archive := some a }
  let loggedIn (key : String) : Session := s.store "login" (manualResult [("key", .text key)])
  let request (key : String) : Request := ⟨"GET", "/list?key=" ++ key, [], none, none⟩
  let first : StepResult :=
    { status := .completed, origin := .http, request := some (request "1")
      response := some ⟨200, "OK", [], "", none⟩ }
  let last : StepResult :=
    { status := .failed, origin := .http, request := some (request "2")
      failure := some (.transport (.failed "GET /list?key=2" "lost")) }
  have folder : r.pathOf (a.folder "list") = "/runs/r1/list" := paths_of_list.1
  have requestFile : r.pathOf (a.file "list" "request.json") = "/runs/r1/list/request.json" :=
    paths_of_list.2.1
  have responseFile : r.pathOf (a.file "list" "response.json") = "/runs/r1/list/response.json" :=
    paths_of_list.2.2
  have new : s.IsNew := rfl
  have undone : ((loggedIn "1").store "list" first).after (.restart "login") = s := by
    have gone : ((loggedIn "1").store "list" first).cleared "login" = ["login", "list"] := by
      decide +kernel
    rw [after_restart_eq (by decide), cleanse, gone]
    rfl
  have login : Worked a r s {} (loggedIn "1") {} [] :=
    .call .start (.completeManual "login" [("key", .text "1")])
  have renewed {disk : FileTree} {results : List (String × StepResult)}
      (listed : Worked a r s {} ((loggedIn "1").store "list" first) disk results) :
      Worked a r s {} (loggedIn "2") disk results := by
    have restarted := listed.call (.restart "login")
    rw [undone] at restarted
    exact restarted.call (.completeManual "login" [("key", .text "2")])
  have lost {disk : FileTree} {results : List (String × StepResult)}
      (again : Worked a r s {} (loggedIn "2") disk results)
      (free : (disk.save "/runs/r1/list" "/runs/r1/list/request.json" "").2 = true) :
      ∃ disk, Worked a r s {} ((loggedIn "2").store "list" last) disk
        (("list", last) :: results) := by
    refine ⟨_, @Worked.attempt a r s {} (loggedIn "2") _ _ _ "list" opts _ (.ok (_, last)) again rfl
      (.note (.note (@Talk.Runs.send _ _ _ (.failed (.error "TypeError" "lost" none)) _ _
        (@Talk.Runs.save _ _ _ _ _ none _ _ (.note (.done _))))))
      (.other rfl (.other rfl (.other rfl (.save ?_ (.other rfl (.nil _))))))⟩
    rw [folder, requestFile]
    exact free
  obtain ⟨disk, worked⟩ : ∃ disk, Worked a r s {} ((loggedIn "2").store "list" last) disk
      [("list", last), ("list", first)] := by
    have listed : Worked a r s {} ((loggedIn "1").store "list" first) _ [("list", first)] :=
      @Worked.attempt a r s {} (loggedIn "1") _ _ _ "list" opts _ (.ok (_, first)) login rfl
        (.note (.note (@Talk.Runs.send _ _ _ (.answered ⟨200, "OK", [], .ok ""⟩) _ _
          (@Talk.Runs.save _ _ _ _ _ none _ _
            (@Talk.Runs.save _ _ _ _ _ none _ _ (.note (.done _)))))))
        (.other rfl (.other rfl (.other rfl
          (.save (by simp only [folder, requestFile]; decide +kernel)
            (.save (by simp only [folder, requestFile, responseFile]; decide +kernel)
              (.other rfl (.nil _)))))))
    refine lost (renewed listed) ?_
    simp only [folder, requestFile, responseFile]
    decide +kernel
  have named : ∀ x ∈ s.flow.order, Path.IsName x := by decide
  have apart : ∀ x ∈ s.flow.order, Apart x "list" := by
    have same : ∀ x ∈ s.flow.order, Text.repair x = Text.repair "list" → x = "list" := by decide
    exact fun x declared => ⟨named x declared, named "list" (by decide), same x declared⟩
  have left {name : String} (mem : name ∈ Archive.fileNames) :=
    get?_of_worked new.consistent apart mem worked
  exact ⟨_, a, r, s, _, disk, first, last, request "2", request "1", _, compiled, new, named,
    worked, rfl, rfl, rfl, by decide, rfl, @left "request.json" (by decide),
    @left "response.json" (by decide)⟩

end Session

end Walkthrough
