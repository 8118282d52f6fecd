import Walkthrough.Talk

/-!
# Runs of a program

A run of a `Talk` is one way through its tree: the events on the way, each with the reply that was
given, and the value at the end. What holds of every run holds whatever servers, users and disks
do; every `Talk.Host` that keeps its surroundings in a state follows one of the runs.
-/

namespace Walkthrough

/-- What happens between a program and its surroundings. -/
inductive Event
  | sent (request : Wire) (outcome : Outcome)
  | asked (question : Question) (answer : Option String)
  | said (n : Note)
  | floored (level : Level)
  | looked (file : String) (content : Except ReadFault String)
  | saved (directory file text : String) (complaint : Option String)

namespace Event

/-- The request of an event, with the way it ended. -/
def exchange? : Event → Option (Wire × Outcome)
  | sent request outcome => some (request, outcome)
  | _ => none

end Event

/-- The requests sent in a run, with the way each ended. -/
def exchanges (events : List Event) : List (Wire × Outcome) :=
  events.filterMap Event.exchange?

@[simp] theorem exchanges_nil : exchanges [] = [] := rfl

@[simp] theorem exchanges_sent (request : Wire) (outcome : Outcome) (events : List Event) :
    exchanges (.sent request outcome :: events) = (request, outcome) :: exchanges events := rfl

@[simp] theorem exchanges_said (n : Note) (events : List Event) :
    exchanges (.said n :: events) = exchanges events := rfl

@[simp] theorem exchanges_saved (directory file text : String) (complaint : Option String)
    (events : List Event) :
    exchanges (.saved directory file text complaint :: events) = exchanges events := rfl

@[simp] theorem exchanges_append (first second : List Event) :
    exchanges (first ++ second) = exchanges first ++ exchanges second :=
  List.filterMap_append

/-- All requests of a run end as the server has it. -/
def ServedBy (server : Wire → Outcome) (events : List Event) : Prop :=
  ∀ e ∈ exchanges events, e.2 = server e.1

/-- All that is read in a run is on the disk. -/
def OnDisk (disk : String → Except ReadFault String) (events : List Event) : Prop :=
  ∀ file content, Event.looked file content ∈ events → content = disk file

theorem onDisk_append_iff {disk : String → Except ReadFault String} {first second : List Event} :
    OnDisk disk (first ++ second) ↔ OnDisk disk first ∧ OnDisk disk second := by
  simp [OnDisk, or_imp, forall_and]

theorem servedBy_append_iff {server : Wire → Outcome} {first second : List Event} :
    ServedBy server (first ++ second) ↔ ServedBy server first ∧ ServedBy server second := by
  simp [ServedBy, or_imp, forall_and]

namespace Talk

variable {α β : Type}

/-- The program can go through the events and end in the value. -/
inductive Runs : Talk α → List Event → α → Prop
  | done (a : α) : Runs (.done a) [] a
  | send {request next outcome events a} :
      Runs (next outcome) events a → Runs (.send request next) (.sent request outcome :: events) a
  | ask {question next answer events a} :
      Runs (next answer) events a → Runs (.ask question next) (.asked question answer :: events) a
  | note {n next events a} : Runs next events a → Runs (.note n next) (.said n :: events) a
  | floor {level next events a} :
      Runs next events a → Runs (.floor level next) (.floored level :: events) a
  | read {file next content events a} :
      Runs (next content) events a → Runs (.read file next) (.looked file content :: events) a
  | save {directory file text next complaint events a} :
      Runs (next complaint) events a →
        Runs (.save directory file text next) (.saved directory file text complaint :: events) a

/-! ## Taking a run apart -/

theorem runs_done_iff {a b : α} {events : List Event} :
    Runs (.done a) events b ↔ events = [] ∧ b = a := by
  constructor
  · rintro ⟨⟩
    exact ⟨rfl, rfl⟩
  · rintro ⟨rfl, rfl⟩
    exact .done b

theorem runs_note_iff {n : Note} {next : Talk α} {events : List Event} {a : α} :
    Runs (.note n next) events a ↔ ∃ rest, events = .said n :: rest ∧ Runs next rest a := by
  constructor
  · rintro (_ | _ | _ | run)
    exact ⟨_, rfl, run⟩
  · rintro ⟨rest, rfl, run⟩
    exact .note run

theorem runs_send_iff {request : Wire} {next : Outcome → Talk α} {events : List Event} {a : α} :
    Runs (.send request next) events a ↔
      ∃ outcome rest, events = .sent request outcome :: rest ∧ Runs (next outcome) rest a := by
  constructor
  · rintro (_ | run)
    exact ⟨_, _, rfl, run⟩
  · rintro ⟨outcome, rest, rfl, run⟩
    exact .send run

theorem runs_floor_iff {level : Level} {next : Talk α} {events : List Event} {a : α} :
    Runs (.floor level next) events a ↔
      ∃ rest, events = .floored level :: rest ∧ Runs next rest a := by
  constructor
  · rintro (_ | _ | _ | _ | run)
    exact ⟨_, rfl, run⟩
  · rintro ⟨rest, rfl, run⟩
    exact .floor run

theorem runs_read_iff {file : String} {next : Except ReadFault String → Talk α}
    {events : List Event} {a : α} :
    Runs (.read file next) events a ↔
      ∃ content rest, events = .looked file content :: rest ∧ Runs (next content) rest a := by
  constructor
  · rintro (_ | _ | _ | _ | _ | run)
    exact ⟨_, _, rfl, run⟩
  · rintro ⟨content, rest, rfl, run⟩
    exact .read run

theorem runs_save_iff {directory file text : String} {next : Option String → Talk α}
    {events : List Event} {a : α} :
    Runs (.save directory file text next) events a ↔ ∃ complaint rest,
      events = .saved directory file text complaint :: rest ∧ Runs (next complaint) rest a := by
  constructor
  · rintro (_ | _ | _ | _ | _ | _ | run)
    exact ⟨_, _, rfl, run⟩
  · rintro ⟨complaint, rest, rfl, run⟩
    exact .save run

/-- A run of two programs one after the other is a run of the first and then one of the second. -/
theorem runs_bind_iff {t : Talk α} {f : α → Talk β} {events : List Event} {b : β} :
    Runs (t.bind f) events b ↔ ∃ first second a,
      events = first ++ second ∧ Runs t first a ∧ Runs (f a) second b := by
  constructor
  · intro run
    induction t generalizing events with
    | done a => exact ⟨[], events, a, rfl, .done a, run⟩
    | send request next ih =>
      cases run with
      | send run =>
        obtain ⟨first, second, a, rfl, left, right⟩ := ih _ run
        exact ⟨_ :: first, second, a, rfl, .send left, right⟩
    | ask question next ih =>
      cases run with
      | ask run =>
        obtain ⟨first, second, a, rfl, left, right⟩ := ih _ run
        exact ⟨_ :: first, second, a, rfl, .ask left, right⟩
    | note n next ih =>
      cases run with
      | note run =>
        obtain ⟨first, second, a, rfl, left, right⟩ := ih run
        exact ⟨_ :: first, second, a, rfl, .note left, right⟩
    | floor level next ih =>
      cases run with
      | floor run =>
        obtain ⟨first, second, a, rfl, left, right⟩ := ih run
        exact ⟨_ :: first, second, a, rfl, .floor left, right⟩
    | read file next ih =>
      cases run with
      | read run =>
        obtain ⟨first, second, a, rfl, left, right⟩ := ih _ run
        exact ⟨_ :: first, second, a, rfl, .read left, right⟩
    | save directory file text next ih =>
      cases run with
      | save run =>
        obtain ⟨first, second, a, rfl, left, right⟩ := ih _ run
        exact ⟨_ :: first, second, a, rfl, .save left, right⟩
  · rintro ⟨first, second, a, rfl, left, right⟩
    induction left with
    | done a => exact right
    | send _ ih => exact .send (ih right)
    | ask _ ih => exact .ask (ih right)
    | note _ ih => exact .note (ih right)
    | floor _ ih => exact .floor (ih right)
    | read _ ih => exact .read (ih right)
    | save _ ih => exact .save (ih right)

/-- The replies determine a run: two runs whose events begin alike are the same one. -/
theorem Runs.unique {t : Talk α} {first second later other : List Event} {a b : α}
    (run : Runs t first a) (again : Runs t second b) (same : first ++ later = second ++ other) :
    first = second ∧ a = b ∧ later = other := by
  induction run generalizing second with
  | done a =>
    cases again
    exact ⟨rfl, rfl, same⟩
  | send _ ih | ask _ ih | note _ ih | floor _ ih | read _ ih | save _ ih =>
    cases again
    simp only [List.cons_append, List.cons.injEq] at same
    obtain ⟨event, rest⟩ := same
    cases event
    obtain ⟨rfl, rfl, rfl⟩ := ih ‹_› rest
    exact ⟨rfl, rfl, rfl⟩

/-! ## What holds of every run -/

/-- Every run of the program ends in a value with the property. -/
def Always (t : Talk α) (P : α → Prop) : Prop :=
  ∀ events a, Runs t events a → P a

section
variable {P : α → Prop} {Q : β → Prop}

theorem always_done {a : α} (h : P a) : Always (.done a) P := by
  intro events b run
  obtain ⟨_, rfl⟩ := runs_done_iff.mp run
  exact h

theorem always_note {n : Note} {next : Talk α} (h : Always next P) : Always (.note n next) P := by
  intro events a run
  obtain ⟨rest, _, later⟩ := runs_note_iff.mp run
  exact h rest a later

theorem always_bind {t : Talk α} {f : α → Talk β} (h : Always t fun a => Always (f a) Q) :
    Always (t.bind f) Q := by
  intro events b run
  obtain ⟨first, second, a, _, left, right⟩ := runs_bind_iff.mp run
  exact h first a left second b right

theorem always_sayAll {next : Talk α} (h : Always next P) (notes : List Note) :
    Always ((sayAll notes).bind fun _ => next) P := by
  induction notes with
  | nil => exact h
  | cons n notes ih => exact always_note ih

end

/-- What follows a program matters only at the values that its runs end in. -/
theorem bind_congr {t : Talk α} {f g : α → Talk β} (same : Always t fun a => f a = g a) :
    t.bind f = t.bind g := by
  induction t with
  | done a => exact same [] a (.done a)
  | send request next ih =>
    exact congrArg (Talk.send request) (funext fun o => ih o fun _ a run => same _ a (.send run))
  | ask question next ih =>
    exact congrArg (Talk.ask question) (funext fun o => ih o fun _ a run => same _ a (.ask run))
  | note n next ih => exact congrArg (Talk.note n) (ih fun _ a run => same _ a (.note run))
  | floor level next ih => exact congrArg (Talk.floor level) (ih fun _ a run => same _ a (.floor run))
  | read file next ih =>
    exact congrArg (Talk.read file) (funext fun o => ih o fun _ a run => same _ a (.read run))
  | save directory file text next ih =>
    exact congrArg (Talk.save directory file text)
      (funext fun o => ih o fun _ a run => same _ a (.save run))

/-! ## There are runs -/

/-- A program runs to its end with any server and any disk, whatever is replied to the rest. -/
theorem exists_runs_on (server : Wire → Outcome) (disk : String → Except ReadFault String)
    (t : Talk α) : ∃ events a, Runs t events a ∧ ServedBy server events ∧ OnDisk disk events := by
  induction t with
  | done a => exact ⟨[], a, .done a, by simp [ServedBy], by simp [OnDisk]⟩
  | send request next ih =>
    obtain ⟨events, a, run, served, read⟩ := ih (server request)
    exact ⟨_, a, .send run, by simpa [ServedBy] using served, by simpa [OnDisk] using read⟩
  | ask question next ih =>
    obtain ⟨events, a, run, served, read⟩ := ih none
    exact ⟨_, a, .ask run, served, by simpa [OnDisk] using read⟩
  | note n next ih =>
    obtain ⟨events, a, run, served, read⟩ := ih
    exact ⟨_, a, .note run, served, by simpa [OnDisk] using read⟩
  | floor level next ih =>
    obtain ⟨events, a, run, served, read⟩ := ih
    exact ⟨_, a, .floor run, served, by simpa [OnDisk] using read⟩
  | read file next ih =>
    obtain ⟨events, a, run, served, read⟩ := ih (disk file)
    refine ⟨_, a, .read run, served, ?_⟩
    rintro name content (_ | ⟨_, mem⟩)
    · rfl
    · exact read name content mem
  | save directory file text next ih =>
    obtain ⟨events, a, run, served, read⟩ := ih none
    exact ⟨_, a, .save run, served, by simpa [OnDisk] using read⟩

theorem exists_runs (server : Wire → Outcome) (t : Talk α) :
    ∃ events a, Runs t events a ∧ ServedBy server events := by
  obtain ⟨events, a, run, served, _⟩ := exists_runs_on server (fun _ => .error .missing) t
  exact ⟨events, a, run, served⟩

/-- A host that keeps its surroundings in a state follows one of the runs. -/
theorem runs_of_host {σ : Type} (host : Host (StateM σ)) (t : Talk α) (surroundings : σ) :
    ∃ events, Runs t events ((t.run host : StateM σ α) surroundings).1 := by
  induction t generalizing surroundings with
  | done a => exact ⟨[], .done a⟩
  | send request next ih =>
    obtain ⟨events, run⟩ := ih (host.send request surroundings).1 (host.send request surroundings).2
    exact ⟨_, .send run⟩
  | ask question next ih =>
    obtain ⟨events, run⟩ := ih (host.ask question surroundings).1 (host.ask question surroundings).2
    exact ⟨_, .ask run⟩
  | note n next ih =>
    obtain ⟨events, run⟩ := ih (host.note n surroundings).2
    exact ⟨_, .note run⟩
  | floor level next ih =>
    obtain ⟨events, run⟩ := ih (host.floor level surroundings).2
    exact ⟨_, .floor run⟩
  | read file next ih =>
    obtain ⟨events, run⟩ := ih (host.read file surroundings).1 (host.read file surroundings).2
    exact ⟨_, .read run⟩
  | save directory file text next ih =>
    obtain ⟨events, run⟩ := ih (host.save directory file text surroundings).1
      (host.save directory file text surroundings).2
    exact ⟨_, .save run⟩

end Talk

end Walkthrough
