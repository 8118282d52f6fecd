import Mathlib.Data.List.Induction
import Mathlib.Data.List.Range
import Walkthrough.Prompter

/-!
# Every line to its reader

Lines and readers meet in a prompter in whatever order they come. The reader that called first gets
the line that arrived first, the second reader the second line, and so on; a reader for whom there
is no line gets nothing once the input has ended (`Prompter.served_in_turn`). One number carries the
invariant: how many readers have been answered (`Prompter.answered`). The readers from there on
wait, and the lines from the number of reads on are kept.
-/

namespace Walkthrough.Prompter

variable {p : Prompter} {events first second : List Event} {e : Event} {s : String}

/-! ## What has happened -/

/-- The line that an event brings. -/
def Event.line? : Event → Option String
  | .line s => some s
  | _ => none

/-- The lines that have arrived, in order. -/
def linesOf (events : List Event) : List String :=
  events.filterMap Event.line?

/-- How many readers have asked for a line. -/
def readsOf (events : List Event) : Nat :=
  events.count .read

/-- How many readers have an answer: one for each line, and all once the input has ended. -/
def answered (events : List Event) : Nat :=
  if .close ∈ events then readsOf events else min (readsOf events) (linesOf events).length

/-- No line arrives after the end of the input. -/
def EndsLast (events : List Event) : Prop :=
  ∀ before after, events = before ++ .close :: after → linesOf after = []

/-- The reader of an effect and what it gets. -/
def Effect.delivery? : Effect → Option (Nat × Option String)
  | .deliver reader line => some (reader, line)
  | .asked _ => none

/-- What readers have got, in the order in which they got it. -/
def deliveries (effects : List Effect) : List (Nat × Option String) :=
  effects.filterMap Effect.delivery?

/-- The reader of an effect whose question is put. -/
def Effect.question? : Effect → Option Nat
  | .deliver _ _ => none
  | .asked reader => some reader

/-- The readers whose questions have been put, in order. -/
def questions (effects : List Effect) : List Nat :=
  effects.filterMap Effect.question?

@[simp] theorem linesOf_append : linesOf (first ++ second) = linesOf first ++ linesOf second :=
  List.filterMap_append

@[simp] theorem linesOf_line (s : String) : linesOf [.line s] = [s] := rfl

@[simp] theorem linesOf_read : linesOf [.read] = [] := rfl

@[simp] theorem linesOf_close : linesOf [.close] = [] := rfl

@[simp] theorem readsOf_append : readsOf (first ++ second) = readsOf first + readsOf second :=
  List.count_append

@[simp] theorem readsOf_line (s : String) : readsOf [.line s] = 0 := rfl

@[simp] theorem readsOf_read : readsOf [.read] = 1 := rfl

@[simp] theorem readsOf_close : readsOf [.close] = 0 := rfl

@[simp] theorem deliveries_append (first second : List Effect) :
    deliveries (first ++ second) = deliveries first ++ deliveries second :=
  List.filterMap_append

@[simp] theorem questions_append (first second : List Effect) :
    questions (first ++ second) = questions first ++ questions second :=
  List.filterMap_append

theorem answered_of_ended (ended : .close ∈ events) : answered events = readsOf events :=
  if_pos ended

theorem answered_of_open (isOpen : .close ∉ events) :
    answered events = min (readsOf events) (linesOf events).length :=
  if_neg isOpen

theorem EndsLast.of_concat (h : EndsLast (events ++ [e])) : EndsLast events := by
  rintro before after rfl
  have whole := h before (after ++ [e]) (by simp)
  rw [linesOf_append] at whole
  exact (List.append_eq_nil_iff.mp whole).1

theorem EndsLast.not_ended (h : EndsLast (events ++ [.line s])) : .close ∉ events := by
  intro ended
  obtain ⟨before, after, rfl⟩ := List.append_of_mem ended
  have none := h before (after ++ [.line s]) (by simp)
  simp at none

/-! ## One event -/

/-- The prompter after some events, and all their effects in order, with one event more. -/
theorem run_concat (p : Prompter) (events : List Event) (e : Event) : p.run (events ++ [e]) =
    (((p.run events).1.step e).1, (p.run events).2 ++ ((p.run events).1.step e).2) := by
  induction events generalizing p with
  | nil => simp [run]
  | cons first events ih => simp [run, ih]

/-- The readers below a number with the lines of their numbers, as far as there are such lines. -/
def turns (lines : List String) (n : Nat) : List (Nat × Option String) :=
  (List.range n).map fun reader => (reader, lines[reader]?)

theorem turns_succ (lines : List String) (n : Nat) :
    turns lines (n + 1) = turns lines n ++ [(n, lines[n]?)] := by
  simp [turns, List.range_succ]

theorem turns_append {lines : List String} {n : Nat} (within : n ≤ lines.length)
    (more : List String) : turns (lines ++ more) n = turns lines n := by
  refine List.map_congr_left fun reader mem => ?_
  have below : reader < lines.length := (List.mem_range.mp mem).trans_le within
  rw [List.getElem?_append_left below]

theorem turns_beyond {lines : List String} {n : Nat} (beyond : lines.length ≤ n) (m : Nat) :
    turns lines (n + m) = turns lines n ++ (List.range' n m).map fun reader => (reader, none) := by
  induction m with
  | zero => simp
  | succ m ih =>
    have none : lines[n + m]? = none := List.getElem?_eq_none (by omega)
    rw [← Nat.add_assoc, turns_succ, ih, none, List.range'_1_concat, List.map_append,
      List.append_assoc]
    rfl

section
variable {reader : Nat} {readers : List Nat} {lines : List String}

theorem receive_of_waiting (waits : p.waiting = reader :: readers) (s : String) :
    p.receive s = ({ p with waiting := readers }, [.deliver reader (some s)]) := by
  rw [receive, waits]

theorem receive_of_idle (idle : p.waiting = []) (s : String) :
    p.receive s = ({ p with kept := p.kept ++ [s] }, []) := by
  rw [receive, idle]

theorem read_of_kept (held : p.kept = s :: lines) :
    p.read = ({ p with kept := lines, next := p.next + 1 }, [.deliver p.next (some s)]) := by
  rw [read, held]

theorem read_of_ended (held : p.kept = []) (closed : p.ended = true) :
    p.read = ({ p with next := p.next + 1 }, [.deliver p.next none]) := by
  rw [read, held]
  exact if_pos closed

theorem read_of_open (held : p.kept = []) (going : ¬p.ended = true) :
    p.read =
      ({ p with waiting := p.waiting ++ [p.next], next := p.next + 1 }, [.asked p.next]) := by
  rw [read, held]
  exact if_neg going

end

/-- A prompter after some events, with the effects that they had. -/
structure Serving (events : List Event) (p : Prompter) (effects : List Effect) : Prop where
  kept : p.kept = (linesOf events).drop (readsOf events)
  waiting : p.waiting = List.range' (answered events) (readsOf events - answered events)
  ended : p.ended = true ↔ .close ∈ events
  next : p.next = readsOf events
  delivered : deliveries effects = turns (linesOf events) (answered events)

namespace Serving

variable {effects : List Effect}

theorem start : Serving [] {} [] where
  kept := rfl
  waiting := rfl
  ended := by simp
  next := rfl
  delivered := rfl

/-- Every reader has its line already, so the new one is kept. -/
theorem receive_ahead (serving : Serving events p effects) (isOpen : .close ∉ events)
    (served : readsOf events ≤ (linesOf events).length) (s : String) :
    Serving (events ++ [.line s]) (p.receive s).1 (effects ++ (p.receive s).2) := by
  have all : answered events = readsOf events := by
    rw [answered_of_open isOpen, min_eq_left served]
  have still : answered (events ++ [.line s]) = readsOf events := by
    rw [answered_of_open (by simpa using isOpen), readsOf_append, linesOf_append,
      List.length_append, readsOf_line, Nat.add_zero,
      min_eq_left (served.trans (Nat.le_add_right _ _))]
  have idle : p.waiting = [] := by
    rw [serving.waiting, all, Nat.sub_self]
    rfl
  rw [receive_of_idle idle]
  constructor
  case kept => simp [serving.kept, List.drop_append_of_le_length served]
  case waiting => simp [idle, still]
  case ended => simpa using serving.ended
  case next => simpa using serving.next
  case delivered =>
    rw [List.append_nil, serving.delivered, all, still, linesOf_append, turns_append served]

/-- The reader that has waited longest gets the new line. -/
theorem receive_behind (serving : Serving events p effects) (isOpen : .close ∉ events)
    (wanted : (linesOf events).length < readsOf events) (s : String) :
    Serving (events ++ [.line s]) (p.receive s).1 (effects ++ (p.receive s).2) := by
  have some : answered events = (linesOf events).length := by
    rw [answered_of_open isOpen, min_eq_right wanted.le]
  have one : answered (events ++ [.line s]) = (linesOf events).length + 1 := by
    rw [answered_of_open (by simpa using isOpen), readsOf_append, linesOf_append,
      List.length_append, readsOf_line, Nat.add_zero]
    exact min_eq_right wanted
  have waits : p.waiting = (linesOf events).length :: List.range' (answered (events ++ [.line s]))
      (readsOf events - answered (events ++ [.line s])) := by
    have rest : readsOf events - (linesOf events).length =
        readsOf events - ((linesOf events).length + 1) + 1 := by
      omega
    rw [serving.waiting, some, one, rest, List.range'_succ]
  rw [receive_of_waiting waits]
  constructor
  case kept =>
    rw [serving.kept, List.drop_eq_nil_of_le wanted.le, List.drop_eq_nil_of_le]
    rw [linesOf_append, List.length_append, readsOf_append]
    exact wanted
  case waiting => simp
  case ended => simpa using serving.ended
  case next => simpa using serving.next
  case delivered =>
    have own : (linesOf events ++ [s])[(linesOf events).length]? = Option.some s := by simp
    rw [deliveries_append, serving.delivered, some, one, linesOf_append, linesOf_line, turns_succ,
      own, turns_append (Nat.le_refl _)]
    rfl

theorem receive (serving : Serving events p effects) (isOpen : .close ∉ events) (s : String) :
    Serving (events ++ [.line s]) (p.receive s).1 (effects ++ (p.receive s).2) := by
  rcases Nat.lt_or_ge (linesOf events).length (readsOf events) with wanted | served
  · exact serving.receive_behind isOpen wanted s
  · exact serving.receive_ahead isOpen served s

/-- A new reader that is answered at once, whether with a line or with nothing, keeps the turns. -/
theorem read_at_once {kept : List String} {line : Option String}
    (serving : Serving events p effects) (all : answered events = readsOf events)
    (now : answered (events ++ [.read]) = readsOf events + 1)
    (left : kept = (linesOf events).drop (readsOf events + 1))
    (own : (linesOf events)[readsOf events]? = line) :
    Serving (events ++ [.read]) { p with kept, next := p.next + 1 }
      (effects ++ [.deliver p.next line]) := by
  constructor
  case kept => simpa using left
  case waiting => simp [serving.waiting, all, now]
  case ended => simpa using serving.ended
  case next => simp [serving.next]
  case delivered =>
    rw [deliveries_append, serving.delivered, all, now, linesOf_append, linesOf_read,
      List.append_nil, turns_succ, own, serving.next]
    rfl

theorem read_waiting (serving : Serving events p effects) (isOpen : .close ∉ events)
    (none : (linesOf events).length ≤ readsOf events) (held : p.kept = []) :
    Serving (events ++ [.read])
      { p with waiting := p.waiting ++ [p.next], next := p.next + 1 }
      (effects ++ [.asked p.next]) := by
  have before : answered events = (linesOf events).length := by
    rw [answered_of_open isOpen, min_eq_right none]
  have now : answered (events ++ [.read]) = (linesOf events).length := by
    rw [answered_of_open (by simpa using isOpen), readsOf_append, readsOf_read, linesOf_append,
      linesOf_read, List.append_nil, min_eq_right (none.trans (Nat.le_add_right _ _))]
  constructor
  case kept =>
    simp only [held, linesOf_append, linesOf_read, List.append_nil, readsOf_append, readsOf_read]
    exact (List.drop_eq_nil_of_le (none.trans (Nat.le_add_right _ _))).symm
  case waiting =>
    have last : readsOf events = (linesOf events).length +
        (readsOf events - (linesOf events).length) := by
      omega
    have more : readsOf events + 1 - (linesOf events).length =
        readsOf events - (linesOf events).length + 1 := by
      omega
    rw [serving.waiting, before, now, readsOf_append, readsOf_read, more, List.range'_1_concat,
      ← last, serving.next]
  case ended => simpa using serving.ended
  case next => simp [serving.next]
  case delivered =>
    rw [deliveries_append, serving.delivered, before, now, linesOf_append, linesOf_read,
      List.append_nil]
    exact List.append_nil _

theorem read (serving : Serving events p effects) :
    Serving (events ++ [.read]) p.read.1 (effects ++ p.read.2) := by
  have lines : linesOf (events ++ [.read]) = linesOf events := by simp
  have reads : readsOf (events ++ [.read]) = readsOf events + 1 := by simp
  have kept := serving.kept
  cases held : p.kept with
  | cons s rest =>
    -- There is a line for the new reader, and so there was one for every reader before.
    rw [held] at kept
    have own : (linesOf events)[readsOf events]? = some s := by
      rw [← List.head?_drop, ← kept]
      rfl
    obtain ⟨within, _⟩ := List.getElem?_eq_some_iff.mp own
    rw [read_of_kept held]
    refine serving.read_at_once ?_ ?_ ?_ own
    · unfold answered
      split <;> omega
    · unfold answered
      rw [lines, reads]
      split <;> omega
    · rw [← List.drop_drop, ← kept]
      rfl
  | nil =>
    rw [held] at kept
    have none : (linesOf events).length ≤ readsOf events := List.drop_eq_nil_iff.mp kept.symm
    by_cases closed : .close ∈ events
    · rw [read_of_ended held (serving.ended.mpr closed)]
      have now : answered (events ++ [.read]) = readsOf events + 1 :=
        (answered_of_ended (by simpa using closed)).trans reads
      have left : p.kept = (linesOf events).drop (readsOf events + 1) := by
        rw [held, List.drop_eq_nil_of_le (none.trans (Nat.le_add_right _ _))]
      exact serving.read_at_once (answered_of_ended closed) now left (List.getElem?_eq_none none)
    · rw [read_of_open held (mt serving.ended.mp closed)]
      exact serving.read_waiting closed none held

theorem close (serving : Serving events p effects) :
    Serving (events ++ [.close]) p.close.1 (effects ++ p.close.2) := by
  have closed : .close ∈ events ++ [.close] := by simp
  have now : answered (events ++ [.close]) = readsOf events := by
    rw [answered_of_ended closed, readsOf_append, readsOf_close, Nat.add_zero]
  constructor
  case kept => simpa [Prompter.close] using serving.kept
  case waiting => simp [Prompter.close, now]
  case ended => exact iff_of_true rfl closed
  case next => simpa [Prompter.close] using serving.next
  case delivered =>
    have told (readers : List Nat) : deliveries (readers.map fun reader => .deliver reader none) =
        readers.map fun reader => (reader, none) := by
      unfold deliveries
      rw [List.filterMap_map]
      exact congrFun List.filterMap_eq_map _
    rw [deliveries_append, Prompter.close, told, serving.waiting, serving.delivered, now,
      linesOf_append, linesOf_close, List.append_nil]
    by_cases served : answered events = readsOf events
    · simp [served]
    · -- Readers are left over only where the lines are used up.
      have isOpen : .close ∉ events := fun before => served (answered_of_ended before)
      have some : answered events = (linesOf events).length := by
        rw [answered_of_open isOpen] at served ⊢
        omega
      have sum : answered events + (readsOf events - answered events) = readsOf events := by
        rw [answered_of_open isOpen]
        omega
      rw [← turns_beyond some.ge, sum]

end Serving

/-! ## All events -/

theorem Serving.step {effects : List Effect} (serving : Serving events p effects)
    (last : EndsLast (events ++ [e])) :
    Serving (events ++ [e]) (p.step e).1 (effects ++ (p.step e).2) := by
  cases e with
  | line s => exact serving.receive last.not_ended s
  | read => exact serving.read
  | close => exact serving.close

theorem serving_of_run (last : EndsLast events) :
    Serving events (run {} events).1 (run {} events).2 := by
  induction events using List.reverseRecOn with
  | nil => exact .start
  | append_singleton events e ih =>
    rw [run_concat]
    exact (ih last.of_concat).step last

/-! ## Questions -/

/-- A reader asks for a line, finds none, and the input has not ended. -/
def Lacks (events : List Event) (reader : Nat) : Prop :=
  ∃ before after, events = before ++ .read :: after ∧ readsOf before = reader ∧
    (run {} before).1.kept = [] ∧ .close ∉ before

theorem lacks_concat_iff {reader : Nat} : Lacks (events ++ [e]) reader ↔ Lacks events reader ∨
    e = .read ∧ readsOf events = reader ∧ (run {} events).1.kept = [] ∧ .close ∉ events := by
  constructor
  · rintro ⟨before, after, split, lacking⟩
    induction after using List.reverseRecOn with
    | nil =>
      obtain ⟨rfl, same⟩ := List.append_inj' split rfl
      cases same
      exact Or.inr ⟨rfl, lacking⟩
    | append_singleton after last _ =>
      rw [← List.cons_append, ← List.append_assoc] at split
      obtain ⟨rfl, _⟩ := List.append_inj' split rfl
      exact Or.inl ⟨before, after, rfl, lacking⟩
  · rintro (⟨before, after, rfl, lacking⟩ | ⟨rfl, lacking⟩)
    · exact ⟨before, after ++ [e], by simp, lacking⟩
    · exact ⟨events, [], rfl, lacking⟩

theorem questions_step {effects : List Effect} (serving : Serving events p effects) :
    questions (p.step e).2 =
      if e = .read ∧ p.kept = [] ∧ .close ∉ events then [readsOf events] else [] := by
  have ended := serving.ended
  have next := serving.next
  cases e with
  | line s =>
    simp only [Prompter.step, Prompter.receive]
    split <;> simp [questions, Effect.question?]
  | close =>
    simp [Prompter.step, Prompter.close, questions, Effect.question?, List.filterMap_map]
  | read =>
    simp only [Prompter.step, Prompter.read]
    split
    next held => simp [held, questions, Effect.question?]
    next held =>
      split
      next closed =>
        simp [questions, Effect.question?, ended.mp closed]
      next going =>
        simp [held, questions, Effect.question?, mt ended.mpr going, next]

theorem questions_of_run (last : EndsLast events) :
    (∀ reader, reader ∈ questions (run {} events).2 ↔ Lacks events reader) ∧
      (questions (run {} events).2).Pairwise (· < ·) ∧
        ∀ reader ∈ questions (run {} events).2, reader < readsOf events := by
  induction events using List.reverseRecOn with
  | nil => simp [run, questions, Lacks]
  | append_singleton events e ih =>
    obtain ⟨exactly, ascending, below⟩ := ih last.of_concat
    have more := questions_step (e := e) (serving_of_run last.of_concat)
    simp only [run_concat, questions_append, more]
    by_cases asks : e = .read ∧ (run {} events).1.kept = [] ∧ .close ∉ events
    · obtain ⟨rfl, lacking⟩ := asks
      rw [if_pos ⟨rfl, lacking⟩]
      refine ⟨fun reader => ?_, ?_, ?_⟩
      · simp [lacks_concat_iff, exactly, lacking, eq_comm]
      · rw [List.pairwise_append]
        exact ⟨ascending, List.pairwise_singleton _ _, by simpa using below⟩
      · simp only [List.mem_append, List.mem_singleton, readsOf_append, readsOf_read]
        rintro reader (mem | rfl)
        · exact (below reader mem).trans (Nat.lt_succ_self _)
        · exact Nat.lt_succ_self _
    · rw [if_neg asks, List.append_nil]
      refine ⟨fun reader => ?_, ascending, fun reader mem => ?_⟩
      · rw [exactly, lacks_concat_iff]
        refine (or_iff_left ?_).symm
        rintro ⟨isRead, _, lacking⟩
        exact asks ⟨isRead, lacking⟩
      · rw [readsOf_append]
        exact (below reader mem).trans_le (Nat.le_add_right _ _)

/-! ## In turn -/

theorem mem_turns_iff {lines : List String} {n reader : Nat} {line : Option String} :
    (reader, line) ∈ turns lines n ↔ reader < n ∧ line = lines[reader]? := by
  simp only [turns, List.mem_map, List.mem_range, Prod.mk.injEq]
  constructor
  · rintro ⟨_, below, rfl, rfl⟩
    exact ⟨below, rfl⟩
  · rintro ⟨below, rfl⟩
    exact ⟨reader, below, rfl, rfl⟩

theorem filterMap_turns (lines : List String) (n : Nat) :
    (turns lines n).filterMap (·.2) = lines.take n := by
  induction n with
  | zero => rfl
  | succ n ih =>
    rw [turns_succ, List.filterMap_append, ih, List.take_add_one]
    cases lines[n]? <;> rfl

theorem lt_answered_iff {reader : Nat} : reader < answered events ↔
    reader < readsOf events ∧ ((linesOf events)[reader]? ≠ none ∨ .close ∈ events) := by
  have has : (linesOf events)[reader]? ≠ none ↔ reader < (linesOf events).length := by simp
  rw [has]
  by_cases closed : .close ∈ events
  · simp [answered_of_ended closed, closed]
  · rw [answered_of_open closed, Nat.lt_min]
    simp [closed]

/-- Lines and readers are brought together in order, wherever they stand among one another and up to
whatever point they are looked at. The readers that have an answer are those whose line has arrived,
and after the end of the input all of them; each has the line of its own number, or nothing, and got
it after those before it. The lines that were given and those that are kept are the lines that have
arrived. No line is kept while a reader waits. The question of a reader is put once, and only if it
finds no line kept before the end of the input. -/
theorem served_in_turn (last : EndsLast events) :
    (∀ reader line, (reader, line) ∈ deliveries (run {} events).2 ↔
      reader < readsOf events ∧ line = (linesOf events)[reader]? ∧
        (line ≠ none ∨ .close ∈ events)) ∧
    (deliveries (run {} events).2).Pairwise (·.1 < ·.1) ∧
    (deliveries (run {} events).2).filterMap (·.2) ++ (run {} events).1.kept = linesOf events ∧
    ((run {} events).1.kept = [] ∨ (run {} events).1.waiting = []) ∧
    (∀ reader, reader ∈ questions (run {} events).2 ↔ ∃ before after,
      events = before ++ .read :: after ∧ readsOf before = reader ∧
        (run {} before).1.kept = [] ∧ .close ∉ before) ∧
    (questions (run {} events).2).Pairwise (· < ·) := by
  have serving := serving_of_run last
  obtain ⟨exactly, ascending, _⟩ := questions_of_run last
  -- Either all readers have an answer, or all lines are used up.
  have split : answered events = readsOf events ∨
      answered events = (linesOf events).length ∧ (linesOf events).length ≤ readsOf events := by
    unfold answered
    split <;> omega
  refine ⟨fun reader line => ?own, ?turn, ?whole, ?apart, exactly, ascending⟩
  case own =>
    rw [serving.delivered, mem_turns_iff, lt_answered_iff]
    constructor
    · rintro ⟨⟨below, answer⟩, rfl⟩
      exact ⟨below, rfl, answer⟩
    · rintro ⟨below, rfl, answer⟩
      exact ⟨⟨below, answer⟩, rfl⟩
  case turn =>
    rw [serving.delivered, turns, List.pairwise_map]
    exact List.pairwise_lt_range
  case whole =>
    rw [serving.delivered, serving.kept, filterMap_turns]
    rcases split with all | ⟨used, short⟩
    · rw [all, List.take_append_drop]
    · rw [used, List.take_length, List.drop_eq_nil_of_le short, List.append_nil]
  case apart =>
    rcases split with all | ⟨used, short⟩
    · right
      rw [serving.waiting, all, Nat.sub_self]
      rfl
    · left
      rw [serving.kept, List.drop_eq_nil_of_le short]

theorem endsLast_of_close (isOpen : .close ∉ first) (none : linesOf second = []) :
    EndsLast (first ++ .close :: second) := by
  intro before after split
  rcases List.append_eq_append_iff.mp split with ⟨more, rfl, rest⟩ | ⟨more, rfl, rest⟩
  · cases more with
    | nil =>
      cases rest
      exact none
    | cons e more =>
      obtain ⟨_, same⟩ := List.cons.inj rest
      rw [same] at none
      exact (List.append_eq_nil_iff.mp (linesOf_append.symm.trans none)).2
  · cases more with
    | nil =>
      cases rest
      exact none
    | cons e more =>
      cases rest
      exact absurd (by simp) isOpen

/-- An empty line comes to a reader that waits for it, the second line is there before its reader
calls, and the last two readers, of which one waits, get nothing. -/
theorem served_up_to_the_end : ∃ events : List Event, EndsLast events ∧
    linesOf events = ["", "a", "b"] ∧ readsOf events = 5 ∧
      (0, some "") ∈ deliveries (run {} events).2 ∧ (1, some "a") ∈ deliveries (run {} events).2 ∧
        (4, none) ∈ deliveries (run {} events).2 ∧ (run {} events).1.kept = [] ∧
          (deliveries (run {} events).2).Pairwise (·.1 < ·.1) ∧
            questions (run {} events).2 = [0, 2, 3] := by
  let events : List Event := [.read, .line "", .line "a", .read, .read, .read, .line "b"] ++
    .close :: [.read]
  have last : EndsLast events := endsLast_of_close (by decide) rfl
  obtain ⟨own, turn, whole, _⟩ := served_in_turn last
  refine ⟨events, last, rfl, rfl, (own _ _).mpr (by decide), (own _ _).mpr (by decide),
    (own _ _).mpr (by decide), ?_, turn, rfl⟩
  exact List.append_left_eq_self.mp (whole.trans rfl)

end Walkthrough.Prompter
