import Walkthrough.Json.Reader
import Walkthrough.Proofs.Record
import Walkthrough.Text.Blank

/-!
# JSON data

A text can repeat a name in an object; the value that is read from it does not. Each mapping in it
holds each name once, and nothing in it holds itself (`Json.proper_of_read?`).
-/

namespace Walkthrough

/-- JSON data: each mapping in it holds each name once, and nothing holds itself. -/
inductive Value.Proper : Value → Prop
  | null : Proper .null
  | bool (b : Bool) : Proper (.bool b)
  | number (n : Number) : Proper (.number n)
  | text (s : String) : Proper (.text s)
  | list {items : List Value} (each : ∀ v ∈ items, Proper v) : Proper (.list items)
  | mapping {entries : List (String × Value)} (distinct : (Record.names entries).Nodup)
      (each : ∀ e ∈ entries, Proper e.2) : Proper (.mapping entries)

namespace Value.Proper

variable {entries : Record Value} {v : Value}

theorem distinct (proper : Proper (.mapping entries)) : entries.names.Nodup := by
  cases proper with
  | mapping distinct _ => exact distinct

theorem empty : Proper (.mapping []) :=
  .mapping List.nodup_nil fun _ mem => nomatch mem

theorem put (before : Proper (.mapping entries)) (name : String) (proper : v.Proper) :
    Proper (.mapping (entries.put name v)) := by
  cases before with
  | mapping distinct each =>
    refine .mapping (Record.nodup_names_put distinct name v) fun e mem => ?_
    rcases Record.eq_or_mem_of_mem_put mem with rfl | old
    · exact proper
    · exact each e old

end Value.Proper

namespace Json

open Value (Proper)

variable {depth : Nat} {acc : List Value} {entries : Record Value} {cs rest : List Char} {v : Value}

/-- What is read with so many calls inside of one another is JSON data. -/
structure ReadsProper (depth : Nat) : Prop where
  value {cs rest : List Char} {v : Value} (read : value? depth cs = some (v, rest)) : v.Proper
  items {acc : List Value} {cs rest : List Char} {v : Value} (before : ∀ x ∈ acc, Proper x)
    (read : items? depth acc cs = some (v, rest)) : v.Proper
  members {entries : Record Value} {cs rest : List Char} {v : Value}
    (before : Proper (.mapping entries)) (read : members? depth entries cs = some (v, rest)) :
    v.Proper

theorem ReadsProper.value_succ (deeper : ReadsProper depth)
    (read : value? (depth + 1) cs = some (v, rest)) : v.Proper := by
  unfold value? at read
  split at read
  next =>
    split at read
    · cases read
      exact .empty
    · exact deeper.members .empty read
  next =>
    split at read
    · cases read
      exact .list (by simp)
    · exact deeper.items (by simp) read
  next =>
    obtain ⟨_, _, same⟩ := Option.map_eq_some_iff.mp read
    cases same
    exact .text _
  next =>
    obtain ⟨_, _, same⟩ := Option.map_eq_some_iff.mp read
    cases same
    exact .bool true
  next =>
    obtain ⟨_, _, same⟩ := Option.map_eq_some_iff.mp read
    cases same
    exact .bool false
  next =>
    obtain ⟨_, _, same⟩ := Option.map_eq_some_iff.mp read
    cases same
    exact .null
  next =>
    obtain ⟨_, _, same⟩ := Option.map_eq_some_iff.mp read
    cases same
    exact .number _

theorem ReadsProper.items_succ (deeper : ReadsProper depth) (before : ∀ x ∈ acc, Proper x)
    (read : items? (depth + 1) acc cs = some (v, rest)) : v.Proper := by
  unfold items? at read
  split at read
  next => cases read
  next item behind first =>
    have more : ∀ x ∈ item :: acc, Proper x :=
      List.forall_mem_cons.mpr ⟨deeper.value first, before⟩
    split at read
    · exact deeper.items more read
    · cases read
      exact .list fun x mem => more x (List.mem_reverse.mp mem)
    · cases read

theorem ReadsProper.members_succ (deeper : ReadsProper depth) (before : Proper (.mapping entries))
    (read : members? (depth + 1) entries cs = some (v, rest)) : v.Proper := by
  unfold members? at read
  split at read
  next =>
    split at read
    next => cases read
    next name behind _ =>
      split at read
      next =>
        split at read
        next => cases read
        next item _ first =>
          have more := before.put name (deeper.value first)
          split at read
          · exact deeper.members more read
          · cases read
            exact more
          · cases read
      next => cases read
  next => cases read

theorem readsProper (depth : Nat) : ReadsProper depth := by
  induction depth with
  | zero =>
    refine ⟨fun read => ?_, fun _ read => ?_, fun _ read => ?_⟩
    · cases read
    · cases read
    · cases read
  | succ depth deeper => exact ⟨deeper.value_succ, deeper.items_succ, deeper.members_succ⟩

theorem proper_of_read? {s : String} (read : read? s = some v) : v.Proper := by
  unfold read? at read
  dsimp only at read
  split at read
  next found =>
    split at read
    · cases read
      exact (readsProper _).value found
    · cases read
  next => cases read

/-! ## Objects -/

theorem items?_eq_list (read : items? depth acc cs = some (v, rest)) : ∃ items, v = .list items := by
  induction depth generalizing acc cs with
  | zero => cases read
  | succ depth ih =>
    unfold items? at read
    split at read
    · cases read
    · split at read
      · exact ih read
      · cases read
        exact ⟨_, rfl⟩
      · cases read

theorem brace_of_value? (read : value? depth cs = some (.mapping entries, rest)) : '{' ∈ cs := by
  cases depth with
  | zero => cases read
  | succ depth =>
    unfold value? at read
    split at read
    next behind front =>
      -- The only case in which a mapping is read.
      have within : '{' ∈ skipSpace cs := front ▸ List.mem_cons_self
      exact (List.dropWhile_suffix isSpace).subset within
    next =>
      split at read
      · cases read
      · obtain ⟨_, same⟩ := items?_eq_list read
        cases same
    all_goals
      obtain ⟨_, _, same⟩ := Option.map_eq_some_iff.mp read
      cases same

/-- A text that writes an object is not blank. -/
theorem visible_of_read? {s : String} (read : read? s = some (.mapping entries)) :
    Text.allBlank s = false := by
  unfold read? at read
  dsimp only at read
  split at read
  next found =>
    split at read
    · cases read
      rw [Text.allBlank, List.all_eq_false]
      exact ⟨'{', brace_of_value? found, by decide⟩
    · cases read
  next => cases read

end Json

end Walkthrough
