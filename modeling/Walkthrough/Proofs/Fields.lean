import Walkthrough.Flow.Fields
import Walkthrough.Proofs.Json
import Walkthrough.Proofs.Path

/-!
# Fields by path

A dot path goes through a value part by part: in a mapping to the entry of its own under the part, in
a list to the item at the part as a decimal index (`Value.Reaches`). The fields that a step keeps of a
body are the scalars that its paths reach, and the paths of a mapping's own names reach what a step
without paths keeps (`Step.fields_by_path`).
-/

namespace Walkthrough

namespace Value

variable {v w root : Value} {parts more : List String} {part path : String}

/-! ## Where a path leads -/

/-- One step down from a value. -/
inductive Child : Value → String → Value → Prop
  | entry {entries : Record Value} {name : String} {v : Value} (own : entries.get? name = some v) :
      Child (.mapping entries) name v
  | item {items : List Value} {index : String} {v : Value} (written : index ≠ "")
      (decimal : ∀ c ∈ index.toList, Text.isDigit c = true)
      (listed : items[Number.wholeOf 10 index.toList]? = some v) : Child (.list items) index v

/-- The parts lead from one value down to another. -/
inductive Leads : Value → List String → Value → Prop
  | here (v : Value) : Leads v [] v
  | down {v w x : Value} {part : String} {more : List String} (child : Child v part w)
      (later : Leads w more x) : Leads v (part :: more) x

/-- The path, taken apart at its dots, leads from one value down to another. -/
def Reaches (root : Value) (path : String) (w : Value) : Prop :=
  ∃ parts : List String, parts ≠ [] ∧ (∀ part ∈ parts, '.' ∉ part.toList) ∧
    Text.joinWith "." parts = path ∧ Leads root parts w

theorem child?_eq_some_iff : child? v part = some w ↔ Child v part w := by
  constructor
  · intro found
    unfold child? at found
    split at found
    next => exact .entry found
    next =>
      split at found
      next index =>
        simp only [Bool.and_eq_true, Bool.not_eq_true', List.isEmpty_eq_false_iff, ne_eq,
          String.toList_eq_nil_iff, List.all_eq_true] at index
        exact .item index.1 index.2 found
      next => cases found
    next => cases found
  · rintro (⟨own⟩ | ⟨written, decimal, listed⟩)
    · exact own
    · have digits : (!part.toList.isEmpty && part.toList.all Text.isDigit) = true := by
        simpa [written] using decimal
      simp only [child?, digits, if_true, listed]

theorem follow_append (v : Option Value) (parts more : List String) :
    follow v (parts ++ more) = follow (follow v parts) more :=
  List.foldl_append

theorem follow_none (parts : List String) : follow none parts = none := by
  induction parts with
  | nil => rfl
  | cons part parts ih => exact ih

theorem follow_eq_some_iff : follow (some root) parts = some w ↔ Leads root parts w := by
  induction parts generalizing root with
  | nil =>
    constructor
    · rintro ⟨⟩
      exact .here _
    · rintro ⟨⟩
      rfl
  | cons part more ih =>
    have first : follow (some root) (part :: more) = follow (child? root part) more := rfl
    rw [first]
    cases found : child? root part with
    | none =>
      rw [follow_none]
      constructor
      · intro h
        cases h
      · rintro (_ | ⟨child, _⟩)
        rw [child?_eq_some_iff.mpr child] at found
        cases found
    | some next =>
      rw [ih]
      constructor
      · exact .down (child?_eq_some_iff.mp found)
      · rintro (_ | ⟨child, later⟩)
        rw [child?_eq_some_iff.mpr child] at found
        cases found
        exact later

theorem at?_eq_some_iff {v : Option Value} :
    at? v path = some w ↔ ∃ root, v = some root ∧ root.Reaches path w := by
  have dot : ".".toList = ['.'] := by decide
  cases v with
  | none => simp [at?, follow_none]
  | some root =>
    simp only [Option.some.injEq, exists_eq_left', at?, follow_eq_some_iff, Reaches]
    constructor
    · intro leads
      obtain ⟨some, whole, spelled⟩ := (Text.parts_eq_iff dot).mp (Eq.refl (Text.parts '.' path))
      exact ⟨_, some, whole, spelled, leads⟩
    · rintro ⟨parts, some, whole, spelled, leads⟩
      rwa [(Text.parts_eq_iff dot).mpr ⟨some, whole, spelled⟩]

/-- A path goes on where the path before its dot has led. -/
theorem at?_dot (v : Option Value) (path more : String) :
    at? v (path ++ "." ++ more) = at? (at? v path) more := by
  have spelled : (path ++ "." ++ more).toList = path.toList ++ '.' :: more.toList := by simp
  rw [at?, Text.parts_of_spelled spelled, follow_append]
  rfl

theorem at?_name {entries : Record Value} {name : String} (plain : '.' ∉ name.toList) :
    at? (some (.mapping entries)) name = entries.get? name := by
  rw [at?, Text.parts_of_not_mem plain]
  rfl

theorem scalar?_eq_some_iff {x : Scalar} : v.scalar? = some x ↔ v = x.toValue := by
  cases v <;> cases x <;> simp [scalar?, Scalar.toValue]

end Value

namespace Step

variable {found : String → Option Scalar} {fields : Fields} {names : List String} {name : String}
  {x : Scalar} {s : Step} {body : Option Value} {entries : Record Value}

/-! ## What is kept -/

/-- The fields so far with one more, if there is a scalar for it. -/
def keep (fields : Fields) (name : String) (found : Option Scalar) : Fields :=
  match found with
  | some x => fields.assign name x
  | none => fields

/-- The scalars found under the names, one after the other. -/
def gather (found : String → Option Scalar) (fields : Fields) (names : List String) : Fields :=
  names.foldl (fun fields name => keep fields name (found name)) fields

theorem get?_keep (fields : Fields) (name other : String) (x : Option Scalar) :
    (keep fields name x).get? other =
      if name = other ∧ name ≠ Record.reserved then x.or (fields.get? other)
      else fields.get? other := by
  cases x with
  | none => simp [keep]
  | some x =>
    by_cases reserved : name = Record.reserved
    · simp [keep, Record.assign, reserved]
    · simp [keep, Record.assign, reserved, Record.get?_put]

theorem nodup_names_keep (distinct : fields.names.Nodup) (name : String) (x : Option Scalar) :
    (keep fields name x).names.Nodup := by
  unfold keep Record.assign
  split
  · split
    · exact distinct
    · exact Record.nodup_names_put distinct _ _
  · exact distinct

theorem nodup_names_gather (distinct : fields.names.Nodup) :
    (gather found fields names).names.Nodup := by
  induction names generalizing fields with
  | nil => exact distinct
  | cons first names ih => exact ih (nodup_names_keep distinct first _)

/-- A name is found when it is among the names, wherever it stands there and however often. -/
theorem get?_gather : (gather found fields names).get? name =
    if name ∈ names ∧ name ≠ Record.reserved then (found name).or (fields.get? name)
    else fields.get? name := by
  -- The fields so far are general: what is found for a name that comes again is there already.
  induction names generalizing fields with
  | nil => simp [gather]
  | cons first names ih =>
    have step : gather found fields (first :: names) =
        gather found (keep fields first (found first)) names := rfl
    rw [step, ih, get?_keep]
    by_cases same : first = name
    · subst same
      by_cases reserved : first = Record.reserved
      · simp [reserved]
      · by_cases again : first ∈ names
        · simp [reserved, again, Option.or_assoc.symm]
        · simp [reserved, again]
    · simp [same, Ne.symm same]

/-- The scalar at a path of a body. -/
def scalarAt (body : Option Value) (path : String) : Option Scalar :=
  (Value.at? body path).bind Value.scalar?

theorem scalarAt_eq_some_iff : scalarAt body name = some x ↔
    ∃ root, body = some root ∧ root.Reaches name x.toValue := by
  simp only [scalarAt, Option.bind_eq_some_iff, Value.scalar?_eq_some_iff, exists_eq_right,
    Value.at?_eq_some_iff]

theorem fieldsOf_of_declared (declared : s.extract ≠ []) :
    s.fieldsOf body = gather (scalarAt body) [] s.extract := by
  simp only [fieldsOf, fieldsAt, List.isEmpty_iff, declared, if_false]
  rfl

/-- A step without paths keeps what it would keep with the names of the mapping as its paths. -/
theorem fieldsOf_of_undeclared (undeclared : s.extract = [])
    (proper : (Value.mapping entries).Proper) (plain : ∀ n ∈ entries.names, '.' ∉ n.toList) :
    s.fieldsOf (some (.mapping entries)) =
      gather (scalarAt (some (.mapping entries))) [] entries.names := by
  have entry (fields : Fields) (e : String × Value) (mem : e ∈ entries) :
      addEntry fields e = keep fields e.1 (scalarAt (some (.mapping entries)) e.1) := by
    have own : entries.get? e.1 = some e.2 :=
      (Record.get?_eq_some_iff proper.distinct).mpr mem
    have unparted : '.' ∉ e.1.toList := plain e.1 (List.mem_map.mpr ⟨e, mem, rfl⟩)
    rw [scalarAt, Value.at?_name unparted, own]
    rfl
  have whole : s.fieldsOf (some (.mapping entries)) = entries.foldl addEntry [] := by
    rw [fieldsOf, undeclared]
    rfl
  rw [whole, gather, Record.names, List.foldl_map]
  exact List.foldl_ext _ _ _ entry

/-- The names of a mapping as paths, all of them, in any order. -/
theorem fieldsOf_of_listed (listed : ∀ n, n ∈ s.extract ↔ n ∈ entries.names)
    (proper : (Value.mapping entries).Proper) (plain : ∀ n ∈ entries.names, '.' ∉ n.toList) :
    s.fieldsOf (some (.mapping entries)) =
      gather (scalarAt (some (.mapping entries))) [] s.extract := by
  -- No declared path means the other way to keep fields, and then the mapping has no names.
  by_cases declared : s.extract = []
  · have none : entries.names = [] := by
      rw [List.eq_nil_iff_forall_not_mem]
      intro n mem
      rw [← listed, declared] at mem
      cases mem
    rw [fieldsOf_of_undeclared declared proper plain, declared, none]
  · exact fieldsOf_of_declared declared

/-! ## The two ways to keep fields -/

/-- Paths can be followed one after the other. With declared paths the fields are the scalars that
these paths reach, each under its path; and where no name of a mapping has a dot in it, its names
declared in any order make the same fields as none declared. -/
theorem fields_by_path :
    (∀ (body : Option Value) (path more : String),
      Value.at? body (path ++ "." ++ more) = Value.at? (Value.at? body path) more) ∧
    (∀ (s : Step) (body : Option Value), s.extract ≠ [] → (s.fieldsOf body).names.Nodup ∧
      ∀ path x, (s.fieldsOf body).get? path = some x ↔ path ∈ s.extract ∧ path ≠ "__proto__" ∧
        ∃ root, body = some root ∧ root.Reaches path x.toValue) ∧
    ∀ entries : Record Value, (Value.mapping entries).Proper →
      (∀ name ∈ entries.names, '.' ∉ name.toList) → ∀ s t : Step, t.extract = [] →
        (s.extract = entries.names →
          s.fieldsOf (some (.mapping entries)) = t.fieldsOf (some (.mapping entries))) ∧
        ((∀ name, name ∈ s.extract ↔ name ∈ entries.names) → ∀ name,
          (s.fieldsOf (some (.mapping entries))).get? name =
            (t.fieldsOf (some (.mapping entries))).get? name) := by
  refine ⟨Value.at?_dot, fun s body declared => ⟨?_, fun path x => ?_⟩, ?_⟩
  · rw [fieldsOf_of_declared declared]
    exact nodup_names_gather List.nodup_nil
  · rw [fieldsOf_of_declared declared, get?_gather, ← scalarAt_eq_some_iff]
    by_cases listed : path ∈ s.extract ∧ path ≠ Record.reserved
    · simp [listed, Record.reserved, show path ≠ "__proto__" from listed.2, Record.get?]
    · rw [if_neg listed]
      exact iff_of_false (by simp [Record.get?]) fun kept => listed ⟨kept.1, kept.2.1⟩
  · intro entries proper plain s t undeclared
    rw [fieldsOf_of_undeclared undeclared proper plain]
    constructor
    · intro same
      rw [fieldsOf_of_listed (by simp [same]) proper plain, same]
    · intro listed name
      rw [fieldsOf_of_listed listed proper plain, get?_gather, get?_gather]
      simp only [listed]

/-- A name that is empty, an index with a zero in front, one beyond the list, a mapping, and a name
that is not kept. -/
theorem fields_of_nested_body : ∃ (s t u : Step) (entries : Record Value) (body : Option Value),
    body = some (.mapping entries) ∧ (Value.mapping entries).Proper ∧
      (∀ name ∈ entries.names, '.' ∉ name.toList) ∧ u.extract = [] ∧ t.extract = entries.names ∧
        s.extract = ["tags.01", "tags.2", "user.", "user", "__proto__"] ∧
          (s.fieldsOf body).get? "tags.01" = some (.text "b") ∧
            (s.fieldsOf body).get? "user." = some (.bool true) ∧
              Value.at? body ("user" ++ "." ++ "name") = Value.at? (Value.at? body "user") "name" ∧
                t.fieldsOf body = u.fieldsOf body := by
  let tags : Value := .list [.text "a", .text "b"]
  let user : Record Value := [("", .bool true), ("name", .text "ann")]
  let entries : Record Value :=
    [("7", .number (.ofInt 7)), ("tags", tags), ("user", .mapping user), ("__proto__", .text "x")]
  let step (paths : List String) : Step := ⟨"list", "list", "", paths, [], [], none, []⟩
  have proper : (Value.mapping entries).Proper := by
    have userProper : (Value.mapping user).Proper :=
      .mapping (by decide) (by simpa [user] using ⟨.bool true, .text "ann"⟩)
    have tagsProper : tags.Proper := .list (by simpa using ⟨.text "a", .text "b"⟩)
    exact .mapping (by decide)
      (by simpa [entries] using ⟨.number _, tagsProper, userProper, .text "x"⟩)
  have plain : ∀ name ∈ Record.names entries, '.' ∉ name.toList := by decide
  obtain ⟨onwards, declared, listed⟩ := fields_by_path
  let s := step ["tags.01", "tags.2", "user.", "user", "__proto__"]
  have kept := (declared s (some (.mapping entries)) (by decide)).2
  refine ⟨s, step (Record.names entries), step [], entries, _, rfl, proper, plain, rfl, rfl, rfl,
    (kept _ _).mpr ⟨by decide, by decide, _, rfl, ["tags", "01"], by decide, by decide, by decide, ?_⟩,
    (kept _ _).mpr ⟨by decide, by decide, _, rfl, ["user", ""], by decide, by decide, by decide, ?_⟩,
    onwards _ _ _, (listed entries proper plain _ _ rfl).1 rfl⟩
  · exact .down (.entry rfl) (.down (.item (by decide) (List.all_eq_true.mp (by decide)) rfl) (.here _))
  · exact .down (.entry rfl) (.down (.entry rfl) (.here _))

end Step

end Walkthrough
