import Walkthrough.Record
import Mathlib.Data.List.Nodup

/-!
# Ledgers

What storing and erasing do to a ledger, seen through `Ledger.get?` and through the names. The
names of a ledger that is filled by `Ledger.put` alone are distinct, and then a value is stored
under a name exactly when the ledger has an entry of both.
-/

namespace Walkthrough.Ledger

variable {α : Type}

/-! ## Looking up -/

@[simp] theorem get?_nil (name : String) : get? ([] : Ledger α) name = none := rfl

theorem get?_cons (e : String × α) (l : Ledger α) (name : String) :
    get? (e :: l) name = if e.1 = name then some e.2 else get? l name := by
  by_cases h : e.1 = name <;> simp [get?, h]

theorem isSome_get? (l : Ledger α) (name : String) : (l.get? name).isSome = l.has name := by
  induction l with
  | nil => rfl
  | cons e l ih =>
    rw [get?_cons, has, List.any_cons]
    by_cases h : e.1 = name
    · simp [h]
    · rw [if_neg h, ih, has, beq_eq_false_iff_ne.mpr h, Bool.false_or]

theorem has_iff (l : Ledger α) (name : String) : l.has name = true ↔ name ∈ l.names := by
  simp [has, names]

theorem mem_names_of_get? {l : Ledger α} {name : String} {value : α}
    (h : l.get? name = some value) : name ∈ l.names := by
  rw [← has_iff, ← isSome_get?, h]
  rfl

/-- With distinct names, an entry is what is found under its name. -/
theorem get?_eq_some_iff {l : Ledger α} (distinct : l.names.Nodup) (name : String) (value : α) :
    l.get? name = some value ↔ (name, value) ∈ l := by
  induction l with
  | nil => simp
  | cons e l ih =>
    obtain ⟨first, rest⟩ := List.nodup_cons.mp distinct
    rw [get?_cons, List.mem_cons]
    by_cases h : e.1 = name
    · subst h
      have absent : (e.1, value) ∉ l := fun mem => first (List.mem_map.mpr ⟨_, mem, rfl⟩)
      simp only [if_pos, Option.some.injEq, absent, or_false]
      exact ⟨fun same => same ▸ rfl, fun same => congrArg Prod.snd same.symm⟩
    · rw [if_neg h, ih rest]
      exact ⟨Or.inr, fun found => found.resolve_left fun same => h (congrArg Prod.fst same).symm⟩

/-! ## Storing -/

theorem get?_put (l : Ledger α) (name other : String) (value : α) :
    (l.put name value).get? other = if name = other then some value else l.get? other := by
  induction l with
  | nil => rw [put, get?_cons]
  | cons e l ih =>
    by_cases same : e.1 = name
    · simp only [put, same, beq_self_eq_true, if_true, get?_cons]
      by_cases h : name = other <;> simp [h]
    · simp only [put, beq_iff_eq, same, if_false, get?_cons, ih]
      by_cases first : e.1 = other
      · have apart : ¬name = other := fun h => same (first.trans h.symm)
        simp [first, apart]
      · simp [first]

theorem mem_names_put {l : Ledger α} {name other : String} {value : α} :
    other ∈ (l.put name value).names ↔ other = name ∨ other ∈ l.names := by
  rw [← has_iff, ← has_iff, ← isSome_get?, ← isSome_get?, get?_put]
  by_cases h : name = other
  · simp [h]
  · simp [h, Ne.symm h]

theorem put_put (l : Ledger α) (name : String) (first second : α) :
    (l.put name first).put name second = l.put name second := by
  induction l with
  | nil => simp [put]
  | cons e l ih =>
    by_cases same : e.1 = name
    · simp [put, same]
    · simp [put, same, ih]

theorem nodup_names_put {l : Ledger α} (distinct : l.names.Nodup) (name : String) (value : α) :
    (l.put name value).names.Nodup := by
  induction l with
  | nil => simp [put, names]
  | cons e l ih =>
    obtain ⟨first, rest⟩ := List.nodup_cons.mp distinct
    by_cases same : e.1 = name
    · subst same
      simpa [put, names] using distinct
    · simp only [put, beq_iff_eq, same, if_false]
      refine List.nodup_cons.mpr ⟨fun mem => ?_, ih rest⟩
      exact (mem_names_put.mp mem).elim same first

/-! ## Erasing -/

theorem get?_erase (l : Ledger α) (name other : String) :
    (l.erase name).get? other = if name = other then none else l.get? other := by
  induction l with
  | nil => simp [erase]
  | cons e l ih =>
    -- Erasing takes every entry of the name, so the induction goes on behind the first one.
    by_cases same : e.1 = name
    · have skipped : erase (e :: l) name = erase l name := by simp [erase, same]
      rw [skipped, ih, get?_cons]
      by_cases h : name = other <;> simp [h, same]
    · have kept : erase (e :: l) name = e :: erase l name := by simp [erase, same]
      rw [kept, get?_cons, ih, get?_cons]
      by_cases first : e.1 = other
      · have apart : ¬name = other := fun h => same (first.trans h.symm)
        simp [first, apart]
      · simp [first]

theorem get?_foldl_erase (l : Ledger α) (gone : List String) (other : String) :
    (gone.foldl erase l).get? other = if other ∈ gone then none else l.get? other := by
  induction gone generalizing l with
  | nil => simp
  | cons name gone ih =>
    rw [List.foldl_cons, ih, get?_erase]
    by_cases h : other ∈ gone
    · simp [h]
    · by_cases same : name = other
      · simp [same]
      · simp [h, same, Ne.symm same]

theorem foldl_erase_sublist (l : Ledger α) (gone : List String) :
    (gone.foldl erase l).Sublist l := by
  induction gone generalizing l with
  | nil => exact List.Sublist.refl l
  | cons name gone ih => exact (ih (erase l name)).trans List.filter_sublist

end Walkthrough.Ledger
