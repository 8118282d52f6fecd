import Walkthrough.Proofs.Ledger

/-!
# Records

Where `Record.put` puts an entry depends on the names; which names a record has does not. These are
the names that have been stored.
-/

namespace Walkthrough.Record

variable {α : Type} {r : Record α} {name x : String} {value : α}

theorem names_replace (r : Record α) (name : String) (value : α) :
    (r.replace name value).names = r.names := by
  unfold replace names
  rw [List.map_map]
  refine List.map_congr_left fun e _ => ?_
  by_cases same : e.1 = name
  · simp [same]
  · simp [same]

theorem names_insert_perm (r : Record α) (name : String) (value : α) :
    (r.insert name value).names.Perm (name :: r.names) := by
  induction r with
  | nil => exact List.Perm.refl _
  | cons e r ih =>
    unfold insert
    split
    · exact List.Perm.refl _
    · exact (ih.cons e.1).trans (List.Perm.swap name e.1 _)

theorem has_iff (r : Record α) (name : String) : r.has name = true ↔ name ∈ r.names :=
  Ledger.has_iff r name

theorem mem_names_put : x ∈ (r.put name value).names ↔ x = name ∨ x ∈ r.names := by
  unfold put
  split
  next old =>
    rw [names_replace]
    constructor
    · exact Or.inr
    · rintro (rfl | mem)
      · exact (has_iff r x).mp old
      · exact mem
  next =>
    rw [(names_insert_perm r name value).mem_iff, List.mem_cons]

theorem mem_names_foldl_put {entries : List (String × α)} :
    x ∈ names (entries.foldl (fun r e => r.put e.1 e.2) r) ↔ x ∈ r.names ∨ x ∈ entries.map (·.1) := by
  induction entries generalizing r with
  | nil => simp
  | cons e entries ih =>
    rw [List.foldl_cons, ih, mem_names_put, List.map_cons, List.mem_cons, or_comm (a := x = e.1),
      or_assoc]

theorem mem_names_ofList {entries : List (String × α)} :
    x ∈ (ofList entries).names ↔ x ∈ entries.map (·.1) := by
  unfold ofList
  rw [mem_names_foldl_put]
  simp [names]

/-! ## Looking up -/

theorem get?_cons (e : String × α) (r : Record α) (name : String) :
    get? (e :: r) name = if e.1 = name then some e.2 else get? r name :=
  Ledger.get?_cons e r name

theorem get?_eq_some_iff (distinct : r.names.Nodup) :
    r.get? name = some value ↔ (name, value) ∈ r :=
  Ledger.get?_eq_some_iff distinct name value

theorem get?_replace (r : Record α) (name other : String) (value : α) :
    (r.replace name value).get? other =
      if name = other then (r.get? other).map fun _ => value else r.get? other := by
  induction r with
  | nil => simp [replace, get?]
  | cons e r ih =>
    have step : replace (e :: r) name value =
        (if e.1 == name then (name, value) else e) :: replace r name value := rfl
    rw [step, get?_cons, ih, get?_cons]
    by_cases here : e.1 = name
    · by_cases same : name = other <;> simp [here, same]
    · by_cases same : name = other
      · simp [same, show e.1 ≠ other from same ▸ here]
      · simp [here, same]

theorem get?_insert (new : name ∉ r.names) (other : String) (value : α) :
    (r.insert name value).get? other = if name = other then some value else r.get? other := by
  induction r with
  | nil => exact get?_cons _ _ _
  | cons e r ih =>
    obtain ⟨apart, later⟩ : name ≠ e.1 ∧ name ∉ names r := by simpa [names] using new
    unfold insert
    split
    · exact get?_cons _ _ _
    · rw [get?_cons, ih later, get?_cons]
      by_cases here : e.1 = other
      · simp [here, show name ≠ other from here ▸ apart]
      · simp [here]

theorem get?_put (r : Record α) (name other : String) (value : α) :
    (r.put name value).get? other = if name = other then some value else r.get? other := by
  unfold put
  split
  next old =>
    rw [get?_replace]
    split
    next same =>
      subst same
      obtain ⟨before, held⟩ := Option.isSome_iff_exists.mp ((Ledger.isSome_get? r name).trans old)
      have found : r.get? name = some before := held
      rw [found, Option.map_some]
    next => rfl
  next new =>
    rw [has_iff] at new
    exact get?_insert new other value

theorem nodup_names_put (distinct : r.names.Nodup) (name : String) (value : α) :
    (r.put name value).names.Nodup := by
  unfold put
  split
  · rwa [names_replace]
  next new =>
    rw [has_iff] at new
    exact (names_insert_perm r name value).nodup_iff.mpr (List.nodup_cons.mpr ⟨new, distinct⟩)

theorem eq_or_mem_of_mem_put {e : String × α} (mem : e ∈ r.put name value) :
    e = (name, value) ∨ e ∈ r := by
  unfold put at mem
  split at mem
  · obtain ⟨old, within, rfl⟩ := List.mem_map.mp mem
    split
    · exact Or.inl rfl
    · exact Or.inr within
  · clear * - mem
    induction r with
    | nil => exact Or.inl (List.mem_singleton.mp mem)
    | cons first r ih =>
      unfold insert at mem
      split at mem
      · exact List.mem_cons.mp mem
      · rcases List.mem_cons.mp mem with rfl | later
        · exact Or.inr List.mem_cons_self
        · exact (ih later).imp_right (List.mem_cons_of_mem first)

end Walkthrough.Record
