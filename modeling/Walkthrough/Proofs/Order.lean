import Walkthrough.Flow.Order
import Mathlib.Data.List.Nodup
import Mathlib.Data.List.Perm.Subperm

/-!
# Sorted steps follow their prerequisites

`Order.place` carries a count for every step and a queue. The invariant is that the count of a step
is the number of its prerequisites that are not placed (`pending`), and that the placed and the
queued steps together are the ones whose prerequisites are all placed (`Placing`). Placing the first
step of the queue keeps both, so a result of `Order.sort` holds every step once and behind its
prerequisites.
-/

namespace Walkthrough.Order

variable {order : List String} {links : Links}

/-! ## Counts as a function -/

/-- The counts of the declared steps as a function gives them. -/
def tally (order : List String) (f : String → Int) : Open :=
  order.map fun id => (id, f id)

theorem lookup_tally (f : String → Int) (id : String) :
    (tally order f).lookup id = if id ∈ order then some (f id) else none := by
  induction order with
  | nil => rfl
  | cons first rest ih =>
    rw [tally, List.map_cons, List.lookup_cons]
    by_cases same : id = first
    · simp [same]
    · rw [beq_eq_false_iff_ne.mpr same]
      simpa [same, tally] using ih

theorem tally_congr {f g : String → Int} (h : ∀ id ∈ order, f id = g id) :
    tally order f = tally order g :=
  List.map_congr_left fun id mem => by rw [h id mem]

theorem lower_tally (f : String → Int) (w : String) :
    lower (tally order f) w = tally order fun id => f id - if w = id then 1 else 0 := by
  rw [lower, tally, List.map_map]
  refine List.map_congr_left fun id _ => ?_
  by_cases same : w = id
  · simp [same]
  · simp [same, Ne.symm same]

theorem isFree_tally (f : String → Int) (id : String) :
    isFree (tally order f) id = true ↔ id ∈ order ∧ f id = 0 ∧ id ≠ Record.reserved := by
  rw [isFree, lookup_tally]
  by_cases mem : id ∈ order <;> simp [mem]

theorem release_counts (f : String → Int) (ws : List String) :
    (release (tally order f) ws).1 = tally order fun id => f id - ws.count id := by
  induction ws generalizing f with
  | nil => simp [release]
  | cons w ws ih =>
    simp only [release, lower_tally, ih]
    refine tally_congr fun id _ => ?_
    rw [List.count_cons]
    by_cases same : w = id
    · simp [same]
      omega
    · simp [same]

/-- A step is released at the moment at which its count, lowered at least once, is zero. -/
theorem mem_released (f : String → Int) (ws : List String) (id : String) :
    id ∈ (release (tally order f) ws).2 ↔
      id ∈ order ∧ id ≠ Record.reserved ∧ 1 ≤ f id ∧ f id ≤ ws.count id := by
  induction ws generalizing f with
  | nil => simp [release]; omega
  | cons w ws ih =>
    have split : id ∈ (release (tally order f) (w :: ws)).2 ↔
        (id = w ∧ isFree (lower (tally order f) w) w) ∨
          id ∈ (release (lower (tally order f) w) ws).2 := by
      simp only [release]
      split <;> simp_all
    rw [split, lower_tally, ih, isFree_tally, List.count_cons]
    by_cases same : w = id
    · subst same
      -- Either this lowering brings the count to zero, or a later one does.
      simp only [beq_self_eq_true, if_true, true_and]
      constructor
      · rintro (⟨mem, zero, named⟩ | ⟨mem, named, low, high⟩)
        · exact ⟨mem, named, by omega, by omega⟩
        · exact ⟨mem, named, by omega, by omega⟩
      · rintro ⟨mem, named, low, high⟩
        by_cases one : f w = 1
        · exact Or.inl ⟨mem, by omega, named⟩
        · exact Or.inr ⟨mem, named, by omega, by omega⟩
    · simp [same, Ne.symm same]

theorem nodup_released (f : String → Int) (ws : List String) :
    (release (tally order f) ws).2.Nodup := by
  induction ws generalizing f with
  | nil => simp [release]
  | cons w ws ih =>
    simp only [release, lower_tally]
    split
    next free =>
      refine List.nodup_cons.mpr ⟨fun again => ?_, ih _⟩
      have zero := ((isFree_tally _ _).mp free).2.1
      have positive := ((mem_released _ _ _).mp again).2.2.1
      omega
    next => exact ih _

/-! ## Prerequisites that are not placed -/

/-- The number of prerequisites of a step that are not placed. -/
def pending (links : Links) (placed : List String) (id : String) : Int :=
  ((linksOf links id).filter fun p => !placed.contains p).length

theorem pending_eq_zero_iff {placed : List String} {id : String} :
    pending links placed id = 0 ↔ ∀ p ∈ linksOf links id, p ∈ placed := by
  simp [pending, List.filter_eq_nil_iff]

theorem pending_nonneg (links : Links) (placed : List String) (id : String) :
    0 ≤ pending links placed id :=
  Int.natCast_nonneg _

theorem pending_append (links : Links) {placed : List String} {u : String} (new : u ∉ placed)
    (id : String) :
    pending links (placed ++ [u]) id = pending links placed id - (linksOf links id).count u := by
  unfold pending
  induction linksOf links id with
  | nil => simp
  | cons p ps ih =>
    rw [List.filter_cons, List.filter_cons, List.count_cons]
    by_cases same : p = u
    · subst same
      simp [new] at ih ⊢
      omega
    · by_cases mem : p ∈ placed <;> simp [same, mem] at ih ⊢ <;> omega

theorem count_waiters (distinct : order.Nodup) {id : String} (declared : id ∈ order) (u : String) :
    (waiters order links u).count id = (linksOf links id).count u := by
  unfold waiters
  induction order with
  | nil => cases declared
  | cons first rest ih =>
    obtain ⟨absent, distinct⟩ := List.nodup_cons.mp distinct
    have block (s : String) : List.count id (((linksOf links s).filter (· == u)).map fun _ => s) =
        if s = id then (linksOf links s).count u else 0 := by
      rw [List.map_const', List.count_replicate, List.count_eq_length_filter]
      by_cases same : s = id <;> simp [same]
    rw [List.flatMap_cons, List.count_append, block]
    rcases List.mem_cons.mp declared with rfl | later
    · -- The names are distinct, so the other blocks are about other steps.
      have none : List.count id
          (rest.flatMap fun s => ((linksOf links s).filter (· == u)).map fun _ => s) = 0 := by
        refine List.count_eq_zero.mpr fun mem => ?_
        obtain ⟨s, inRest, mem⟩ := List.mem_flatMap.mp mem
        obtain ⟨_, _, same⟩ := List.mem_map.mp mem
        exact absent (same ▸ inRest)
      rw [none, if_pos rfl, Nat.add_zero]
    · have other : first ≠ id := fun same => absent (same ▸ later)
      rw [if_neg other, ih distinct later, Nat.zero_add]

/-! ## Placing -/

/-- Every step of a list stands behind its prerequisites, some names standing before the list. -/
def Behind (links : Links) : List String → List String → Prop
  | _, [] => True
  | before, id :: rest =>
    (∀ p ∈ linksOf links id, p ∈ before) ∧ Behind links (before ++ [id]) rest

/-- What holds while steps are placed. -/
structure Placing (order : List String) (links : Links) (placed queue : List String) : Prop where
  distinct : (placed ++ queue).Nodup
  ready : ∀ id, id ∈ placed ++ queue ↔
    id ∈ order ∧ id ≠ Record.reserved ∧ ∀ p ∈ linksOf links id, p ∈ placed

theorem Placing.new {placed queue : List String} {u : String}
    (inv : Placing order links placed (u :: queue)) : u ∉ placed := fun mem =>
  (List.nodup_append.mp inv.distinct).2.2 u mem u List.mem_cons_self rfl

/-- Placing the first step of the queue releases the steps that waited for it alone. -/
theorem Placing.step (declared : order.Nodup) {placed queue : List String} {u : String}
    (inv : Placing order links placed (u :: queue)) :
    Placing order links (placed ++ [u]) (queue ++
      (release (tally order (pending links placed)) (waiters order links u)).2) := by
  have new := inv.new
  have released (id : String) :
      id ∈ (release (tally order (pending links placed)) (waiters order links u)).2 ↔
        id ∈ order ∧ id ≠ Record.reserved ∧ ¬(∀ p ∈ linksOf links id, p ∈ placed) ∧
          ∀ p ∈ linksOf links id, p ∈ placed ++ [u] := by
    rw [mem_released, ← pending_eq_zero_iff, ← pending_eq_zero_iff, pending_append links new]
    refine and_congr_right fun mem => and_congr_right fun _ => ?_
    rw [count_waiters declared mem]
    -- The count is lowered to the new number of pending prerequisites, which is not negative.
    have := pending_nonneg links placed id
    have := pending_append links new id ▸ pending_nonneg links (placed ++ [u]) id
    omega
  have same : placed ++ [u] ++ (queue ++
      (release (tally order (pending links placed)) (waiters order links u)).2) =
      (placed ++ u :: queue) ++
        (release (tally order (pending links placed)) (waiters order links u)).2 := by simp
  constructor
  · rw [same, List.nodup_append]
    refine ⟨inv.distinct, nodup_released _ _, fun a old b fresh equal => ?_⟩
    subst equal
    exact ((released a).mp fresh).2.2.1 ((inv.ready a).mp old).2.2
  · intro id
    rw [same, List.mem_append, inv.ready, released]
    -- A step is ready now if it was before or if `u` was the last one that it waited for.
    constructor
    · rintro (⟨mem, named, all⟩ | ⟨mem, named, _, all⟩)
      · exact ⟨mem, named, fun p link => List.mem_append_left _ (all p link)⟩
      · exact ⟨mem, named, all⟩
    · rintro ⟨mem, named, all⟩
      by_cases before : ∀ p ∈ linksOf links id, p ∈ placed
      · exact Or.inl ⟨mem, named, before⟩
      · exact Or.inr ⟨mem, named, before, all⟩

theorem release_pending (declared : order.Nodup) {placed : List String} {u : String}
    (new : u ∉ placed) :
    (release (tally order (pending links placed)) (waiters order links u)).1 =
      tally order (pending links (placed ++ [u])) := by
  rw [release_counts]
  refine tally_congr fun id mem => ?_
  rw [count_waiters declared mem, pending_append links new]

/-- What is placed from a state on stands behind its prerequisites, and each step once. -/
theorem place_spec (declared : order.Nodup) (fuel : Nat) {placed queue : List String}
    (inv : Placing order links placed queue) :
    let out := place order links fuel (tally order (pending links placed)) queue
    Behind links placed out ∧ (placed ++ out).Nodup ∧
      ∀ id ∈ out, id ∈ order ∧ id ≠ Record.reserved := by
  induction fuel generalizing placed queue with
  | zero =>
    have distinct := (List.nodup_append.mp inv.distinct).1
    simp [place, Behind, distinct]
  | succ fuel ih =>
    cases queue with
    | nil =>
      -- The fuel is not used up when there is a cycle: its steps never come into the queue.
      have distinct := (List.nodup_append.mp inv.distinct).1
      simp [place, Behind, distinct]
    | cons u queue =>
      obtain ⟨mem, named, all⟩ := (inv.ready u).mp (List.mem_append_right _ List.mem_cons_self)
      obtain ⟨behind, distinct, known⟩ := ih (inv.step declared)
      rw [← release_pending declared inv.new] at behind distinct known
      rw [List.append_assoc] at distinct
      refine ⟨⟨all, behind⟩, distinct, fun id placedLater => ?_⟩
      rcases List.mem_cons.mp placedLater with rfl | later
      · exact ⟨mem, named⟩
      · exact known id later

theorem demand_eq_pending (declared : order.Nodup) {id : String} (mem : id ∈ order) :
    demand order links id = pending links [] id := by
  have once : (order.filter (· == id)).length = 1 := by
    rw [← List.count_eq_length_filter, List.count_eq_one_of_mem declared mem]
  simp [demand, pending, once]

theorem placing_start (links : Links) (declared : order.Nodup) :
    Placing order links [] (order.filter (isFree (tally order (pending links [])))) := by
  constructor
  · simpa using declared.filter _
  · intro id
    rw [List.nil_append, List.mem_filter, isFree_tally, pending_eq_zero_iff]
    tauto

/-- The counts begin with all prerequisites pending. -/
theorem placed_eq (links : Links) (declared : order.Nodup) :
    placed order links = place order links order.length (tally order (pending links []))
      (order.filter (isFree (tally order (pending links [])))) := by
  have start : (order.map fun id => (id, demand order links id)) =
      tally order (pending links []) :=
    List.map_congr_left fun id mem => by rw [demand_eq_pending declared mem]
  unfold placed
  rw [start]

theorem placed_spec (links : Links) (declared : order.Nodup) :
    Behind links [] (placed order links) ∧ (placed order links).Nodup ∧
      ∀ id ∈ placed order links, id ∈ order ∧ id ≠ Record.reserved := by
  rw [placed_eq links declared]
  simpa using place_spec declared order.length (placing_start links declared)

/-! ## Sorting -/

/-- The steps come out in an order in which each stands behind its prerequisites. -/
theorem sort_ok (declared : order.Nodup) {out : List String} (h : sort order links = .ok out) :
    out.Perm order ∧ Behind links [] out ∧ Record.reserved ∉ order := by
  obtain ⟨behind, distinct, known⟩ := placed_spec links declared
  simp only [sort] at h
  split at h
  next full =>
    cases h
    -- As many steps have been placed as are declared, so all of them have been.
    have sub : placed order links ⊆ order := fun id mem => (known id mem).1
    have perm := (List.subperm_of_subset distinct sub).perm_of_length_le (Nat.le_of_eq full.symm)
    exact ⟨perm, behind, fun mem => (known _ (perm.mem_iff.mpr mem)).2 rfl⟩
  next => cases h

theorem Behind.mem_of_append {before out : List String} (h : Behind links before out)
    {front back : List String} {id : String} (at_id : out = front ++ id :: back) :
    ∀ p ∈ linksOf links id, p ∈ before ++ front := by
  induction out generalizing before front with
  | nil => cases front <;> cases at_id
  | cons first rest ih =>
    cases front with
    | nil =>
      cases at_id
      simpa using h.1
    | cons head front =>
      cases at_id
      simpa using ih h.2 rfl

theorem Behind.idxOf_lt {out : List String} (h : Behind links [] out) {id p : String}
    (mem : id ∈ out) (link : p ∈ linksOf links id) : out.idxOf p < out.idxOf id := by
  obtain ⟨front, back, equal, first⟩ := List.eq_append_cons_of_mem mem
  have inFront : p ∈ front := by simpa using h.mem_of_append equal p link
  rw [equal, List.idxOf_append_of_mem inFront, List.idxOf_append_of_notMem first,
    List.idxOf_cons_self]
  exact List.idxOf_lt_length_of_mem inFront

end Walkthrough.Order
