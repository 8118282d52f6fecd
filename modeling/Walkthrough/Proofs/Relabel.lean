import Walkthrough.Flow.Order
import Walkthrough.Proofs.Ledger
import Walkthrough.Spread
import Mathlib.Data.List.Basic

/-!
# Sorting and spreading under other names

A relabeling gives every name a name of its own and leaves the reserved name alone. Looking up,
sorting and spreading only ever compare names, so each of them commutes with a relabeling. A
renaming of a few names is part of a relabeling that moves all other names out of the way
(`exists_injective_extension`).
-/

namespace Walkthrough

structure Relabels (τ : String → String) : Prop where
  injective : Function.Injective τ
  reserved : τ Record.reserved = Record.reserved

variable {τ : String → String}

/-! ## Relabelings that are given in part -/

/-- A name that is longer than a number of characters. -/
def padded (n : Nat) (name : String) : String :=
  String.ofList (List.replicate n 'x' ++ name.toList)

theorem padded_injective (n : Nat) : Function.Injective (padded n) := by
  intro a b same
  unfold padded at same
  rw [String.ofList_inj] at same
  exact String.toList_inj.mp (List.append_cancel_left same)

theorem le_length_padded (n : Nat) (name : String) : n ≤ (padded n name).toList.length := by
  simp [padded]

theorem exists_longer (names : List String) : ∃ n, ∀ name ∈ names, name.toList.length < n := by
  induction names with
  | nil => exact ⟨0, by simp⟩
  | cons first rest ih =>
    obtain ⟨n, below⟩ := ih
    refine ⟨max n (first.toList.length + 1), fun name mem => ?_⟩
    rcases List.mem_cons.mp mem with rfl | later
    · omega
    · have := below name later
      omega

/-- A renaming that is injective on some names is part of an injective renaming of all names. -/
theorem exists_injective_extension {names : List String} {σ : String → String}
    (injective : ∀ a ∈ names, ∀ b ∈ names, σ a = σ b → a = b) :
    ∃ τ : String → String, Function.Injective τ ∧ ∀ name ∈ names, τ name = σ name := by
  obtain ⟨n, below⟩ := exists_longer (names.map σ)
  -- The other names become longer than all the new ones.
  have apart {a b : String} (mem : a ∈ names) : σ a ≠ padded n b := by
    intro same
    have short := below (σ a) (List.mem_map_of_mem mem)
    have long := le_length_padded n b
    rw [← same] at long
    omega
  refine ⟨fun name => if name ∈ names then σ name else padded n name, fun a b same => ?_, ?_⟩
  · beta_reduce at same
    split at same <;> split at same
    next here there => exact injective a here b there same
    next here _ => exact absurd same (apart here)
    next _ there => exact absurd same.symm (apart there)
    next => exact padded_injective n same
  · intro name mem
    simp [mem]

/-! ## Lists of names -/

theorem Relabels.eq_reserved_iff (relabels : Relabels τ) {name : String} :
    τ name = Record.reserved ↔ name = Record.reserved := by
  constructor
  · intro same
    exact relabels.injective (same.trans relabels.reserved.symm)
  · rintro rfl
    exact relabels.reserved

theorem contains_map (injective : Function.Injective τ) (names : List String) (name : String) :
    (names.map τ).contains (τ name) = names.contains name := by
  rw [Bool.eq_iff_iff, List.contains_iff_mem, List.contains_iff_mem,
    List.mem_map_of_injective injective]

theorem eraseDups_map (injective : Function.Injective τ) (names : List String) :
    (names.map τ).eraseDups = names.eraseDups.map τ := by
  induction size : names.length using Nat.strongRecOn generalizing names with
  | _ n ih =>
    cases names with
    | nil => rfl
    | cons name names =>
      -- What is crossed out behind the first name is crossed out under the new names as well.
      have others : (names.map τ).filter (fun other => !other == τ name) =
          (names.filter fun other => !other == name).map τ := by
        simp only [List.filter_map, Function.comp_def, injective.beq_eq]
      have shorter := List.length_filter_le (fun other => !other == name) names
      rw [List.length_cons] at size
      rw [List.map_cons, List.eraseDups_cons, List.eraseDups_cons, List.map_cons, others,
        ih _ (by omega) _ rfl]

/-! ## Looking up -/

section
variable {α β : Type}

theorem lookup_eq_get? (l : Ledger α) (name : String) : l.lookup name = l.get? name := by
  induction l with
  | nil => rfl
  | cons e l ih =>
    rw [List.lookup_cons, Ledger.get?_cons, ih]
    by_cases same : e.1 = name
    · simp [same]
    · rw [beq_eq_false_iff_ne.mpr (Ne.symm same), if_neg same]

theorem get?_map (injective : Function.Injective τ) (h : α → β) (l : Ledger α) (name : String) :
    Ledger.get? (l.map (Prod.map τ h)) (τ name) = (l.get? name).map h := by
  induction l with
  | nil => rfl
  | cons e l ih =>
    rw [List.map_cons, Ledger.get?_cons, Ledger.get?_cons, ih]
    by_cases same : e.1 = name
    · simp [same]
    · simp [same, injective.ne same]

end

/-! ## Sorting -/

namespace Order

variable {links links' : Links} {order : List String}

theorem linksOf_map (injective : Function.Injective τ) (links : Links) (id : String) :
    linksOf (links.map (Prod.map τ (List.map τ))) (τ id) = (linksOf links id).map τ := by
  unfold linksOf
  rw [lookup_eq_get?, lookup_eq_get?, get?_map injective]
  cases Ledger.get? links id <;> rfl

/-- The links of the second kind lead to the same steps as those of the first, under their new
names. -/
def Follows (τ : String → String) (links links' : Links) : Prop :=
  ∀ id, linksOf links' (τ id) = (linksOf links id).map τ

theorem waiters_map (injective : Function.Injective τ) (follows : Follows τ links links')
    (u : String) :
    waiters (order.map τ) links' (τ u) = (waiters order links u).map τ := by
  unfold waiters
  rw [List.flatMap_map, List.map_flatMap]
  refine List.flatMap_congr fun s _ => ?_
  simp only [follows s, List.filter_map, Function.comp_def, injective.beq_eq, List.map_map]

theorem demand_map (injective : Function.Injective τ) (follows : Follows τ links links')
    (id : String) : demand (order.map τ) links' (τ id) = demand order links id := by
  unfold demand
  simp only [follows id, List.filter_map, Function.comp_def, injective.beq_eq, List.length_map]

/-- The same counts under other names. -/
def Open.relabel (τ : String → String) (counts : Open) : Open :=
  counts.map (Prod.map τ id)

theorem lower_relabel (injective : Function.Injective τ) (counts : Open) (w : String) :
    lower (counts.relabel τ) (τ w) = (lower counts w).relabel τ := by
  unfold lower Open.relabel
  rw [List.map_map, List.map_map]
  refine List.map_congr_left fun e _ => ?_
  by_cases same : e.1 = w
  · simp [same]
  · simp [same, injective.ne same]

theorem isFree_relabel (relabels : Relabels τ) (counts : Open) (w : String) :
    isFree (counts.relabel τ) (τ w) = isFree counts w := by
  unfold isFree Open.relabel
  rw [lookup_eq_get?, lookup_eq_get?, get?_map relabels.injective, Option.map_id, id,
    bne, ← relabels.reserved, relabels.injective.beq_eq, relabels.reserved]
  rfl

theorem release_relabel (relabels : Relabels τ) (counts : Open) (ws : List String) :
    release (counts.relabel τ) (ws.map τ) =
      ((release counts ws).1.relabel τ, (release counts ws).2.map τ) := by
  induction ws generalizing counts with
  | nil => rfl
  | cons w ws ih =>
    simp only [List.map_cons, release, lower_relabel relabels.injective, ih,
      isFree_relabel relabels]
    by_cases free : isFree (lower counts w) w = true <;> simp [free]

theorem place_relabel (relabels : Relabels τ) (follows : Follows τ links links') (fuel : Nat)
    (counts : Open) (queue : List String) :
    place (order.map τ) links' fuel (counts.relabel τ) (queue.map τ) =
      (place order links fuel counts queue).map τ := by
  induction fuel generalizing counts queue with
  | zero => rfl
  | succ fuel ih =>
    cases queue with
    | nil => rfl
    | cons u queue =>
      -- The steps that wait for the first one are released in the same order.
      simp only [List.map_cons, place, waiters_map relabels.injective follows,
        release_relabel relabels, ← List.map_append, ih]

theorem placed_relabel (relabels : Relabels τ) (follows : Follows τ links links') :
    placed (order.map τ) links' = (placed order links).map τ := by
  have counts : ((order.map τ).map fun id => (id, demand (order.map τ) links' id)) =
      Open.relabel τ (order.map fun id => (id, demand order links id)) := by
    unfold Open.relabel
    simp only [List.map_map, Function.comp_def, demand_map relabels.injective follows,
      Prod.map_apply, id]
  unfold placed
  simp only [counts, List.filter_map, Function.comp_def, isFree_relabel relabels,
    List.length_map, place_relabel relabels follows]

/-- Steps that can be put in order come in the same order under other names. -/
theorem sort_relabel (relabels : Relabels τ) (follows : Follows τ links links')
    {out : List String} (h : sort order links = .ok out) :
    sort (order.map τ) links' = .ok (out.map τ) := by
  simp only [sort, placed_relabel relabels follows, List.length_map] at h ⊢
  split at h
  next full =>
    cases h
    rw [if_pos full]
  next => cases h

end Order

/-! ## Spreading -/

section
variable {next next' : String → List String}

theorem freshNames_map (injective : Function.Injective τ)
    (follows : ∀ id, next' (τ id) = (next id).map τ) (front seen : List String) :
    freshNames next' (front.map τ) (seen.map τ) = (freshNames next front seen).map τ := by
  unfold freshNames
  have reached : (front.map τ).flatMap next' = (front.flatMap next).map τ := by
    rw [List.flatMap_map, List.map_flatMap]
    exact List.flatMap_congr fun id _ => follows id
  simp only [reached, eraseDups_map injective, List.filter_map, Function.comp_def,
    contains_map injective]

theorem spread_map (injective : Function.Injective τ)
    (follows : ∀ id, next' (τ id) = (next id).map τ) (rounds : Nat) (front seen : List String) :
    spread next' rounds (front.map τ) (seen.map τ) = (spread next rounds front seen).map τ := by
  induction rounds generalizing front seen with
  | zero => rfl
  | succ rounds ih =>
    simp only [spread, freshNames_map injective follows, List.isEmpty_map]
    split
    next => rfl
    next => rw [← List.map_append, ih]

end

end Walkthrough
