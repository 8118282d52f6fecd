import Walkthrough.Proofs.Arrange
import Mathlib.Data.List.Chain

/-!
# Reported cycles

Every step that is left over waits for another one that is left over, so a walk from step to
prerequisite never ends for want of a next step; it ends because it comes back. What it has gone
through since it was at that step first is a cycle (`Order.Circle`), and the walk is over before
more steps have been met with than are left (`Order.Trail.circle_of_walk`). So steps that cannot be
put in order are always refused with a cycle that is there (`Order.circle_of_unarranged`).
-/

namespace Walkthrough.Order

variable {order : List String} {links : Links} {left path : List String} {node : String}

/-- The steps run in a circle in the direction of execution: each is a prerequisite of the next, the
last is the first again, and no other comes twice. -/
structure Circle (links : Links) (ids : List String) : Prop where
  proper : 2 ≤ ids.length
  closed : ids.getLast? = ids.head?
  distinct : ids.dropLast.Nodup
  linked : ids.IsChain fun a b => a ∈ linksOf links b

/-! ## The way of a walk -/

/-- A walk has come by the path, the last step first, and goes on to the node. -/
structure Trail (left : List String) (links : Links) (path : List String) (node : String) :
    Prop where
  distinct : path.Nodup
  within : path ⊆ left
  here : node ∈ left
  linked : (node :: path).IsChain fun a b => a ∈ linksOf links b

theorem trail_start (mem : node ∈ left) : Trail left links [] node where
  distinct := List.nodup_nil
  within := List.nil_subset left
  here := mem
  linked := List.isChain_singleton node

theorem Trail.step (h : Trail left links path node) (new : node ∉ path) {next : String}
    (link : next ∈ linksOf links node) (mem : next ∈ left) :
    Trail left links (node :: path) next where
  distinct := List.nodup_cons.mpr ⟨new, h.distinct⟩
  within := List.cons_subset.mpr ⟨h.here, h.within⟩
  here := mem
  linked := List.isChain_cons_cons.mpr ⟨link, h.linked⟩

theorem Trail.length_le (h : Trail left links path node) : path.length ≤ left.length :=
  (h.distinct.subperm h.within).length_le

theorem circle_of_loop {last : String} {more : List String}
    (linked : (last :: more).IsChain fun a b => a ∈ linksOf links b)
    (distinct : (last :: more).Nodup)
    (closing : ∀ x ∈ (last :: more).getLast?, x ∈ linksOf links last) :
    Circle links (last :: more ++ [last]) where
  proper := by simp
  closed := by rw [List.getLast?_concat]; rfl
  distinct := by rwa [List.dropLast_concat]
  linked := by
    rw [List.isChain_append]
    exact ⟨linked, List.isChain_singleton last, by simpa using closing⟩

/-- A trail that comes back to one of its steps is closed by the way from there on. -/
theorem Trail.circle (h : Trail left links path node) (again : node ∈ path) :
    Circle links (path.takeWhile (· != node) ++ [node] ++
      (path.takeWhile (· != node) ++ [node]).take 1) := by
  obtain ⟨front, back, same, first⟩ := List.eq_append_cons_of_mem again
  have others : ∀ x ∈ front, (x != node) = true := fun x mem => by
    simpa using ne_of_mem_of_not_mem mem first
  have taken : path.takeWhile (· != node) = front := by
    simp [same, List.takeWhile_append_of_pos others]
  have loop : front ++ [node] <+: path := ⟨back, by simp [same]⟩
  have ends : (front ++ [node]).getLast? = some node := by simp
  rw [taken]
  -- The last step of the way is the one before the step that it comes back to.
  cases way : front ++ [node] with
  | nil => simp at way
  | cons last more =>
    rw [way] at loop ends
    obtain ⟨rest, starts⟩ := loop
    have linked := h.linked
    rw [← starts, List.cons_append, List.isChain_cons_cons] at linked
    refine circle_of_loop linked.2.left_of_append ?_ ?_
    · exact h.distinct.sublist (starts ▸ List.sublist_append_left _ _)
    · simpa [ends] using linked.1

/-! ## Walks -/

theorem walk_again {fuel : Nat} (again : node ∈ path) :
    walk left links (fuel + 1) path node = some (path.takeWhile (· != node) ++ [node] ++
      (path.takeWhile (· != node) ++ [node]).take 1) := by
  simp [walk, again]

theorem walk_on {fuel : Nat} (new : node ∉ path) {next : String}
    (found : (linksOf links node).find? (left.contains ·) = some next) :
    walk left links (fuel + 1) path node = walk left links fuel (node :: path) next := by
  rw [walk, if_neg (by simpa using new), found]

/-- Where every step waits for another one, a walk comes back before it has met with more steps than
there are, and closes a circle. What it has found does not depend on how far it could have gone. -/
theorem Trail.circle_of_walk {path : List String} {node : String} (h : Trail left links path node)
    (waits : ∀ id ∈ left, ∃ p ∈ linksOf links id, p ∈ left) :
    ∃ ids, Circle links ids ∧
      ∀ fuel, left.length < path.length + fuel → walk left links fuel path node = some ids := by
  by_cases again : node ∈ path
  · refine ⟨_, h.circle again, fun fuel enough => ?_⟩
    obtain ⟨fuel, rfl⟩ := Nat.exists_eq_add_one.mpr (show 0 < fuel by have := h.length_le; omega)
    exact walk_again again
  · obtain ⟨next, found⟩ : ∃ next, (linksOf links node).find? (left.contains ·) = some next := by
      rw [← Option.isSome_iff_exists, List.find?_isSome]
      simpa using waits node h.here
    have link := List.mem_of_find?_eq_some found
    have mem : next ∈ left := by simpa using List.find?_some found
    have on := h.step again link mem
    have shorter : path.length + 1 ≤ left.length := on.length_le
    obtain ⟨ids, circle, walked⟩ := on.circle_of_walk waits
    refine ⟨ids, circle, fun fuel enough => ?_⟩
    rw [List.length_cons] at walked
    obtain ⟨fuel, rfl⟩ := Nat.exists_eq_add_one.mpr (show 0 < fuel by omega)
    rw [walk_on again found]
    exact walked fuel (by omega)
termination_by left.length - path.length

/-! ## Refusals -/

/-- Steps that cannot be put in order are refused with a circle. A walk from the first step that is
left over finds it, however far it may go, so that it is never the steps left over that are named
instead. -/
theorem circle_of_unarranged (declared : order.Nodup) (unreserved : Record.reserved ∉ order)
    (listed : ∀ id ∈ order, links.has id = true ∨ id ∉ Record.innate)
    (linked : ∀ id ∈ order, ∀ p ∈ linksOf links id, p ∈ order)
    (fails : ¬∃ out, arrange order links = .ok out) :
    ∃ first rest ids, leftOver order links = first :: rest ∧
      (∀ fuel, (first :: rest).length < fuel → walk (first :: rest) links fuel [] first = some ids) ∧
      arrange order links = .error (.cycle ids) ∧ Circle links ids := by
  have sorted := arrange_eq_sort_of_linked listed linked
  cases left : leftOver order links with
  | nil => exact absurd ⟨_, by rw [sorted, sort_of_leftOver_eq_nil declared left]; rfl⟩ fails
  | cons first rest =>
    have waits := exists_link_leftOver declared unreserved linked
    rw [left] at waits
    obtain ⟨ids, circle, walked⟩ := (trail_start List.mem_cons_self).circle_of_walk waits
    simp only [List.length_nil, Nat.zero_add] at walked
    refine ⟨first, rest, ids, rfl, walked, ?_, circle⟩
    have short : (placed order links).length ≠ order.length := fun full =>
      fails ⟨placed order links, by rw [sorted, sort, if_pos full]; rfl⟩
    have reported : cycleAmong (leftOver order links) links = ids := by
      rw [left, cycleAmong, walked _ (Nat.lt_add_one _), Option.getD_some]
    rw [sorted, sort, if_neg short, ← leftOver, reported]
    rfl

/-- Two cycles, and a step behind the first of them from which the walk starts. -/
theorem circle_behind_tail : ∃ (order : List String) (links : Links), order.Nodup ∧
    Record.reserved ∉ order ∧ (∀ id ∈ order, links.has id = true ∨ id ∉ Record.innate) ∧
      (∀ id ∈ order, ∀ p ∈ linksOf links id, p ∈ order) ∧ (¬∃ out, arrange order links = .ok out) ∧
        arrange order links = .error (.cycle ["token", "login", "list", "token"]) ∧
          Circle links ["token", "login", "list", "token"] := by
  let order := ["start", "report", "list", "login", "token", "audit"]
  let links : Links :=
    [("report", ["start", "list"]), ("list", ["login"]), ("login", ["start", "token"]),
      ("token", ["list", "audit"]), ("audit", ["audit"])]
  have arranged : arrange order links = .error (.cycle ["token", "login", "list", "token"]) := by
    decide +kernel
  have distinct : order.Nodup := by decide
  have unreserved : Record.reserved ∉ order := by decide
  have listed : ∀ id ∈ order, links.has id = true ∨ id ∉ Record.innate := by decide
  have linked : ∀ id ∈ order, ∀ p ∈ linksOf links id, p ∈ order := by decide
  have fails : ¬∃ out, arrange order links = .ok out := by simp [arranged]
  obtain ⟨_, _, ids, _, _, reported, circle⟩ :=
    circle_of_unarranged distinct unreserved listed linked fails
  cases arranged.symm.trans reported
  exact ⟨order, links, distinct, unreserved, listed, linked, fails, arranged, circle⟩

end Walkthrough.Order
