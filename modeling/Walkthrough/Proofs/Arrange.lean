import Walkthrough.Proofs.Checks
import Walkthrough.Proofs.Order
import Walkthrough.Proofs.Spread
import Mathlib.Data.Set.Finite.List
import Mathlib.Order.WellFounded

/-!
# Steps that can be put in order

Sorting stops when the queue is empty. Every step that is left over then waits for another one that
is left over, and among finitely many steps such waiting runs in a cycle. So steps without a cycle
are all placed, and `Order.arrange` gives an order exactly when there is no cycle
(`Order.arrange_iff_acyclic`).
-/

namespace Walkthrough.Order

open Relation (TransGen)
open Walkthrough.Checks (mapError_ok_iff)

variable {order : List String} {links : Links}

/-! ## What is left over -/

theorem place_succ (declared : order.Nodup) {fuel : Nat} {placed queue : List String} {u : String}
    (inv : Placing order links placed (u :: queue)) :
    place order links (fuel + 1) (tally order (pending links placed)) (u :: queue) =
      u :: place order links fuel (tally order (pending links (placed ++ [u]))) (queue ++
        (release (tally order (pending links placed)) (waiters order links u)).2) := by
  rw [← release_pending declared inv.new]
  rfl

/-- With fuel for all declared steps, none whose prerequisites are all placed is left over. -/
theorem mem_place (declared : order.Nodup) (fuel : Nat) {placed queue out : List String}
    (inv : Placing order links placed queue) (enough : order.length ≤ placed.length + fuel)
    (made : place order links fuel (tally order (pending links placed)) queue = out) {id : String}
    (mem : id ∈ order) (named : id ≠ Record.reserved)
    (ready : ∀ p ∈ linksOf links id, p ∈ placed ++ out) : id ∈ placed ++ out := by
  induction fuel generalizing placed queue out with
  | zero =>
    -- As many steps are placed as are declared.
    have sub : placed ++ queue ⊆ order := fun x inBoth => ((inv.ready x).mp inBoth).1
    have all := (List.subperm_of_subset inv.distinct sub).perm_of_length_le
      (by rw [List.length_append]; omega)
    have size := all.length_eq
    rw [List.length_append] at size
    have empty : queue = [] := List.eq_nil_of_length_eq_zero (by omega)
    rw [empty, List.append_nil] at all
    exact List.mem_append_left _ (all.mem_iff.mpr mem)
  | succ fuel ih =>
    cases queue with
    | nil =>
      cases made
      have found := (inv.ready id).mpr ⟨mem, named, by simpa [place] using ready⟩
      simpa [place] using found
    | cons u queue =>
      cases made
      rw [place_succ declared inv, List.append_cons] at ready ⊢
      refine ih (inv.step declared) ?_ rfl ready
      rw [List.length_append, List.length_singleton]
      omega

theorem mem_placed (links : Links) (declared : order.Nodup) {id : String} (mem : id ∈ order)
    (named : id ≠ Record.reserved) (ready : ∀ p ∈ linksOf links id, p ∈ placed order links) :
    id ∈ placed order links :=
  mem_place declared order.length (placing_start links declared) (Nat.le_add_left _ _)
    (placed_eq links declared).symm mem named ready

/-- The steps that are not placed, in declared order. -/
def leftOver (order : List String) (links : Links) : List String :=
  order.filter fun id => !(placed order links).contains id

theorem mem_leftOver_iff {id : String} :
    id ∈ leftOver order links ↔ id ∈ order ∧ id ∉ placed order links := by
  simp [leftOver]

theorem exists_link_leftOver (declared : order.Nodup) (unreserved : Record.reserved ∉ order)
    (linked : ∀ id ∈ order, ∀ p ∈ linksOf links id, p ∈ order) :
    ∀ id ∈ leftOver order links, ∃ p ∈ linksOf links id, p ∈ leftOver order links := by
  simp only [mem_leftOver_iff]
  rintro id ⟨mem, unplaced⟩
  have named : id ≠ Record.reserved := fun same => unreserved (same ▸ mem)
  have blocked := mt (mem_placed links declared mem named) unplaced
  simp only [not_forall] at blocked
  obtain ⟨p, link, missing⟩ := blocked
  exact ⟨p, link, linked id mem p link, missing⟩

theorem sort_of_leftOver_eq_nil (declared : order.Nodup) (none : leftOver order links = []) :
    sort order links = .ok (placed order links) := by
  obtain ⟨_, distinct, known⟩ := placed_spec links declared
  have all : ∀ id ∈ order, id ∈ placed order links := by simpa [leftOver] using none
  have perm : (placed order links).Perm order :=
    (List.perm_ext_iff_of_nodup distinct declared).mpr fun id => ⟨fun mem => (known id mem).1, all id⟩
  simp only [sort, if_pos perm.length_eq]

/-! ## Cycles -/

/-- When each of some steps waits for another of them, one of them waits for itself. -/
theorem exists_cycle {left : List String} {first : String} (mem : first ∈ left)
    (waits : ∀ id ∈ left, ∃ p ∈ linksOf links id, p ∈ left) :
    ∃ id ∈ left, TransGen (Linked (linksOf links)) id id := by
  by_contra none
  simp only [not_exists, not_and] at none
  -- The ancestors among the steps are a strict order on finitely many, so one step has none.
  let Before (a b : {id // id ∈ left}) : Prop := TransGen (Linked (linksOf links)) b.1 a.1
  have trans : IsTrans _ Before := ⟨fun _ _ _ one other => other.trans one⟩
  have irrefl : Std.Irrefl Before := ⟨fun a => none a.1 a.2⟩
  have founded : WellFounded Before := Finite.wellFounded_of_trans_of_irrefl Before
  obtain ⟨a, _, least⟩ := founded.has_min Set.univ ⟨⟨first, mem⟩, trivial⟩
  obtain ⟨p, link, inLeft⟩ := waits a.1 a.2
  exact least ⟨p, inLeft⟩ trivial (.single link)

/-- Without cycles all steps are placed. -/
theorem sort_of_acyclic (declared : order.Nodup) (unreserved : Record.reserved ∉ order)
    (linked : ∀ id ∈ order, ∀ p ∈ linksOf links id, p ∈ order)
    (acyclic : ∀ id ∈ order, ¬TransGen (Linked (linksOf links)) id id) :
    sort order links = .ok (placed order links) := by
  refine sort_of_leftOver_eq_nil declared (List.eq_nil_iff_forall_not_mem.mpr fun first left => ?_)
  obtain ⟨id, mem, cycle⟩ :=
    exists_cycle left (exists_link_leftOver declared unreserved linked)
  exact acyclic id (mem_leftOver_iff.mp mem).1 cycle

/-! ## Sorting -/

theorem Behind.acyclic {out : List String} (h : Behind links [] out)
    (linked : ∀ id ∈ out, ∀ p ∈ linksOf links id, p ∈ out) {id : String} (mem : id ∈ out) :
    ¬TransGen (Linked (linksOf links)) id id := by
  have earlier : ∀ a, TransGen (Linked (linksOf links)) id a →
      a ∈ out ∧ out.idxOf a < out.idxOf id := by
    intro a path
    induction path with
    | single link => exact ⟨linked _ mem _ link, h.idxOf_lt mem link⟩
    | tail _ link ih =>
      exact ⟨linked _ ih.1 _ link, Nat.lt_trans (h.idxOf_lt ih.1 link) ih.2⟩
  intro cycle
  exact Nat.lt_irrefl _ (earlier id cycle).2

/-- Names that are linked among one another are sorted. A name without a list has no prerequisites,
unless records hold something else under it. -/
theorem arrange_eq_sort_of_linked (listed : ∀ id ∈ order, links.has id = true ∨ id ∉ Record.innate)
    (linked : ∀ id ∈ order, ∀ p ∈ linksOf links id, p ∈ order) :
    arrange order links = (sort order links).mapError .cycle := by
  have tied : order.findSome? (loose? order links) = none := by
    rw [List.findSome?_eq_none_iff]
    intro id mem
    have known : links.lacksList id = false := by
      rcases listed id mem with has | plain
      · simp [Record.lacksList, has]
      · simp [Record.lacksList, plain]
    simpa [loose?, known] using linked id mem
  rw [arrange, tied]

theorem linked_of_keyed (keyed : ∀ id ∈ order, ∃ ps, links.lookup id = some ps ∧ ∀ p ∈ ps, p ∈ order) :
    ∀ id ∈ order, ∀ p ∈ linksOf links id, p ∈ order := by
  intro id mem p link
  obtain ⟨ps, found, known⟩ := keyed id mem
  rw [linksOf, found] at link
  exact known p link

theorem arrange_eq_sort (keyed : ∀ id ∈ order, ∃ ps, links.lookup id = some ps ∧ ∀ p ∈ ps, p ∈ order) :
    arrange order links = (sort order links).mapError .cycle := by
  refine arrange_eq_sort_of_linked (fun id mem => Or.inl ?_) (linked_of_keyed keyed)
  obtain ⟨ps, found, _⟩ := keyed id mem
  obtain ⟨before, after, same, _⟩ := List.lookup_eq_some_iff.mp found
  rw [Record.has, List.any_eq_true]
  exact ⟨(id, ps), by simp [same], by simp⟩

/-- Steps that are linked among one another are put in order exactly when no step waits for itself;
each then stands behind its prerequisites. Otherwise a cycle is reported. -/
theorem arrange_iff_acyclic (declared : order.Nodup) (unreserved : Record.reserved ∉ order)
    (keyed : ∀ id ∈ order, ∃ ps, links.lookup id = some ps ∧ ∀ p ∈ ps, p ∈ order) :
    ((∃ out, arrange order links = .ok out) ↔
        ∀ id ∈ order, ¬TransGen (Linked (linksOf links)) id id) ∧
      (∀ out, arrange order links = .ok out → out.Perm order ∧
        ∀ front id back, out = front ++ id :: back → ∀ p ∈ linksOf links id, p ∈ front) ∧
      ((¬∃ out, arrange order links = .ok out) → ∃ ids, arrange order links = .error (.cycle ids)) := by
  have linked := linked_of_keyed keyed
  rw [arrange_eq_sort keyed]
  simp only [mapError_ok_iff]
  refine ⟨⟨?_, fun acyclic => ⟨_, sort_of_acyclic declared unreserved linked acyclic⟩⟩, ?_, ?_⟩
  · rintro ⟨out, sorted⟩ id mem
    obtain ⟨perm, behind, _⟩ := sort_ok declared sorted
    refine behind.acyclic ?_ (perm.mem_iff.mpr mem)
    intro x placed p link
    exact perm.mem_iff.mpr (linked x (perm.mem_iff.mp placed) p link)
  · intro out sorted
    obtain ⟨perm, behind, _⟩ := sort_ok declared sorted
    refine ⟨perm, fun front id back same p link => ?_⟩
    simpa using behind.mem_of_append same p link
  · intro fails
    cases sorted : sort order links with
    | ok out => exact absurd ⟨out, sorted⟩ fails
    | error ids => exact ⟨ids, rfl⟩

/-- Repeated prerequisites, and a step that is declared before the one that it waits for. -/
theorem arrange_of_repeated_links : ∃ (order : List String) (links : Links), order.Nodup ∧
    Record.reserved ∉ order ∧
      (∀ id ∈ order, ∃ ps, links.lookup id = some ps ∧ ∀ p ∈ ps, p ∈ order) ∧
        (∀ id ∈ order, ¬TransGen (Linked (linksOf links)) id id) ∧
          arrange order links = .ok ["login", "list", "report"] := by
  let order := ["list", "login", "report"]
  let links : Links := [("list", ["login", "login"]), ("login", []), ("report", ["list", "login"])]
  have arranged : arrange order links = .ok ["login", "list", "report"] := by decide +kernel
  have distinct : order.Nodup := by decide
  have unreserved : Record.reserved ∉ order := by decide
  have keyed : ∀ id ∈ order, ∃ ps, links.lookup id = some ps ∧ ∀ p ∈ ps, p ∈ order := by
    simp [order, links, List.lookup_cons]
  obtain ⟨acyclic, _⟩ := arrange_iff_acyclic distinct unreserved keyed
  exact ⟨order, links, distinct, unreserved, keyed, acyclic.mp ⟨_, arranged⟩, arranged⟩

end Walkthrough.Order
