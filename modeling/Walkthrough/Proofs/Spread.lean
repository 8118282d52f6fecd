import Walkthrough.Spread
import Mathlib.Data.List.Basic
import Mathlib.Logic.Relation

/-!
# Spreading reaches exactly what the links lead to

`spread` stops after a given number of rounds. When all links end among some names, as many rounds
as there are names are enough: every round but the last one comes upon a name not seen before. So
what it gives is the closure of the links, in whatever cycles they run.
-/

namespace Walkthrough

open Relation (TransGen ReflTransGen)

/-- A link leads from the first name to the second. -/
def Linked (next : String → List String) (a b : String) : Prop :=
  b ∈ next a

variable {next : String → List String} {front seen : List String}

theorem mem_freshNames {x : String} :
    x ∈ freshNames next front seen ↔ (∃ a ∈ front, Linked next a x) ∧ x ∉ seen := by
  simp [freshNames, Linked]

theorem spread_zero : spread next 0 front seen = seen := rfl

theorem spread_succ_of_fresh {rounds : Nat} (fresh : freshNames next front seen ≠ []) :
    spread next (rounds + 1) front seen =
      spread next rounds (freshNames next front seen) (seen ++ freshNames next front seen) := by
  simp [spread, fresh]

theorem spread_succ_of_done {rounds : Nat} (done : freshNames next front seen = []) :
    spread next (rounds + 1) front seen = seen := by
  simp [spread, done]

theorem subset_spread (rounds : Nat) : seen ⊆ spread next rounds front seen := by
  induction rounds generalizing front seen with
  | zero => exact List.Subset.refl seen
  | succ rounds ih =>
    by_cases done : freshNames next front seen = []
    · rw [spread_succ_of_done done]
      exact List.Subset.refl seen
    · rw [spread_succ_of_fresh done]
      exact List.Subset.trans (List.subset_append_left _ _) ih

/-- What is found was there from the start or is linked to the front. -/
theorem linked_of_mem_spread {rounds : Nat} {x : String} (h : x ∈ spread next rounds front seen) :
    x ∈ seen ∨ ∃ a ∈ front, TransGen (Linked next) a x := by
  induction rounds generalizing front seen with
  | zero => exact Or.inl h
  | succ rounds ih =>
    by_cases done : freshNames next front seen = []
    · rw [spread_succ_of_done done] at h
      exact Or.inl h
    · rw [spread_succ_of_fresh done] at h
      rcases ih h with old | ⟨b, fresh, path⟩
      · rcases List.mem_append.mp old with old | fresh
        · exact Or.inl old
        · obtain ⟨⟨a, mem, link⟩, _⟩ := mem_freshNames.mp fresh
          exact Or.inr ⟨a, mem, .single link⟩
      · obtain ⟨⟨a, mem, link⟩, _⟩ := mem_freshNames.mp fresh
        exact Or.inr ⟨a, mem, .head link path⟩

/-! ## Enough rounds -/

/-- How many of the names have not been seen. -/
def unseen (names seen : List String) : Nat :=
  (names.filter fun x => !seen.contains x).length

theorem unseen_lt {names before after : List String} {x : String} (kept : before ⊆ after)
    (named : x ∈ names) (new : x ∈ after) (unknown : x ∉ before) :
    unseen names after < unseen names before := by
  -- The names not seen after are among those not seen before, and `x` tells the two lists apart.
  have sub : (names.filter fun y => !after.contains y).Sublist
      (names.filter fun y => !before.contains y) := by
    apply List.monotone_filter_right
    intro y
    simp only [List.contains_eq_mem, Bool.not_eq_true', decide_eq_false_iff_not]
    exact fun absent mem => absent (kept mem)
  refine Nat.lt_of_le_of_ne sub.length_le fun same => ?_
  have mem : x ∈ names.filter fun y => !before.contains y := by simp [named, unknown]
  rw [← sub.eq_of_length same] at mem
  simp [new] at mem

/-- With enough rounds, what is found is closed under the links and holds what the front is linked
to. The names seen before are either closed already or part of the front. -/
theorem spread_closed {names : List String} (bound : ∀ a x, Linked next a x → x ∈ names)
    {rounds : Nat} (enough : unseen names seen ≤ rounds)
    (edge : ∀ a ∈ seen, a ∈ front ∨ ∀ x, Linked next a x → x ∈ seen) {a x : String}
    (start : a ∈ front ∨ a ∈ spread next rounds front seen) (link : Linked next a x) :
    x ∈ spread next rounds front seen := by
  induction rounds generalizing front seen with
  | zero =>
    -- No round is left, which means that every name has been seen.
    rw [spread_zero]
    by_contra absent
    have counted : x ∈ names.filter fun y => !seen.contains y := by
      simp [bound a x link, absent]
    exact absurd (List.length_pos_of_mem counted) (by simpa [unseen] using enough)
  | succ rounds ih =>
    by_cases done : freshNames next front seen = []
    · rw [spread_succ_of_done done] at start ⊢
      -- Nothing fresh is linked to the front, so the names seen are closed already.
      have closed : ∀ b ∈ front, Linked next b x → x ∈ seen := fun b mem link => by
        by_contra absent
        exact List.ne_nil_of_mem (mem_freshNames.mpr ⟨⟨b, mem, link⟩, absent⟩) done
      rcases start with mem | mem
      · exact closed a mem link
      · exact (edge a mem).elim (closed a · link) fun inside => inside x link
    · rw [spread_succ_of_fresh done] at start ⊢
      have reached : ∀ b ∈ front, ∀ y, Linked next b y → y ∈ seen ++ freshNames next front seen :=
        fun b mem y link => by
          by_cases known : y ∈ seen
          · exact List.mem_append_left _ known
          · exact List.mem_append_right _ (mem_freshNames.mpr ⟨⟨b, mem, link⟩, known⟩)
      rcases start with mem | mem
      · exact subset_spread rounds (reached a mem x link)
      · refine ih ?_ ?_ (Or.inr mem)
        · -- A fresh name is one unseen name fewer, which makes up for the round.
          obtain ⟨y, fresh⟩ := List.exists_mem_of_ne_nil _ done
          obtain ⟨⟨b, _, link⟩, unknown⟩ := mem_freshNames.mp fresh
          have fewer := unseen_lt (List.subset_append_left seen (freshNames next front seen))
            (bound b y link) (List.mem_append_right _ fresh) unknown
          omega
        · intro b mem
          rcases List.mem_append.mp mem with old | fresh
          · refine Or.inr fun y link => ?_
            rcases edge b old with inFront | inside
            · exact reached b inFront y link
            · exact List.mem_append_left _ (inside y link)
          · exact Or.inl fresh

theorem unseen_le (names seen : List String) : unseen names seen ≤ names.length :=
  List.length_filter_le _ _

/-! ## The closure -/

/-- A name with all that it leads to. -/
theorem mem_spread_self_iff {names : List String} (bound : ∀ a x, Linked next a x → x ∈ names)
    {a x : String} :
    x ∈ spread next names.length [a] [a] ↔ ReflTransGen (Linked next) a x := by
  constructor
  · intro h
    rcases linked_of_mem_spread h with mem | ⟨b, mem, path⟩
    · rw [List.mem_singleton.mp mem]
    · rw [List.mem_singleton.mp mem] at path
      exact path.to_reflTransGen
  · intro path
    induction path with
    | refl => exact subset_spread _ (List.mem_singleton_self a)
    | tail _ link ih =>
      exact spread_closed bound (unseen_le names [a]) (fun _ mem => Or.inl mem) (Or.inr ih) link

/-- All that a name leads to by at least one link. -/
theorem mem_spread_iff {names : List String} (bound : ∀ a x, Linked next a x → x ∈ names)
    {a x : String} :
    x ∈ spread next names.length [a] [] ↔ TransGen (Linked next) a x := by
  have closed {b y : String} (start : b ∈ [a] ∨ b ∈ spread next names.length [a] [])
      (link : Linked next b y) : y ∈ spread next names.length [a] [] :=
    spread_closed bound (unseen_le names []) (fun _ mem => absurd mem (List.not_mem_nil)) start link
  constructor
  · intro h
    rcases linked_of_mem_spread h with mem | ⟨b, mem, path⟩
    · exact absurd mem List.not_mem_nil
    · rwa [List.mem_singleton.mp mem] at path
  · intro path
    induction path with
    | single link => exact closed (Or.inl (List.mem_singleton_self a)) link
    | tail _ link ih => exact closed (Or.inr ih) link

end Walkthrough
