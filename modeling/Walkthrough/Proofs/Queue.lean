import Walkthrough.Proofs.Arrange

/-!
# Ties between ready steps

Several steps can be ready at once. The queue of `Order.place` takes the step that has been ready
longest, and of those that became ready together the one declared first (`Order.Foremost`); that
settles the order of all steps (`Order.arrange_ok_iff_foremost`). It need not be the step that is
declared first of all that are ready (`Order.Earliest`): a step that becomes ready late stands
behind the others, wherever it is declared. The two agree as long as what becomes ready is declared
behind what has been waiting (`Order.Orderly`).
-/

namespace Walkthrough.Order

open Relation (TransGen)

variable {order placed queue before out : List String} {links : Links} {a b id u : String}

/-! ## Places in a list -/

/-- Each of some names has a property, given the names that stand before it. -/
def Each (P : List String → String → Prop) (before out : List String) : Prop :=
  ∀ front id back, out = front ++ id :: back → P (before ++ front) id

theorem each_nil (P : List String → String → Prop) (before : List String) : Each P before [] := by
  rintro (_ | _) id back same <;> cases same

theorem each_cons_iff {P : List String → String → Prop} :
    Each P before (id :: out) ↔ P before id ∧ Each P (before ++ [id]) out := by
  constructor
  · intro each
    refine ⟨by simpa using each [] id out rfl, fun front x back same => ?_⟩
    simpa using each (id :: front) x back (by rw [same, List.cons_append])
  · rintro ⟨first, rest⟩ (_ | ⟨_, front⟩) x back same
    · cases same
      simpa using first
    · cases same
      simpa using rest front x back rfl

theorem each_start_iff {P : List String → String → Prop} :
    Each P [] out ↔ ∀ front id back, out = front ++ id :: back → P front id :=
  Iff.rfl

/-- Where what stands before settles the next name, there is one list of a length. -/
theorem Each.unique {P : List String → String → Prop} {other : List String}
    (settles : ∀ placed a b, P placed a → P placed b → a = b) (one : Each P before out)
    (two : Each P before other) (length : out.length = other.length) : out = other := by
  induction out generalizing other before with
  | nil => exact (List.eq_nil_of_length_eq_zero length.symm).symm
  | cons a out ih =>
    cases other with
    | nil => cases length
    | cons b other =>
      obtain ⟨first, rest⟩ := each_cons_iff.mp one
      obtain ⟨firstToo, restToo⟩ := each_cons_iff.mp two
      cases settles before a b first firstToo
      rw [ih rest restToo (Nat.succ.inj length)]

theorem pairwise_idxOf (declared : order.Nodup) :
    order.Pairwise fun a b => order.idxOf a < order.idxOf b := by
  rw [List.pairwise_iff_getElem]
  intro i j hi hj lt
  rwa [declared.idxOf_getElem i hi, declared.idxOf_getElem j hj]

/-! ## Ready steps -/

/-- The steps that can be placed next when some are, in declared order. -/
def ready (order : List String) (links : Links) (placed : List String) : List String :=
  order.filter fun id => !placed.contains id && (linksOf links id).all (placed.contains ·)

theorem mem_ready_iff : id ∈ ready order links placed ↔
    id ∈ order ∧ id ∉ placed ∧ ∀ p ∈ linksOf links id, p ∈ placed := by
  simp [ready]

theorem ready_mono (sub : before <+: placed) (h : id ∈ ready order links before)
    (new : id ∉ placed) : id ∈ ready order links placed := by
  obtain ⟨mem, _, all⟩ := mem_ready_iff.mp h
  exact mem_ready_iff.mpr ⟨mem, new, fun p link => sub.subset (all p link)⟩

theorem idxOf_lt_of_ne (ne : a ≠ b) (mem : a ∈ order) (le : order.idxOf a ≤ order.idxOf b) :
    order.idxOf a < order.idxOf b :=
  Nat.lt_of_le_of_ne le fun same => ne ((List.idxOf_inj mem).mp same)

/-- A step that became ready did so when some step was placed. -/
theorem exists_release (sub : before <+: placed) (late : id ∉ ready order links before)
    (now : id ∈ ready order links placed) : ∃ front u, before <+: front ∧ front ++ [u] <+: placed ∧
      id ∉ ready order links front ∧ id ∈ ready order links (front ++ [u]) := by
  obtain ⟨rest, rfl⟩ := sub
  induction rest generalizing before with
  | nil => exact absurd (by simpa using now) late
  | cons u rest ih =>
    by_cases freed : id ∈ ready order links (before ++ [u])
    · exact ⟨before, u, List.prefix_refl _, ⟨rest, by simp⟩, late, freed⟩
    · obtain ⟨front, v, sub, within, released⟩ := ih freed (by simpa using now)
      exact ⟨front, v, (List.prefix_append before [u]).trans sub, by simpa using within, released⟩

/-! ## Three ways to break a tie -/

/-- The step is the earliest declared of those that are ready. -/
def Earliest (order : List String) (links : Links) (placed : List String) (id : String) : Prop :=
  id ∈ ready order links placed ∧
    ∀ other ∈ ready order links placed, order.idxOf id ≤ order.idxOf other

theorem earliest_of_head? (declared : order.Nodup)
    (first : (ready order links placed).head? = some id) : Earliest order links placed id := by
  have sorted : (ready order links placed).Pairwise fun a b => order.idxOf a < order.idxOf b :=
    (pairwise_idxOf declared).sublist List.filter_sublist
  obtain ⟨rest, same⟩ := List.head?_eq_some_iff.mp first
  rw [same, List.pairwise_cons] at sorted
  rw [Earliest, same, List.forall_mem_cons]
  exact ⟨List.mem_cons_self, Nat.le_refl _, fun other mem => Nat.le_of_lt (sorted.1 other mem)⟩

/-- The first step has been ready longer than the second, or became ready together with it and is
declared before it. -/
def Sooner (order : List String) (links : Links) (placed : List String) (a b : String) : Prop :=
  (∃ before, before <+: placed ∧ a ∈ ready order links before ∧ b ∉ ready order links before) ∨
    (∀ before, before <+: placed → (a ∈ ready order links before ↔ b ∈ ready order links before)) ∧
      order.idxOf a < order.idxOf b

/-- The step is the first of those that are ready to have become so. -/
def Foremost (order : List String) (links : Links) (placed : List String) (id : String) : Prop :=
  id ∈ ready order links placed ∧
    ∀ other ∈ ready order links placed, other ≠ id → Sooner order links placed id other

/-- Placing the step makes only such steps ready as are declared behind all that are waiting. -/
def Orderly (order : List String) (links : Links) (placed : List String) (u : String) : Prop :=
  ∀ a ∈ ready order links (placed ++ [u]), a ∉ ready order links placed →
    ∀ b ∈ ready order links placed, b ≠ u → order.idxOf b < order.idxOf a

theorem Earliest.unique (one : Earliest order links placed a)
    (two : Earliest order links placed b) : a = b :=
  (List.idxOf_inj (mem_ready_iff.mp one.1).1).mp
    (Nat.le_antisymm (one.2 b two.1) (two.2 a one.1))

theorem Sooner.asymm (one : Sooner order links placed a b) (mem : a ∈ ready order links placed)
    (memToo : b ∈ ready order links placed) : ¬Sooner order links placed b a := by
  -- What was ready stays ready until it is placed, and neither of the two is.
  have stays : ∀ {x front more}, x ∈ ready order links placed → front <+: more → more <+: placed →
      x ∈ ready order links front → x ∈ ready order links more := by
    intro x front more now sub within earlier
    exact ready_mono sub earlier fun there => (mem_ready_iff.mp now).2.1 (within.subset there)
  rintro (⟨other, within, second, first⟩ | ⟨together, after⟩)
  · rcases one with ⟨before, sub, early, late⟩ | ⟨together, _⟩
    · rcases List.prefix_or_prefix_of_prefix sub within with le | le
      · exact first (stays mem le within early)
      · exact late (stays memToo le sub second)
    · exact first ((together other within).mpr second)
  · rcases one with ⟨before, sub, early, late⟩ | ⟨_, before⟩
    · exact late ((together before sub).mpr early)
    · omega

theorem Foremost.unique (one : Foremost order links placed a)
    (two : Foremost order links placed b) : a = b := by
  by_contra ne
  exact (one.2 b two.1 (Ne.symm ne)).asymm one.1 two.1 (two.2 a one.1 ne)

/-! ## How the three go together -/

/-- In an orderly list, what has been ready longer is declared before. -/
theorem idxOf_lt_of_longer {front back : List String} (orderly : Each (Orderly order links) [] out)
    (same : out = front ++ back) (first : a ∈ ready order links front)
    (second : b ∈ ready order links front) (sub : before <+: front)
    (early : a ∈ ready order links before) (late : b ∉ ready order links before) :
    order.idxOf a < order.idxOf b := by
  obtain ⟨between, u, le, ⟨rest, rfl⟩, unready, freed⟩ := exists_release sub late second
  have unplaced := (mem_ready_iff.mp first).2.1
  simp only [List.mem_append, List.mem_singleton, not_or] at unplaced
  have waiting := ready_mono le early unplaced.1.1
  exact orderly between u (rest ++ back) (by simp [same]) b freed unready a waiting unplaced.1.2

theorem earliest_of_foremost (queued : Each (Foremost order links) [] out)
    (orderly : Each (Orderly order links) [] out) : Each (Earliest order links) [] out := by
  intro front id back same
  obtain ⟨now, soonest⟩ := queued front id back same
  refine ⟨now, fun other there => ?_⟩
  by_cases eq : other = id
  · rw [eq]
  · rcases soonest other there eq with ⟨before, sub, early, late⟩ | ⟨_, lt⟩
    · exact Nat.le_of_lt (idxOf_lt_of_longer orderly same now there sub early late)
    · exact Nat.le_of_lt lt

theorem foremost_of_earliest (eager : Each (Earliest order links) [] out)
    (orderly : Each (Orderly order links) [] out) : Each (Foremost order links) [] out := by
  intro front id back same
  obtain ⟨now, least⟩ := eager front id back same
  refine ⟨now, fun other there ne => ?_⟩
  have lt := idxOf_lt_of_ne (Ne.symm ne) (mem_ready_iff.mp now).1 (least other there)
  by_cases longer : ∃ before, before <+: front ∧ id ∈ ready order links before ∧
      other ∉ ready order links before
  · exact Or.inl longer
  · push Not at longer
    refine Or.inr ⟨fun before sub => ⟨longer before sub, fun early => ?_⟩, lt⟩
    -- Had the other step been ready longer, it would be declared before.
    by_contra late
    have := idxOf_lt_of_longer orderly same there now sub early late
    omega

theorem orderly_of_foremost (all : ∀ id ∈ order, id ∈ out)
    (queued : Each (Foremost order links) [] out) (eager : Each (Earliest order links) [] out) :
    Each (Orderly order links) [] out := by
  rw [each_start_iff] at *
  intro front u back same a freed late b waiting ne
  obtain ⟨declared, absent, _⟩ := mem_ready_iff.mp waiting
  have differ : b ≠ a := fun eq => late (eq ▸ waiting)
  -- The step that waits comes later; before it there is the one that became ready, or not.
  have later : b ∈ back := by simpa [same, absent, ne] using all b declared
  obtain ⟨middle, rest, rfl, first⟩ := List.eq_append_cons_of_mem later
  by_cases overtakes : a ∈ middle
  · obtain ⟨left, right, rfl⟩ := List.append_of_mem overtakes
    have unplaced : b ∉ front ++ u :: left := by
      simp only [List.mem_append, List.mem_cons, not_or] at first ⊢
      exact ⟨absent, ne, first.1⟩
    have sub : front <+: front ++ u :: left := List.prefix_append _ _
    have now := ready_mono sub waiting unplaced
    have newly : a ∉ front := fun mem => (mem_ready_iff.mp freed).2.1 (List.mem_append_left _ mem)
    rcases (queued (front ++ u :: left) a (right ++ b :: rest) (by simp [same])).2 b now differ with
      ⟨before, within, early, notYet⟩ | ⟨together, _⟩
    · rcases List.prefix_or_prefix_of_prefix within sub with le | le
      · exact absurd (ready_mono le early newly) late
      · exact absurd (ready_mono le waiting fun mem => unplaced (within.subset mem)) notYet
    · exact absurd ((together front sub).mpr waiting) late
  · have unplaced : a ∉ front ++ u :: middle := by
      simpa [overtakes] using (mem_ready_iff.mp freed).2.1
    have now := ready_mono ⟨middle, by simp⟩ freed unplaced
    have least := (eager (front ++ u :: middle) b rest (by simp [same])).2 a now
    exact idxOf_lt_of_ne differ declared least

/-! ## The queue -/

theorem released_sublist (counts : Open) (ws : List String) : (release counts ws).2.Sublist ws := by
  induction ws generalizing counts with
  | nil => exact List.nil_sublist []
  | cons w ws ih =>
    simp only [release]
    split
    · exact (ih _).cons_cons w
    · exact (ih _).cons w

theorem pairwise_waiters (declared : order.Nodup) (links : Links) (u : String) :
    (waiters order links u).Pairwise fun a b => order.idxOf a ≤ order.idxOf b := by
  have block : ∀ {s x}, x ∈ ((linksOf links s).filter (· == u)).map (fun _ => s) → x = s := by
    intro s x mem
    obtain ⟨_, _, same⟩ := List.mem_map.mp mem
    exact same.symm
  rw [waiters, List.pairwise_flatMap]
  constructor
  · intro s _
    refine List.pairwise_of_forall_mem_list fun x first y second => ?_
    rw [block first, block second]
  · refine (pairwise_idxOf declared).imp fun lt x first y second => ?_
    rw [block first, block second]
    exact Nat.le_of_lt lt

/-- What holds while steps are placed: the queue holds the ready steps, the first to become so in
front. -/
structure Queueing (order : List String) (links : Links) (placed queue : List String) : Prop extends
    Placing order links placed queue where
  sorted : queue.Pairwise (Sooner order links placed)

theorem Placing.mem_queue_iff (inv : Placing order links placed queue)
    (unreserved : Record.reserved ∉ order) : id ∈ queue ↔ id ∈ Order.ready order links placed := by
  rw [mem_ready_iff]
  constructor
  · intro mem
    obtain ⟨declared, _, all⟩ := (inv.ready id).mp (List.mem_append_right _ mem)
    exact ⟨declared, fun old => (List.nodup_append.mp inv.distinct).2.2 id old id mem rfl, all⟩
  · rintro ⟨declared, new, all⟩
    have named : id ≠ Record.reserved := fun same => unreserved (same ▸ declared)
    exact (List.mem_append.mp ((inv.ready id).mpr ⟨declared, named, all⟩)).resolve_left new

theorem Queueing.foremost (inv : Queueing order links placed (u :: queue))
    (unreserved : Record.reserved ∉ order) : Foremost order links placed u := by
  have here : ∀ id, id ∈ u :: queue ↔ id ∈ ready order links placed := fun id =>
    inv.toPlacing.mem_queue_iff unreserved
  refine ⟨(here u).mp List.mem_cons_self, fun other now ne => ?_⟩
  have behind := (List.mem_cons.mp ((here other).mpr now)).resolve_left ne
  exact (List.pairwise_cons.mp inv.sorted).1 other behind

theorem queueing_start (links : Links) (declared : order.Nodup)
    (unreserved : Record.reserved ∉ order) :
    Queueing order links [] (order.filter (isFree (tally order (pending links [])))) := by
  have start := placing_start links declared
  refine ⟨start, ?_⟩
  have listed := (pairwise_idxOf declared).sublist
    (List.filter_sublist (p := isFree (tally order (pending links []))))
  refine listed.imp_of_mem fun first second lt => ?_
  refine Or.inr ⟨fun before sub => ?_, lt⟩
  cases List.prefix_nil.mp sub
  exact iff_of_true ((start.mem_queue_iff unreserved).mp first)
    ((start.mem_queue_iff unreserved).mp second)

theorem sooner_of_together (now : a ∈ ready order links (placed ++ [u]))
    (nowToo : b ∈ ready order links (placed ++ [u]))
    (together : ∀ before, before <+: placed →
      (a ∈ ready order links before ↔ b ∈ ready order links before))
    (lt : order.idxOf a < order.idxOf b) : Sooner order links (placed ++ [u]) a b := by
  refine Or.inr ⟨fun before le => ?_, lt⟩
  rcases List.prefix_concat_iff.mp le with rfl | le
  · exact iff_of_true now nowToo
  · exact together before le

theorem Sooner.step (sooner : Sooner order links placed a b)
    (now : a ∈ ready order links (placed ++ [u])) (nowToo : b ∈ ready order links (placed ++ [u])) :
    Sooner order links (placed ++ [u]) a b := by
  rcases sooner with ⟨before, le, early, late⟩ | ⟨together, lt⟩
  · exact Or.inl ⟨before, le.trans (List.prefix_append placed [u]), early, late⟩
  · exact sooner_of_together now nowToo together lt

/-- What a step sets free has not been ready before. -/
theorem Placing.unready_of_released (declared : order.Nodup) (unreserved : Record.reserved ∉ order)
    (inv : Placing order links placed (u :: queue))
    (mem : id ∈ (release (tally order (pending links placed)) (waiters order links u)).2)
    (sub : before <+: placed) : id ∉ Order.ready order links before := by
  intro early
  have next := inv.step declared
  have unplaced := (List.nodup_append.mp next.distinct).2.2
  have new : id ∉ placed ++ [u] := fun old => unplaced id old id (List.mem_append_right _ mem) rfl
  rw [List.mem_append, List.mem_singleton, not_or] at new
  -- It would stand in the queue already, and it stands there once.
  have waiting := (inv.mem_queue_iff unreserved).mpr (ready_mono sub early new.1)
  have old := (List.mem_cons.mp waiting).resolve_left new.2
  have apart := (List.nodup_append.mp (List.nodup_append.mp next.distinct).2.1).2.2
  exact apart id old id mem rfl

theorem pairwise_released (declared : order.Nodup) (links : Links) (placed : List String)
    (u : String) :
    (release (tally order (pending links placed)) (waiters order links u)).2.Pairwise
      fun a b => a ≠ b ∧ order.idxOf a ≤ order.idxOf b :=
  (nodup_released (pending links placed) (waiters order links u)).and
    ((pairwise_waiters declared links u).sublist (released_sublist _ _))

/-- What a step sets free goes to the end of the queue, in declared order. -/
theorem Queueing.step (declared : order.Nodup) (unreserved : Record.reserved ∉ order)
    (inv : Queueing order links placed (u :: queue)) :
    Queueing order links (placed ++ [u]) (queue ++
      (release (tally order (pending links placed)) (waiters order links u)).2) := by
  have next := inv.toPlacing.step declared
  have unready : ∀ id ∈ (release (tally order (pending links placed)) (waiters order links u)).2,
      ∀ before, before <+: placed → id ∉ ready order links before := fun _ mem _ sub =>
    inv.toPlacing.unready_of_released declared unreserved mem sub
  have listed := pairwise_released declared links placed u
  generalize (release (tally order (pending links placed)) (waiters order links u)).2 = fresh at *
  have now : ∀ x, x ∈ queue ++ fresh → x ∈ ready order links (placed ++ [u]) := fun x =>
    (next.mem_queue_iff unreserved).mp
  refine ⟨next, List.pairwise_append.mpr ⟨?_, ?_, ?_⟩⟩
  · refine (List.pairwise_cons.mp inv.sorted).2.imp_of_mem fun first second sooner => ?_
    exact sooner.step (now _ (List.mem_append_left _ first)) (now _ (List.mem_append_left _ second))
  · refine listed.imp_of_mem fun {a b} first second differ => ?_
    have here := now a (List.mem_append_right _ first)
    refine sooner_of_together here (now b (List.mem_append_right _ second)) (fun before le => ?_)
      (idxOf_lt_of_ne differ.1 (mem_ready_iff.mp here).1 differ.2)
    exact iff_of_false (unready a first before le) (unready b second before le)
  · intro a first b second
    have waited := (inv.toPlacing.mem_queue_iff unreserved).mp (List.mem_cons_of_mem u first)
    exact Or.inl ⟨placed, List.prefix_append placed [u], waited,
      unready b second placed (List.prefix_refl placed)⟩

theorem each_foremost_place (declared : order.Nodup) (unreserved : Record.reserved ∉ order)
    (fuel : Nat) {placed queue : List String} (inv : Queueing order links placed queue) :
    Each (Foremost order links) placed
      (place order links fuel (tally order (pending links placed)) queue) := by
  induction fuel generalizing placed queue with
  | zero => exact each_nil _ placed
  | succ fuel ih =>
    cases queue with
    | nil => exact each_nil _ placed
    | cons u queue =>
      rw [place_succ declared inv.toPlacing, each_cons_iff]
      exact ⟨inv.foremost unreserved, ih (inv.step declared unreserved)⟩

theorem each_foremost_placed (links : Links) (declared : order.Nodup)
    (unreserved : Record.reserved ∉ order) :
    Each (Foremost order links) [] (Order.placed order links) := by
  rw [placed_eq links declared]
  exact each_foremost_place declared unreserved order.length
    (queueing_start links declared unreserved)

/-- The queue settles the order of all steps. -/
theorem sort_ok_iff_foremost (declared : order.Nodup) (unreserved : Record.reserved ∉ order)
    (linked : ∀ id ∈ order, ∀ p ∈ linksOf links id, p ∈ order)
    (acyclic : ∀ id ∈ order, ¬TransGen (Linked (linksOf links)) id id) :
    sort order links = .ok out ↔ out.Perm order ∧ Each (Foremost order links) [] out := by
  have sorted := sort_of_acyclic declared unreserved linked acyclic
  have perm := (sort_ok declared sorted).1
  have queued := each_foremost_placed links declared unreserved
  rw [sorted, Except.ok.injEq]
  constructor
  · rintro rfl
    exact ⟨perm, queued⟩
  · rintro ⟨permToo, queuedToo⟩
    exact queued.unique (fun _ _ _ first second => first.unique second) queuedToo
      (perm.length_eq.trans permToo.length_eq.symm)

/-! ## Declared order -/

/-- Where the prerequisites of every step are declared before it, declared order takes the earliest
ready step each time. -/
theorem Behind.each_earliest (declared : order.Nodup) (h : Behind links [] order) :
    Each (Earliest order links) [] order := by
  rw [each_start_iff]
  intro front id back same
  have distinct := declared
  rw [same, List.nodup_middle, List.nodup_cons, List.mem_append, not_or] at distinct
  have all := h.mem_of_append same
  refine ⟨mem_ready_iff.mpr ⟨by simp [same], distinct.1.1, by simpa using all⟩, fun other now => ?_⟩
  have unplaced := (mem_ready_iff.mp now).2.1
  rw [same, List.idxOf_append_of_notMem distinct.1.1, List.idxOf_append_of_notMem unplaced,
    List.idxOf_cons_self]
  omega

end Walkthrough.Order
