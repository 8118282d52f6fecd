import Mathlib.Data.List.Forall2

/-!
# Checks one after the other

When a chain of checks succeeds, every check in it has succeeded. These lemmas take such a chain
apart, so that later proofs do not unfold the monad.
-/

namespace Walkthrough.Checks

variable {ε α β : Type}

theorem ok_bind (a : α) (f : α → Except ε β) : (Except.ok a : Except ε α) >>= f = f a := rfl

theorem error_bind (e : ε) (f : α → Except ε β) :
    (Except.error e : Except ε α) >>= f = .error e := rfl

theorem bind_ok_iff {x : Except ε α} {f : α → Except ε β} {b : β} :
    x >>= f = .ok b ↔ ∃ a, x = .ok a ∧ f a = .ok b := by
  cases x with
  | ok a =>
    constructor
    · exact fun h => ⟨a, rfl, h⟩
    · rintro ⟨_, same, h⟩
      cases same
      exact h
  | error e =>
    constructor
    · intro h
      cases h
    · rintro ⟨_, same, _⟩
      cases same

theorem bind_error_iff {x : Except ε α} {f : α → Except ε β} {e : ε} :
    x >>= f = .error e ↔ x = .error e ∨ ∃ a, x = .ok a ∧ f a = .error e := by
  cases x with
  | ok a => simp [ok_bind]
  | error e => simp [error_bind]

theorem map_ok_iff {x : Except ε α} {f : α → β} {b : β} :
    x.map f = .ok b ↔ ∃ a, x = .ok a ∧ f a = b := by
  cases x <;> simp [Except.map]

theorem mapError_ok_iff {γ : Type} {x : Except ε α} {f : ε → γ} {a : α} :
    x.mapError f = .ok a ↔ x = .ok a := by
  cases x <;> simp [Except.mapError]

theorem pure_ok_iff {a b : α} : (pure a : Except ε α) = .ok b ↔ a = b := by
  simp [pure, Except.pure]

theorem throw_ok_iff {e : ε} {a : α} : (throw e : Except ε α) = .ok a ↔ False := by
  simp [throw, throwThe, MonadExceptOf.throw]

theorem throw_error_iff {e m : ε} : (throw e : Except ε α) = .error m ↔ e = m := by
  simp [throw, throwThe, MonadExceptOf.throw]

/-- A check that is made under a condition. -/
theorem check_ok_iff {c : Prop} [Decidable c] {check : Except ε Unit} {next : Except ε β} {b : β} :
    (do if c then check
        next) = .ok b ↔ (c → check = .ok ()) ∧ next = .ok b := by
  by_cases h : c
  · simp only [h, if_true, forall_const]
    rw [bind_ok_iff]
    exact ⟨fun ⟨_, made, rest⟩ => ⟨made, rest⟩, fun ⟨made, rest⟩ => ⟨_, made, rest⟩⟩
  · simp [h]

theorem check_error_iff {c : Prop} [Decidable c] {check : Except ε Unit} {next : Except ε β}
    {e : ε} :
    (do if c then check
        next) = .error e ↔ c ∧ check = .error e ∨ (c → check = .ok ()) ∧ next = .error e := by
  by_cases h : c
  · simp only [h, if_true, forall_const, true_and]
    rw [bind_error_iff]
    exact or_congr_right ⟨fun ⟨_, made, rest⟩ => ⟨made, rest⟩, fun ⟨made, rest⟩ => ⟨_, made, rest⟩⟩
  · simp [h]

theorem mapM_cons_ok_iff {f : α → Except ε β} {a : α} {items : List α} {out : List β} :
    (a :: items).mapM f = .ok out ↔
      ∃ b rest, f a = .ok b ∧ items.mapM f = .ok rest ∧ b :: rest = out := by
  simp only [List.mapM_cons, bind_ok_iff, pure_ok_iff, exists_and_left]

theorem mapM_append_ok_iff {f : α → Except ε β} {front back : List α} {out : List β} :
    (front ++ back).mapM f = .ok out ↔ ∃ before after,
      front.mapM f = .ok before ∧ back.mapM f = .ok after ∧ before ++ after = out := by
  simp only [List.mapM_append, bind_ok_iff, pure_ok_iff, exists_and_left]

/-- Between items that pass, one item decides. -/
theorem mapM_between {f : α → Except ε β} {front back : List α} {before after : List β}
    (first : front.mapM f = .ok before) (last : back.mapM f = .ok after) (a : α) :
    (front ++ a :: back).mapM f = (f a).map fun b => before ++ b :: after := by
  rw [List.mapM_append, first, List.mapM_cons, last]
  cases f a <;> rfl

theorem mapM_ok_iff {f : α → Except ε β} {items : List α} {out : List β} :
    items.mapM f = .ok out ↔ List.Forall₂ (fun a b => f a = .ok b) items out := by
  induction items generalizing out with
  | nil =>
    rw [List.mapM_nil, pure_ok_iff]
    exact ⟨fun h => h ▸ .nil, fun h => by cases h; rfl⟩
  | cons a items ih =>
    rw [mapM_cons_ok_iff]
    constructor
    · rintro ⟨b, rest, first, others, rfl⟩
      exact .cons first (ih.mp others)
    · rintro (_ | ⟨first, others⟩)
      exact ⟨_, _, first, ih.mpr others, rfl⟩

theorem exists_of_mem_mapM {f : α → Except ε β} {items : List α} {out : List β}
    (h : items.mapM f = .ok out) {b : β} (mem : b ∈ out) : ∃ a ∈ items, f a = .ok b := by
  induction mapM_ok_iff.mp h with
  | nil => cases mem
  | cons first rest ih =>
    rcases List.mem_cons.mp mem with rfl | later
    · exact ⟨_, List.mem_cons_self, first⟩
    · obtain ⟨a, inItems, made⟩ := ih (mapM_ok_iff.mpr rest) later
      exact ⟨a, List.mem_cons_of_mem _ inItems, made⟩

theorem exists_forall₂_iff {r : α → β → Prop} {items : List α} :
    (∃ out, List.Forall₂ r items out) ↔ ∀ a ∈ items, ∃ b, r a b := by
  induction items with
  | nil => exact iff_of_true ⟨[], .nil⟩ (by simp)
  | cons a items ih =>
    rw [List.forall_mem_cons, ← ih]
    constructor
    · rintro ⟨_, one | ⟨one, others⟩⟩
      exact ⟨⟨_, one⟩, _, others⟩
    · rintro ⟨⟨b, one⟩, out, others⟩
      exact ⟨b :: out, .cons one others⟩

theorem exists_mapM_ok_iff {f : α → Except ε β} {items : List α} :
    (∃ out, items.mapM f = .ok out) ↔ ∀ a ∈ items, ∃ b, f a = .ok b := by
  rw [← exists_forall₂_iff]
  exact exists_congr fun _ => mapM_ok_iff

theorem forM_ok_iff {f : α → Except ε Unit} {items : List α} :
    items.forM f = .ok () ↔ ∀ a ∈ items, f a = .ok () := by
  induction items with
  | nil => simp [pure, Except.pure]
  | cons a items ih =>
    change f a >>= (fun _ => items.forM f) = .ok () ↔ _
    rw [bind_ok_iff, List.forall_mem_cons, ← ih]
    exact ⟨fun ⟨_, first, rest⟩ => ⟨first, rest⟩, fun ⟨first, rest⟩ => ⟨_, first, rest⟩⟩

/-! ## The first fault -/

/-- What is wrong, if something is. -/
def fault? : Except ε α → Option ε
  | .ok _ => none
  | .error e => some e

theorem fault?_eq_some_iff {x : Except ε α} {e : ε} : fault? x = some e ↔ x = .error e := by
  cases x <;> simp [fault?]

/-- A check after another one is reached only when the first one finds nothing wrong. -/
theorem fault?_bind {x : Except ε α} {f : α → Except ε β} {later : Option ε}
    (h : ∀ a, x = .ok a → fault? (f a) = later) : fault? (x >>= f) = (fault? x).or later := by
  cases x with
  | ok a => exact h a rfl
  | error e => rfl

/-- After the last check nothing can be wrong. -/
theorem fault?_bind_pure (x : Except ε α) (f : α → β) :
    fault? (x >>= fun a => pure (f a)) = fault? x := by
  cases x <;> rfl

theorem fault?_map (x : Except ε α) (f : α → β) : fault? (x.map f) = fault? x := by
  cases x <;> rfl

theorem findSome?_cons_eq_or (f : α → Option β) (a : α) (l : List α) :
    (a :: l).findSome? f = (f a).or (l.findSome? f) := by
  rw [List.findSome?_cons]
  cases f a <;> rfl

theorem fault?_mapM (f : α → Except ε β) (items : List α) :
    fault? (items.mapM f) = items.findSome? fun a => fault? (f a) := by
  induction items with
  | nil => rfl
  | cons a items ih =>
    rw [List.mapM_cons, fault?_bind fun b _ => fault?_bind_pure (items.mapM f) (b :: ·), ih,
      findSome?_cons_eq_or]

/-- The item is the first one in the list with the property. -/
def First (p : α → Prop) (items : List α) (a : α) : Prop :=
  ∃ before after, items = before ++ a :: after ∧ p a ∧ ∀ b ∈ before, ¬p b

theorem First.holds {p : α → Prop} {items : List α} {a : α} (h : First p items a) :
    p a := by
  obtain ⟨_, _, _, holds, _⟩ := h
  exact holds

theorem First.mem {p : α → Prop} {items : List α} {a : α} (h : First p items a) : a ∈ items := by
  obtain ⟨before, after, rfl, _⟩ := h
  exact List.mem_append_right before List.mem_cons_self

/-- What is found in a list is found for the first item for which something can be. -/
theorem findSome?_eq_some_iff_first {f : α → Option β} {items : List α} {b : β} :
    items.findSome? f = some b ↔ ∃ a, First (fun a => ∃ b, f a = some b) items a ∧ f a = some b := by
  rw [List.findSome?_eq_some_iff]
  constructor
  · rintro ⟨before, a, after, same, found, nothing⟩
    refine ⟨a, ⟨before, after, same, ⟨b, found⟩, ?_⟩, found⟩
    rintro x mem ⟨y, wrong⟩
    rw [nothing x mem] at wrong
    cases wrong
  · rintro ⟨a, ⟨before, after, same, _, nothing⟩, found⟩
    refine ⟨before, a, after, same, found, ?_⟩
    intro x mem
    rw [Option.eq_none_iff_forall_ne_some]
    intro y wrong
    exact nothing x mem ⟨y, wrong⟩

theorem First.congr {p q : α → Prop} {items : List α} {a : α}
    (h : ∀ a, p a ↔ q a) : First p items a ↔ First q items a := by
  have same : p = q := by
    funext a
    exact propext (h a)
  rw [same]

end Walkthrough.Checks
