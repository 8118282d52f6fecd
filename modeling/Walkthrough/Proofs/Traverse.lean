import Walkthrough.Template
import Walkthrough.Proofs.Checks

/-!
# Requests part by part

The parts of a request that can hold placeholders come in a fixed order, which is the order in which
faults are reported. `Template.traverse` changes each part and nothing else
(`Template.traverse_ok_iff`), and fails as the first part does that fails (`Template.fault?_traverse`).
-/

namespace Walkthrough.Template

open Walkthrough.Checks

variable {change : Scope → String → Except RenderFault String} {r out : Request}

/-- The parts of a request that can hold placeholders, in order. -/
def parts (r : Request) : List (Scope × String) :=
  (.url, r.url) :: (r.headers.map fun h => (.headers, h.2)) ++
    (r.body.toList.map fun b => (.data, b)) ++
      r.credentials.toList.flatMap fun c => [(.auth, c.username), (.auth, c.password)]

/-- The second request is the first one with each part changed as the relation allows. -/
structure Partwise (rel : Scope → String → String → Prop) (r out : Request) : Prop where
  method : out.method = r.method
  url : rel .url r.url out.url
  headers : List.Forall₂ (fun h k => k.1 = h.1 ∧ rel .headers h.2 k.2) r.headers out.headers
  body : Option.Rel (rel .data) r.body out.body
  credentials : Option.Rel
    (fun c k => rel .auth c.username k.username ∧ rel .auth c.password k.password)
    r.credentials out.credentials

theorem optionMapM_ok_iff {α β : Type} {f : α → Except RenderFault β} {x : Option α}
    {y : Option β} : x.mapM f = .ok y ↔ Option.Rel (fun a b => f a = .ok b) x y := by
  cases x with
  | none =>
    rw [Option.mapM_none, pure_ok_iff]
    constructor
    · rintro rfl
      exact .none
    · rintro ⟨⟩
      rfl
  | some a =>
    rw [Option.mapM_some]
    cases made : f a with
    | error e =>
      constructor
      · intro h
        cases h
      · rintro (⟨same⟩ | _)
        rw [made] at same
        cases same
    | ok b =>
      constructor
      · intro h
        cases h
        exact .some made
      · rintro (⟨same⟩ | _)
        rw [made] at same
        cases same
        rfl

theorem changeCredentials_ok_iff {c k : Credentials} :
    (do
      let username ← change .auth c.username
      let password ← change .auth c.password
      return (⟨username, password⟩ : Credentials)) = .ok k ↔
      change .auth c.username = .ok k.username ∧ change .auth c.password = .ok k.password := by
  simp only [bind_ok_iff, pure_ok_iff]
  constructor
  · rintro ⟨username, first, password, second, rfl⟩
    exact ⟨first, second⟩
  · rintro ⟨first, second⟩
    exact ⟨k.username, first, k.password, second, rfl⟩

theorem changeHeader_ok_iff {h k : Header} :
    ((change .headers h.2).map fun v => (h.1, v)) = .ok k ↔
      k.1 = h.1 ∧ change .headers h.2 = .ok k.2 := by
  rw [map_ok_iff]
  constructor
  · rintro ⟨v, made, rfl⟩
    exact ⟨rfl, made⟩
  · rintro ⟨same, made⟩
    exact ⟨k.2, made, by rw [← same]⟩

theorem traverse_ok_iff :
    traverse change r = .ok out ↔ Partwise (fun scope a b => change scope a = .ok b) r out := by
  unfold traverse
  simp only [bind_ok_iff (x := change .url r.url), bind_ok_iff (x := List.mapM _ _),
    bind_ok_iff (x := Option.mapM _ _), mapM_ok_iff, optionMapM_ok_iff, pure_ok_iff,
    changeHeader_ok_iff, changeCredentials_ok_iff]
  constructor
  · rintro ⟨url, urlMade, headers, headersMade, body, bodyMade, credentials, credentialsMade, rfl⟩
    exact ⟨rfl, urlMade, headersMade, bodyMade, credentialsMade⟩
  · rintro ⟨method, url, headers, body, credentials⟩
    exact ⟨out.url, url, out.headers, headers, out.body, body, out.credentials, credentials,
      by rw [← method]⟩

/-! ## Changes one after the other -/

section
variable {rel next : Scope → String → String → Prop}

theorem forall₂_comp_iff {α β γ : Type} {first : α → β → Prop} {second : β → γ → Prop}
    {xs : List α} {zs : List γ} :
    (∃ ys, List.Forall₂ first xs ys ∧ List.Forall₂ second ys zs) ↔
      List.Forall₂ (fun x z => ∃ y, first x y ∧ second y z) xs zs := by
  constructor
  · rintro ⟨ys, left, right⟩
    induction left generalizing zs with
    | nil =>
      cases right
      exact .nil
    | cons one _ ih =>
      cases right with
      | cons other rest => exact .cons ⟨_, one, other⟩ (ih rest)
  · intro both
    induction both with
    | nil => exact ⟨[], .nil, .nil⟩
    | cons one _ ih =>
      obtain ⟨y, left, right⟩ := one
      obtain ⟨ys, lefts, rights⟩ := ih
      exact ⟨y :: ys, .cons left lefts, .cons right rights⟩

theorem optionRel_comp_iff {α β γ : Type} {first : α → β → Prop} {second : β → γ → Prop}
    {x : Option α} {z : Option γ} :
    (∃ y, Option.Rel first x y ∧ Option.Rel second y z) ↔
      Option.Rel (fun x z => ∃ y, first x y ∧ second y z) x z := by
  constructor
  · rintro ⟨_, left | _, right | _⟩
    · exact .some ⟨_, left, right⟩
    · exact .none
  · rintro (⟨y, left, right⟩ | _)
    · exact ⟨some y, .some left, .some right⟩
    · exact ⟨none, .none, .none⟩

/-- Two changes one after the other change each part by the one and then by the other. -/
theorem partwise_comp_iff : (∃ mid, Partwise rel r mid ∧ Partwise next mid out) ↔
    Partwise (fun scope a b => ∃ mid, rel scope a mid ∧ next scope mid b) r out := by
  have headers (h k : Header) : (∃ m : Header, (m.1 = h.1 ∧ rel .headers h.2 m.2) ∧
      (k.1 = m.1 ∧ next .headers m.2 k.2)) ↔
      k.1 = h.1 ∧ ∃ mid, rel .headers h.2 mid ∧ next .headers mid k.2 := by
    constructor
    · rintro ⟨m, ⟨name, one⟩, same, other⟩
      exact ⟨same.trans name, m.2, one, other⟩
    · rintro ⟨same, mid, one, other⟩
      exact ⟨(h.1, mid), ⟨rfl, one⟩, same, other⟩
  have credentials (c k : Credentials) : (∃ m : Credentials,
      (rel .auth c.username m.username ∧ rel .auth c.password m.password) ∧
        (next .auth m.username k.username ∧ next .auth m.password k.password)) ↔
      (∃ mid, rel .auth c.username mid ∧ next .auth mid k.username) ∧
        ∃ mid, rel .auth c.password mid ∧ next .auth mid k.password := by
    constructor
    · rintro ⟨m, ⟨name, word⟩, name', word'⟩
      exact ⟨⟨_, name, name'⟩, _, word, word'⟩
    · rintro ⟨⟨name, first, first'⟩, word, second, second'⟩
      exact ⟨⟨name, word⟩, ⟨first, second⟩, first', second'⟩
  constructor
  · rintro ⟨mid, left, right⟩
    refine ⟨right.method.trans left.method, ⟨_, left.url, right.url⟩, ?_,
      optionRel_comp_iff.mp ⟨_, left.body, right.body⟩, ?_⟩
    · simp only [← headers]
      exact forall₂_comp_iff.mp ⟨_, left.headers, right.headers⟩
    · simp only [← credentials]
      exact optionRel_comp_iff.mp ⟨_, left.credentials, right.credentials⟩
  · intro both
    obtain ⟨url, left, right⟩ := both.url
    obtain ⟨body, lefts, rights⟩ := optionRel_comp_iff.mpr both.body
    have headed := both.headers
    simp only [← headers] at headed
    obtain ⟨heads, headsLeft, headsRight⟩ := forall₂_comp_iff.mpr headed
    have known := both.credentials
    simp only [← credentials] at known
    obtain ⟨pair, pairLeft, pairRight⟩ := optionRel_comp_iff.mpr known
    exact ⟨⟨r.method, url, heads, body, pair⟩, ⟨rfl, left, headsLeft, lefts, pairLeft⟩,
      both.method, right, headsRight, rights, pairRight⟩

theorem forall_parts_iff {P : Scope × String → Prop} : (∀ part ∈ parts r, P part) ↔
    P (.url, r.url) ∧ (∀ h ∈ r.headers, P (.headers, h.2)) ∧ (∀ b ∈ r.body, P (.data, b)) ∧
      ∀ k ∈ r.credentials, P (.auth, k.username) ∧ P (.auth, k.password) := by
  simp only [parts, List.cons_append, List.forall_mem_cons, List.forall_mem_append, List.mem_map,
    List.mem_flatMap, Option.mem_toList, Option.mem_def]
  constructor
  · rintro ⟨url, ⟨headers, body⟩, credentials⟩
    refine ⟨url, fun h mem => headers _ ⟨h, mem, rfl⟩, fun b mem => body _ ⟨b, mem, rfl⟩, ?_⟩
    intro k mem
    exact ⟨credentials _ ⟨k, mem, by simp⟩, credentials _ ⟨k, mem, by simp⟩⟩
  · rintro ⟨url, headers, body, credentials⟩
    refine ⟨url, ⟨?_, ?_⟩, ?_⟩
    · rintro _ ⟨h, mem, rfl⟩
      exact headers h mem
    · rintro _ ⟨b, mem, rfl⟩
      exact body b mem
    · rintro part ⟨k, mem, listed⟩
      simp only [List.mem_cons, List.not_mem_nil, or_false] at listed
      rcases listed with rfl | rfl
      · exact (credentials k mem).1
      · exact (credentials k mem).2

theorem optionRel_and_iff {α β : Type} {p : α → Prop} {first : α → β → Prop} {x : Option α}
    {y : Option β} : Option.Rel (fun a b => p a ∧ first a b) x y ↔
      (∀ a ∈ x, p a) ∧ Option.Rel first x y := by
  constructor
  · rintro (⟨holds, related⟩ | _)
    · exact ⟨by simpa using holds, .some related⟩
    · exact ⟨by simp, .none⟩
  · rintro ⟨holds, related | _⟩
    · exact .some ⟨holds _ rfl, related⟩
    · exact .none

/-- A condition on the parts alone can be taken out of a change. -/
theorem partwise_and_iff {P : Scope × String → Prop} :
    Partwise (fun scope a b => P (scope, a) ∧ rel scope a b) r out ↔
      (∀ part ∈ parts r, P part) ∧ Partwise rel r out := by
  have headers (h k : Header) : (k.1 = h.1 ∧ P (.headers, h.2) ∧ rel .headers h.2 k.2) ↔
      P (.headers, h.2) ∧ k.1 = h.1 ∧ rel .headers h.2 k.2 := and_left_comm
  have credentials (c k : Credentials) : ((P (.auth, c.username) ∧ rel .auth c.username k.username) ∧
      P (.auth, c.password) ∧ rel .auth c.password k.password) ↔
      (P (.auth, c.username) ∧ P (.auth, c.password)) ∧
        rel .auth c.username k.username ∧ rel .auth c.password k.password := and_and_and_comm
  rw [forall_parts_iff]
  constructor
  · rintro ⟨method, url, headed, body, known⟩
    simp only [headers, List.forall₂_and_left] at headed
    simp only [credentials, optionRel_and_iff] at known
    rw [optionRel_and_iff] at body
    exact ⟨⟨url.1, headed.1, body.1, known.1⟩, method, url.2, headed.2, body.2, known.2⟩
  · rintro ⟨⟨url, heads, body, pair⟩, out⟩
    refine ⟨out.method, ⟨url, out.url⟩, ?_, optionRel_and_iff.mpr ⟨body, out.body⟩, ?_⟩
    · simp only [headers, List.forall₂_and_left]
      exact ⟨heads, out.headers⟩
    · simp only [credentials, optionRel_and_iff]
      exact ⟨pair, out.credentials⟩

/-- Changes that agree on the parts of a request change it alike. -/
theorem partwise_congr (same : ∀ part ∈ parts r, ∀ b, rel part.1 part.2 b ↔ next part.1 part.2 b) :
    Partwise rel r out ↔ Partwise next r out := by
  have both : Partwise (fun scope a b => (∀ b, rel scope a b ↔ next scope a b) ∧ rel scope a b) r out ↔
      Partwise (fun scope a b => (∀ b, rel scope a b ↔ next scope a b) ∧ next scope a b) r out := by
    refine iff_of_eq (congrArg (Partwise · r out) ?_)
    funext scope a b
    exact propext (and_congr_right fun agree => agree b)
  rw [@partwise_and_iff r out rel fun part => ∀ b, rel part.1 part.2 b ↔ next part.1 part.2 b,
    @partwise_and_iff r out next fun part => ∀ b, rel part.1 part.2 b ↔ next part.1 part.2 b] at both
  simpa only [and_iff_right same] using both

theorem optionRel_imp {α β : Type} {first second : α → β → Prop} {x : Option α} {y : Option β}
    (related : Option.Rel first x y) (implies : ∀ a b, first a b → second a b) :
    Option.Rel second x y := by
  cases related with
  | some one => exact .some (implies _ _ one)
  | none => exact .none

theorem Partwise.imp (changed : Partwise rel r out)
    (implies : ∀ scope a b, rel scope a b → next scope a b) : Partwise next r out where
  method := changed.method
  url := implies _ _ _ changed.url
  headers := changed.headers.imp fun _ _ => And.imp_right (implies _ _ _)
  body := optionRel_imp changed.body (implies _)
  credentials := optionRel_imp changed.credentials fun _ _ => And.imp (implies _ _ _) (implies _ _ _)

theorem exists_optionRel_iff {α β : Type} {first : α → β → Prop} {x : Option α} :
    (∃ y, Option.Rel first x y) ↔ ∀ a ∈ x, ∃ b, first a b := by
  constructor
  · rintro ⟨_, one | _⟩
    · simpa using ⟨_, one⟩
    · simp
  · intro each
    cases x with
    | none => exact ⟨none, .none⟩
    | some a =>
      obtain ⟨b, one⟩ := each a rfl
      exact ⟨some b, .some one⟩

/-- A request can be changed when each of its parts can. -/
theorem exists_partwise_iff :
    (∃ out, Partwise rel r out) ↔ ∀ part ∈ parts r, ∃ b, rel part.1 part.2 b := by
  have headers (h : Header) : (∃ k : Header, k.1 = h.1 ∧ rel .headers h.2 k.2) ↔
      ∃ b, rel .headers h.2 b :=
    ⟨fun ⟨k, _, made⟩ => ⟨k.2, made⟩, fun ⟨b, made⟩ => ⟨(h.1, b), rfl, made⟩⟩
  have credentials (c : Credentials) : (∃ k : Credentials,
      rel .auth c.username k.username ∧ rel .auth c.password k.password) ↔
      (∃ b, rel .auth c.username b) ∧ ∃ b, rel .auth c.password b :=
    ⟨fun ⟨_, name, word⟩ => ⟨⟨_, name⟩, _, word⟩,
      fun ⟨⟨name, first⟩, word, second⟩ => ⟨⟨name, word⟩, first, second⟩⟩
  rw [@forall_parts_iff r fun part => ∃ b, rel part.1 part.2 b]
  simp only [← headers, ← credentials]
  rw [← exists_forall₂_iff, ← exists_optionRel_iff, ← exists_optionRel_iff]
  constructor
  · rintro ⟨out, _, url, heads, body, pair⟩
    exact ⟨⟨_, url⟩, ⟨_, heads⟩, ⟨_, body⟩, ⟨_, pair⟩⟩
  · rintro ⟨⟨url, made⟩, ⟨heads, headed⟩, ⟨body, bodied⟩, ⟨pair, paired⟩⟩
    exact ⟨⟨r.method, url, heads, body, pair⟩, rfl, made, headed, bodied, paired⟩

end

/-! ## Faults -/

theorem fault?_optionMapM {α β : Type} (f : α → Except RenderFault β) (x : Option α) :
    fault? (x.mapM f) = x.toList.findSome? fun a => fault? (f a) := by
  cases x with
  | none => rfl
  | some a =>
    rw [Option.mapM_some, Option.toList_some, List.findSome?_singleton]
    cases f a <;> rfl

/-- A request cannot be changed when one of its parts cannot, and the first such part says why. -/
theorem fault?_traverse (change : Scope → String → Except RenderFault String) (r : Request) :
    fault? (traverse change r) = (parts r).findSome? fun p => fault? (change p.1 p.2) := by
  have headers : fault? (r.headers.mapM fun h => (change .headers h.2).map fun v => (h.1, v)) =
      r.headers.findSome? fun h => fault? (change .headers h.2) := by
    rw [fault?_mapM]
    congr 1
    funext h
    exact fault?_map _ _
  have credentials : fault? (r.credentials.mapM fun c => do
        let username ← change .auth c.username
        let password ← change .auth c.password
        return (⟨username, password⟩ : Credentials)) =
      r.credentials.toList.findSome? fun c =>
        (fault? (change .auth c.username)).or (fault? (change .auth c.password)) := by
    rw [fault?_optionMapM]
    congr 1
    funext c
    exact fault?_bind fun username _ => fault?_bind_pure _ (Credentials.mk username)
  -- The fault is that of the first part in this chain that has one.
  have chain : fault? (traverse change r) = (fault? (change .url r.url)).or
      ((r.headers.findSome? fun h => fault? (change .headers h.2)).or
        ((r.body.toList.findSome? fun b => fault? (change .data b)).or
          (r.credentials.toList.findSome? fun c =>
            (fault? (change .auth c.username)).or (fault? (change .auth c.password))))) := by
    rw [← headers, ← fault?_optionMapM, ← credentials]
    exact fault?_bind fun _ _ => fault?_bind fun _ _ => fault?_bind fun _ _ => fault?_bind_pure _ _
  rw [chain]
  unfold parts
  cases r.credentials <;> simp [List.findSome?_map, Function.comp_def, findSome?_cons_eq_or]

end Walkthrough.Template
