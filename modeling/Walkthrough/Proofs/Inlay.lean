import Walkthrough.Proofs.Filling

/-!
# Templates with open endpoints

If nothing that is put in for an endpoint were read as part of the template, the tokens could as well
be replaced first, while the endpoints are still open (`Template.Scans`), and the endpoints be filled
in after that. The program fills them in first. It comes to the same where tokens stand in the filled
text only as they stand in the template's own text (`Template.Native`): `Template.Scans.rewrites`.
-/

namespace Walkthrough

theorem Text.split_append (first second : List Char) :
    Text.split (first ++ second) = Text.split first ++ Text.split second := by
  induction first with
  | nil => rfl
  | cons c first ih =>
    simp only [List.cons_append, Text.split, ih]
    split <;> simp

namespace Template

variable {binds : Binding} {V : List Char → List Char} {p : Piece} {ps qs front back : List Piece}
  {c : Char} {t cs rest out value name : List Char}

/-! ## Pieces in units -/

/-- The pieces with their characters taken apart into units. -/
def unitPieces (ps : List Piece) : List Piece :=
  ps.flatMap fun
    | .char c => (Text.split [c]).map .char
    | .slot name => [.slot name]

/-- The units of a piece, given those of the endpoints. -/
def pieceUnits (V : List Char → List Char) : Piece → List Char
  | .char c => [c]
  | .slot name => V name

/-- The units that pieces come to when the endpoints are filled in. -/
def fillUnits (V : List Char → List Char) (ps : List Piece) : List Char :=
  ps.flatMap (pieceUnits V)

@[simp] theorem fillUnits_nil : fillUnits V [] = [] := rfl

@[simp] theorem fillUnits_cons : fillUnits V (p :: ps) = pieceUnits V p ++ fillUnits V ps := rfl

@[simp] theorem fillUnits_append : fillUnits V (ps ++ qs) = fillUnits V ps ++ fillUnits V qs :=
  List.flatMap_append

@[simp] theorem fillUnits_chars (cs : List Char) : fillUnits V (cs.map .char) = cs := by
  induction cs with
  | nil => rfl
  | cons c cs ih => simp [ih, pieceUnits]

/-! ## The scan -/

/-- The scan for tokens over pieces in units: an open endpoint is passed over and is part of no
token. -/
inductive Scans (binds : Binding) : List Piece → List Piece → Prop
  | nil : Scans binds [] []
  | slot {name : List Char} {ps qs : List Piece} (later : Scans binds ps qs) :
      Scans binds (.slot name :: ps) (.slot name :: qs)
  | token {t v : List Char} {ps qs : List Piece} (bound : binds t v)
      (longest : ∀ t' v', binds t' v' → t'.map .char <+: t.map .char ++ ps →
        t'.length ≤ t.length)
      (later : Scans binds ps qs) : Scans binds (t.map .char ++ ps) (v.map .char ++ qs)
  | copy {c : Char} {ps qs : List Piece}
      (free : ∀ t v, binds t v → ¬t.map .char <+: .char c :: ps) (later : Scans binds ps qs) :
      Scans binds (.char c :: ps) (.char c :: qs)

theorem exists_longest {P : List Char → Prop} (n : Nat) (some : ∃ t, P t)
    (bounded : ∀ t, P t → t.length ≤ n) : ∃ t, P t ∧ ∀ t', P t' → t'.length ≤ t.length := by
  induction n with
  | zero =>
    obtain ⟨t, holds⟩ := some
    refine ⟨t, holds, ?_⟩
    intro t' other
    have := bounded t' other
    omega
  | succ n ih =>
    by_cases full : ∃ t, P t ∧ t.length = n + 1
    · obtain ⟨t, holds, length⟩ := full
      exact ⟨t, holds, fun t' other => length ▸ bounded t' other⟩
    · apply ih
      intro t holds
      have bound := bounded t holds
      have other : t.length ≠ n + 1 := fun same => full ⟨t, holds, same⟩
      omega

/-- Where tokens are not empty, pieces can be scanned to their end. -/
theorem exists_scans (filled : ∀ t v, binds t v → t ≠ []) (ps : List Piece) :
    ∃ qs, Scans binds ps qs := by
  induction size : ps.length using Nat.strongRecOn generalizing ps with
  | _ n ih =>
    match ps with
    | [] => exact ⟨[], .nil⟩
    | .slot name :: ps =>
      obtain ⟨qs, later⟩ := ih ps.length (by simp at size; omega) ps rfl
      exact ⟨_, .slot later⟩
    | .char c :: ps =>
      by_cases stands : ∃ t, (∃ v, binds t v) ∧ t.map Piece.char <+: .char c :: ps
      · have bounded : ∀ t, (∃ v, binds t v) ∧ t.map Piece.char <+: .char c :: ps →
            t.length ≤ n := by
          rintro t ⟨_, begins⟩
          have := begins.length_le
          simpa [← size] using this
        obtain ⟨t, ⟨⟨v, bound⟩, rest, same⟩, longest⟩ := exists_longest n stands bounded
        have shorter : rest.length < n := by
          have some := List.length_pos_iff.mpr (filled t v bound)
          rw [← size, ← same]
          simp
          omega
        obtain ⟨qs, later⟩ := ih rest.length shorter rest rfl
        rw [← same] at longest ⊢
        exact ⟨_, .token bound (fun t' v' other begins => longest t' ⟨⟨v', other⟩, begins⟩) later⟩
      · obtain ⟨qs, later⟩ := ih ps.length (by simp at size; omega) ps rfl
        exact ⟨_, .copy (fun t v bound begins => stands ⟨t, ⟨v, bound⟩, begins⟩) later⟩

theorem Scans.unique_of_eq (definite : Binding.Definite binds) (h : Scans binds ps qs)
    {others rs : List Piece} (k : Scans binds others rs) (same : ps = others) : qs = rs := by
  induction h generalizing others rs with
  | nil =>
    cases k with
    | nil => rfl
    | @token t v _ _ bound _ _ =>
      have empty := (List.append_eq_nil_iff.mp same.symm).1
      exact absurd (List.map_eq_nil_iff.mp empty) (definite.filled t v bound)
    | slot | copy => cases same
  | @slot name ps qs _ ih =>
    cases k with
    | nil | copy => cases same
    | slot later =>
      cases same
      rw [ih later rfl]
    | @token t v _ _ bound _ _ =>
      cases t with
      | nil => exact absurd rfl (definite.filled [] v bound)
      | cons => cases same
  | @token t v ps qs bound longest _ ih =>
    cases k with
    | nil =>
      have empty := (List.append_eq_nil_iff.mp same).1
      exact absurd (List.map_eq_nil_iff.mp empty) (definite.filled t v bound)
    | slot =>
      cases t with
      | nil => exact absurd rfl (definite.filled [] v bound)
      | cons => cases same
    | @token t' v' ps' _ boundToo longestToo later =>
      have stands : t'.map .char <+: t.map .char ++ ps := same ▸ List.prefix_append _ ps'
      have standsToo : t.map .char <+: t'.map .char ++ ps' := same ▸ List.prefix_append _ ps
      have lengths : t.length = t'.length :=
        Nat.le_antisymm (longestToo t v bound standsToo) (longest t' v' boundToo stands)
      obtain ⟨mapped, rfl⟩ := List.append_inj same (by simpa using lengths)
      cases (List.map_injective_iff.mpr fun _ _ => Piece.char.inj) mapped
      rw [definite.single t v v' bound boundToo, ih later rfl]
    | copy free _ => exact absurd (same ▸ List.prefix_append _ ps) (free t v bound)
  | @copy c ps qs free _ ih =>
    cases k with
    | nil | slot => cases same
    | @token t v ps' _ bound _ _ =>
      exact absurd (same ▸ List.prefix_append _ ps') (free t v bound)
    | copy _ later =>
      cases same
      rw [ih later rfl]

/-! ## Native tokens -/

/-- Wherever these units stand in the filled pieces, they are the pieces' own. -/
def Native (V : List Char → List Char) (ps : List Piece) (t : List Char) : Prop :=
  ∀ before after, fillUnits V ps = before ++ (t ++ after) →
    ∃ front back, ps = front ++ (t.map .char ++ back) ∧ fillUnits V front = before

theorem native_chars (V : List Char → List Char) (cs t : List Char) :
    Native V (cs.map .char) t := by
  intro before after same
  rw [fillUnits_chars] at same
  subst same
  exact ⟨before.map .char, after.map .char, by simp, fillUnits_chars before⟩

theorem native_of_not_mem {a : Char} (mem : a ∈ t) (absent : a ∉ fillUnits V ps) :
    Native V ps t := by
  intro before after same
  refine absurd ?_ absent
  simp [same, mem]

/-- A token is native when its first unit stands nowhere else. -/
theorem native_of_once {a : Char} (before : a ∉ fillUnits V front) (within : a ∉ t)
    (after : a ∉ fillUnits V back) :
    Native V (front ++ ((a :: t).map .char ++ back)) (a :: t) := by
  intro others rest same
  simp only [fillUnits_append, fillUnits_chars, List.cons_append] at same
  rcases List.append_eq_append_iff.mp same with ⟨between, left, right⟩ | ⟨between, left, right⟩
  · cases between with
    | nil => exact ⟨front, back, rfl, by simpa using left.symm⟩
    | cons d between =>
      simp only [List.cons_append, List.cons.injEq] at right
      have mem : a ∈ t ++ fillUnits V back := by simp [right.2]
      rcases List.mem_append.mp mem with inside | behind
      · exact absurd inside within
      · exact absurd behind after
  · cases between with
    | nil => exact ⟨front, back, rfl, by simpa using left⟩
    | cons d between =>
      simp only [List.cons_append, List.cons.injEq] at right
      simp [left, right.1] at before

/-- A token that stands at a place of the template's own text is seen there before the endpoints are
filled in. -/
theorem Native.begins (native : Native V (.char c :: ps) t) (stands : t <+: c :: fillUnits V ps) :
    t.map .char <+: .char c :: ps := by
  obtain ⟨after, same⟩ := stands
  obtain ⟨front, back, split, empty⟩ := native [] after (by simp [pieceUnits, same])
  cases front with
  | nil => exact ⟨back, split.symm⟩
  | cons q front =>
    cases split
    simp [pieceUnits] at empty

theorem Native.tail (native : Native V (p :: ps) t) (filled : t ≠ []) : Native V ps t := by
  intro before after same
  obtain ⟨front, back, split, left⟩ := native (pieceUnits V p ++ before) after (by simp [same])
  cases front with
  | nil =>
    -- A token that began with the first piece would stand before anything that this piece gives.
    cases t with
    | nil => exact absurd rfl filled
    | cons a t =>
      cases split
      simp [pieceUnits] at left
  | cons q front =>
    cases split
    exact ⟨front, back, rfl, by simpa using left⟩

theorem Native.drop (native : Native V (front ++ ps) t) (filled : t ≠ []) : Native V ps t := by
  induction front with
  | nil => exact native
  | cons p front ih => exact ih (native.tail filled)

/-- No token begins inside of a value. -/
theorem Native.not_inside {later : List Char} (native : Native V (.slot name :: ps) t)
    (filled : t ≠ []) {before : List Char} (inside : V name = before ++ c :: later) :
    ¬t <+: c :: (later ++ fillUnits V ps) := by
  rintro ⟨after, same⟩
  have stands : fillUnits V (.slot name :: ps) = before ++ (t ++ after) := by
    simp [pieceUnits, inside, same]
  obtain ⟨front, back, split, left⟩ := native before after stands
  cases front with
  | nil =>
    cases t with
    | nil => exact filled rfl
    | cons a t => cases split
  | cons q front =>
    cases split
    simp [pieceUnits, inside] at left

theorem Rewrites.copies (later : Rewrites binds rest out)
    (free : ∀ before c after, value = before ++ c :: after →
      ∀ t v, binds t v → ¬t <+: c :: (after ++ rest)) :
    Rewrites binds (value ++ rest) (value ++ out) := by
  induction value with
  | nil => exact later
  | cons c value ih =>
    refine .copy (free [] c value rfl) (ih ?_)
    intro before d after same
    exact free (c :: before) d after (by simp [same])

/-- Where tokens are native, they can as well be replaced before the endpoints are filled in. -/
theorem Scans.rewrites (scan : Scans binds ps qs) (filled : ∀ t v, binds t v → t ≠ [])
    (native : ∀ t v, binds t v → Native V ps t) :
    Rewrites binds (fillUnits V ps) (fillUnits V qs) := by
  induction scan with
  | nil => exact .nil
  | @slot name ps qs _ ih =>
    have later := ih fun t v bound => (native t v bound).tail (filled t v bound)
    apply later.copies
    intro before c after inside t v bound
    exact (native t v bound).not_inside (filled t v bound) inside
  | @token t v ps qs bound longest _ ih =>
    have later := ih fun t' v' other => (native t' v' other).drop (filled t' v' other)
    simp only [fillUnits_append, fillUnits_chars]
    refine .token bound ?_ later
    intro t' v' other stands
    apply longest t' v' other
    cases t with
    | nil => exact absurd rfl (filled [] v bound)
    | cons c t => exact (native t' v' other).begins (by simpa using stands)
  | @copy c ps qs free _ ih =>
    have later := ih fun t v bound => (native t v bound).tail (filled t v bound)
    refine .copy ?_ later
    intro t v bound stands
    exact free t v bound ((native t v bound).begins stands)

/-! ## Placeholders that are left -/

/-- A text is free of placeholders when none stands anywhere in it. -/
theorem Splits.slots_eq_nil_iff {f : Form} (split : Splits f cs ps) :
    ps.filterMap Piece.slot? = [] ↔ ∀ name, f.IsName name → ¬f.write name <:+: cs := by
  induction split with
  | nil => simp [Form.write]
  | @slot name rest ps named _ _ =>
    refine iff_of_false (by simp [Piece.slot?]) ?_
    intro free
    exact free name named (List.prefix_append _ rest).isInfix
  | @char c rest ps bare _ ih =>
    rw [List.filterMap_cons_none rfl, ih]
    constructor
    · intro free name named inside
      rcases List.infix_cons_iff.mp inside with begins | inside
      · exact bare name named begins
      · exact free name named inside
    · intro free name named inside
      exact free name named (inside.trans (List.suffix_cons c rest).isInfix)

theorem Native.infix_iff (native : Native V ps t) :
    t <:+: fillUnits V ps ↔ t.map .char <:+: ps := by
  constructor
  · rintro ⟨before, after, same⟩
    obtain ⟨front, back, split, _⟩ := native before after (by simp [← same])
    exact ⟨front, back, by simp [split]⟩
  · rintro ⟨front, back, rfl⟩
    exact ⟨fillUnits V front, fillUnits V back, by simp⟩

end Template

end Walkthrough
