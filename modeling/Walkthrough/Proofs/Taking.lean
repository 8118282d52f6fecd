import Walkthrough.Proofs.Verbatim

/-!
# Tokens that are taken out of a text

`Template.Takes` is the scan for tokens that leaves a slot for each token that it takes. What is put
in for the tokens comes into the slots (`Template.Takes.rewrites`), and the units around them are
those of the text. Units of the text are either left as they are or shared with a taken token
(`Template.Takes.own_or_touched`), and a token stands across units that are left only when it begins
inside of a taken one (`Template.Takes.apart`).
-/

namespace Walkthrough.Template

variable {tokens : List Char → Prop} {binds : Binding} {V : List Char → List Char}
  {ps front back : List Piece} {c : Char} {cs t w before after rest out : List Char}
  {start size : Nat}

/-! ## The scan -/

/-- The units are scanned for tokens, and these are the units with a slot for each token taken. -/
inductive Takes (tokens : List Char → Prop) : List Char → List Piece → Prop
  | nil : Takes tokens [] []
  | token {t rest : List Char} {ps : List Piece} (used : tokens t)
      (longest : ∀ t', tokens t' → t' <+: t ++ rest → t'.length ≤ t.length)
      (later : Takes tokens rest ps) : Takes tokens (t ++ rest) (.slot t :: ps)
  | copy {c : Char} {rest : List Char} {ps : List Piece} (free : ∀ t, tokens t → ¬t <+: c :: rest)
      (later : Takes tokens rest ps) : Takes tokens (c :: rest) (.char c :: ps)

/-- The units that were scanned. -/
def source (ps : List Piece) : List Char :=
  fillUnits id ps

/-- The units that are left when the tokens are taken out. -/
def residue (ps : List Piece) : List Char :=
  fillUnits (fun _ => []) ps

@[simp] theorem source_nil : source [] = [] := rfl

@[simp] theorem source_char : source (.char c :: ps) = c :: source ps := rfl

@[simp] theorem source_slot : source (.slot t :: ps) = t ++ source ps := rfl

@[simp] theorem source_append : source (front ++ back) = source front ++ source back :=
  fillUnits_append

@[simp] theorem source_chars (cs : List Char) : source (cs.map .char) = cs :=
  fillUnits_chars cs

@[simp] theorem residue_append : residue (front ++ back) = residue front ++ residue back :=
  fillUnits_append

@[simp] theorem residue_chars (cs : List Char) : residue (cs.map .char) = cs :=
  fillUnits_chars cs

theorem Takes.source_eq (takes : Takes tokens cs ps) : source ps = cs := by
  induction takes with
  | nil => rfl
  | token _ _ _ ih => rw [source_slot, ih]
  | copy _ _ ih => rw [source_char, ih]

/-- The values of the tokens come into the slots. -/
theorem Takes.rewrites (takes : Takes tokens cs ps) (given : ∀ t, tokens t → binds t (V t))
    (used : ∀ t v, binds t v → tokens t) : Rewrites binds cs (fillUnits V ps) := by
  induction takes with
  | nil => exact .nil
  | token known longest _ ih =>
    exact .token (given _ known) (fun t' v' bound => longest t' (used t' v' bound)) ih
  | copy free _ ih => exact .copy (fun t v bound => free t (used t v bound)) ih

theorem Rewrites.exists_takes (rewrites : Rewrites binds cs out) :
    ∃ ps, Takes (fun t => ∃ v, binds t v) cs ps := by
  induction rewrites with
  | nil => exact ⟨[], .nil⟩
  | token bound longest _ ih =>
    obtain ⟨ps, later⟩ := ih
    exact ⟨_, .token ⟨_, bound⟩ (fun t' ⟨v', known⟩ => longest t' v' known) later⟩
  | copy free _ ih =>
    obtain ⟨ps, later⟩ := ih
    exact ⟨_, .copy (fun t ⟨v, known⟩ => free t v known) later⟩

/-! ## Places in the text -/

/-- A taken token shares a unit with the `size` units behind the first `start`. -/
def Touched (ps : List Piece) (start size : Nat) : Prop :=
  ∃ front t back, ps = front ++ .slot t :: back ∧ (source front).length < start + size ∧
    start < (source front).length + t.length

/-- A taken token begins before the first `n` units end and goes on behind them. -/
def Inside (ps : List Piece) (n : Nat) : Prop :=
  Touched ps n 0

theorem Touched.char (h : Touched ps start size) : Touched (.char c :: ps) (start + 1) size := by
  obtain ⟨front, t, back, rfl, first, last⟩ := h
  refine ⟨.char c :: front, t, back, rfl, ?_, ?_⟩ <;>
  · rw [source_char, List.length_cons]
    omega

theorem Touched.slot (h : Touched ps start size) :
    Touched (.slot t :: ps) (t.length + start) size := by
  obtain ⟨front, u, back, rfl, first, last⟩ := h
  refine ⟨.slot t :: front, u, back, rfl, ?_, ?_⟩ <;>
  · rw [source_slot, List.length_append]
    omega

/-- A slot stands before or behind units that are left as they are. -/
theorem slot_beside {first later : List Piece}
    (same : front ++ (w.map .char ++ back) = first ++ .slot t :: later) :
    (∃ between, front = first ++ .slot t :: between) ∨
      ∃ between, first = front ++ (w.map .char ++ between) := by
  rcases List.append_eq_append_iff.mp same with ⟨between, rfl, inner⟩ | ⟨between, rfl, inner⟩
  · rcases List.append_eq_append_iff.mp inner with ⟨middle, rfl, _⟩ | ⟨middle, chars, behind⟩
    · exact Or.inr ⟨middle, rfl⟩
    · cases middle with
      | nil => exact Or.inr ⟨[], by simpa using chars.symm⟩
      | cons p middle =>
        cases behind
        have mem : Piece.slot t ∈ w.map Piece.char := by simp [chars]
        simp at mem
  · cases between with
    | nil =>
      cases w with
      | nil => exact Or.inr ⟨[], by simp⟩
      | cons a w => cases inner
    | cons p between =>
      cases inner
      exact Or.inl ⟨between, rfl⟩

/-- No token is taken out of units that are left as they are. -/
theorem not_touched : ¬Touched (front ++ (w.map .char ++ back)) (source front).length w.length := by
  rintro ⟨first, t, later, same, begins, ends⟩
  rcases slot_beside same with ⟨between, rfl⟩ | ⟨between, rfl⟩
  · simp only [source_append, source_slot, List.length_append] at ends
    omega
  · simp only [source_append, source_chars, List.length_append] at begins
    omega

theorem Takes.begins_own_or_touched (takes : Takes tokens cs ps) (filled : ∀ t, tokens t → t ≠ [])
    (same : cs = w ++ after) : Touched ps 0 w.length ∨ ∃ back, ps = w.map .char ++ back := by
  induction takes generalizing w with
  | nil =>
    obtain ⟨rfl, _⟩ := List.append_eq_nil_iff.mp same.symm
    exact Or.inr ⟨[], rfl⟩
  | @token t rest ps used _ _ _ =>
    cases w with
    | nil => exact Or.inr ⟨_, rfl⟩
    | cons a w =>
      have some := List.length_pos_iff.mpr (filled t used)
      exact Or.inl ⟨[], t, ps, rfl, by simp, by simpa using some⟩
  | @copy c rest ps _ _ ih =>
    cases w with
    | nil => exact Or.inr ⟨_, rfl⟩
    | cons a w =>
      cases same
      rcases ih rfl with ⟨front, t, back, rfl, first, last⟩ | ⟨back, rfl⟩
      · left
        refine ⟨.char c :: front, t, back, rfl, ?_, ?_⟩ <;>
        · simp only [source_char, List.length_cons]
          omega
      · exact Or.inr ⟨back, rfl⟩

theorem exists_append_of_le (same : t ++ rest = before ++ after)
    (behind : t.length ≤ before.length) :
    ∃ between, before = t ++ between ∧ rest = between ++ after := by
  obtain ⟨between, rfl⟩ := List.prefix_of_prefix_length_le (same ▸ List.prefix_append t rest)
    (List.prefix_append before after) behind
  rw [List.append_assoc, List.append_cancel_left_eq] at same
  exact ⟨between, rfl, same⟩

/-- Units of the text are left as they are, unless a taken token shares one of them. -/
theorem Takes.own_or_touched (takes : Takes tokens cs ps) (filled : ∀ t, tokens t → t ≠ [])
    (same : cs = before ++ (w ++ after)) (some : w ≠ []) : Touched ps before.length w.length ∨
      ∃ front back, ps = front ++ (w.map .char ++ back) ∧ source front = before := by
  have size := List.length_pos_iff.mpr some
  induction takes generalizing before with
  | nil =>
    have empty := (List.append_eq_nil_iff.mp (List.append_eq_nil_iff.mp same.symm).2).1
    exact absurd empty some
  | @token t rest ps used longest later ih =>
    rcases Nat.lt_or_ge before.length t.length with inside | behind
    · exact Or.inl ⟨[], t, ps, rfl, by simp; omega, by simpa using inside⟩
    · obtain ⟨between, rfl, stands⟩ := exists_append_of_le same behind
      rcases ih stands with touched | ⟨front, back, rfl, rfl⟩
      · left
        rw [List.length_append]
        exact touched.slot
      · exact Or.inr ⟨.slot t :: front, back, rfl, rfl⟩
  | @copy c rest ps free later ih =>
    cases before with
    | nil =>
      have whole : Takes tokens (c :: rest) (.char c :: ps) := .copy free later
      rcases whole.begins_own_or_touched filled (w := w) same with touched | ⟨back, own⟩
      · exact Or.inl touched
      · exact Or.inr ⟨[], back, own, rfl⟩
    | cons a before =>
      cases same
      rcases ih rfl with touched | ⟨front, back, rfl, rfl⟩
      · exact Or.inl touched.char
      · exact Or.inr ⟨.char c :: front, back, rfl, rfl⟩

/-- Wherever a token stands, one was taken that covers its first unit; one that begins there is not
shorter. -/
theorem Takes.covers (takes : Takes tokens cs ps) (used : tokens t) (some : t ≠ [])
    (same : cs = before ++ (t ++ after)) : ∃ front u back, ps = front ++ .slot u :: back ∧
      (source front).length ≤ before.length ∧ before.length < (source front).length + u.length ∧
        ((source front).length = before.length → t.length ≤ u.length) := by
  induction takes generalizing before with
  | nil =>
    have empty := (List.append_eq_nil_iff.mp (List.append_eq_nil_iff.mp same.symm).2).1
    exact absurd empty some
  | @token u rest ps _ longest _ ih =>
    rcases Nat.lt_or_ge before.length u.length with inside | behind
    · refine ⟨[], u, ps, rfl, by simp, by simpa using inside, ?_⟩
      intro here
      have first : before = [] := List.length_eq_zero_iff.mp here.symm
      rw [first, List.nil_append] at same
      exact longest t used (same ▸ List.prefix_append t after)
    · obtain ⟨between, rfl, stands⟩ := exists_append_of_le same behind
      obtain ⟨front, u', back, rfl, starts, ends, long⟩ := ih stands
      refine ⟨.slot u :: front, u', back, rfl, ?_, ?_, ?_⟩ <;>
      · simp only [source_slot, List.length_append]
        omega
  | @copy c rest ps free _ ih =>
    cases before with
    | nil => exact absurd (same ▸ List.prefix_append t after) (free t used)
    | cons a before =>
      cases same
      obtain ⟨front, u, back, rfl, starts, ends, long⟩ := ih rfl
      refine ⟨.char c :: front, u, back, rfl, ?_, ?_, ?_⟩ <;>
      · simp only [source_char, List.length_cons]
        omega

/-- A token that stands in the text stands clear of units that no taken token touches, or begins
inside of a taken one. -/
theorem Takes.apart (takes : Takes tokens cs ps) (filled : ∀ t, tokens t → t ≠ [])
    (untouched : ¬Touched ps start size) (used : tokens t) (same : cs = before ++ (t ++ after)) :
    Inside ps before.length ∨ before.length + t.length ≤ start ∨ start + size ≤ before.length := by
  obtain ⟨front, u, back, rfl, starts, ends, longest⟩ := takes.covers used (filled t used) same
  rcases Nat.lt_or_eq_of_le starts with earlier | here
  · exact Or.inl ⟨front, u, back, rfl, earlier, ends⟩
  · right
    by_contra across
    have long := longest here
    exact untouched ⟨front, u, back, rfl, by omega, by omega⟩

end Walkthrough.Template
