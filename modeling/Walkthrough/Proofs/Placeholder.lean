import Walkthrough.Template
import Walkthrough.Proofs.Text

/-!
# Placeholders in a text

A text is split from left to right (`Template.Splits`): where a placeholder stands it is taken as a
whole, and any other character is taken alone. Brackets are no characters of names, so there is one
way to do this, and it is what `Template.pieces` finds (`Template.splits_iff`).
-/

namespace Walkthrough.Template

variable {f : Form} {c : Char} {cs rest more name : List Char} {ps qs : List Piece}

/-! ## Names -/

/-- A name that can stand between the brackets. -/
def Form.IsName (f : Form) (name : List Char) : Prop :=
  ∃ c more, name = c :: more ∧ f.isFirst c = true ∧ ∀ a ∈ more, f.isNext a = true

/-- The placeholder with the given name. -/
def Form.write (f : Form) (name : List Char) : List Char :=
  f.opening :: (name ++ [f.closing])

/-- The brackets are no characters of names. -/
structure Form.Bracketed (f : Form) : Prop where
  opening : f.isFirst f.opening = false ∧ f.isNext f.opening = false
  closing : f.isFirst f.closing = false ∧ f.isNext f.closing = false

theorem endpointForm_bracketed : endpointForm.Bracketed where
  opening := by decide
  closing := by decide

theorem tokenForm_bracketed : tokenForm.Bracketed where
  opening := by decide
  closing := by decide

theorem Form.continues_eq_false (h : f.isFirst c = false ∧ f.isNext c = false)
    (name : List Char) : f.continues name c = false := by
  unfold Form.continues
  split
  · exact h.1
  · exact h.2

theorem Form.IsName.ne_nil (h : f.IsName name) : name ≠ [] := by
  obtain ⟨c, more, rfl, _⟩ := h
  exact List.cons_ne_nil c more

theorem Form.IsName.continues {front : List Char} (h : f.IsName (front ++ c :: more)) :
    f.continues front.reverse c = true := by
  obtain ⟨a, others, same, first, next⟩ := h
  cases front with
  | nil =>
    cases same
    simpa [Form.continues] using first
  | cons b front =>
    cases same
    have inside : c ∈ front ++ c :: more := by simp
    simpa [Form.continues] using next c inside

theorem Form.Bracketed.opening_not_mem (h : f.Bracketed) (named : f.IsName name) :
    f.opening ∉ name := by
  intro mem
  obtain ⟨front, more, rfl⟩ := List.append_of_mem mem
  have continues := named.continues
  rw [Form.continues_eq_false h.opening] at continues
  cases continues

theorem Form.Bracketed.closing_not_mem (h : f.Bracketed) (named : f.IsName name) :
    f.closing ∉ name := by
  intro mem
  obtain ⟨front, more, rfl⟩ := List.append_of_mem mem
  have continues := named.continues
  rw [Form.continues_eq_false h.closing] at continues
  cases continues

/-! ## Splitting -/

/-- Nothing that begins with these characters is a placeholder. -/
def Form.Bare (f : Form) (cs : List Char) : Prop :=
  ∀ name, f.IsName name → ¬f.write name <+: cs

/-- The characters are split into these pieces. -/
inductive Splits (f : Form) : List Char → List Piece → Prop
  | nil : Splits f [] []
  | slot {name rest : List Char} {ps : List Piece} (named : f.IsName name)
      (later : Splits f rest ps) : Splits f (f.write name ++ rest) (.slot name :: ps)
  | char {c : Char} {rest : List Char} {ps : List Piece} (bare : f.Bare (c :: rest))
      (later : Splits f rest ps) : Splits f (c :: rest) (.char c :: ps)

theorem Form.bare_of_ne (h : c ≠ f.opening) (rest : List Char) : f.Bare (c :: rest) := by
  intro name _ begins
  exact h (List.cons_prefix_cons.mp begins).1.symm

theorem Splits.unique_of_eq (bracketed : f.Bracketed) (h : Splits f cs ps) {others : List Char}
    (k : Splits f others qs) (same : cs = others) : ps = qs := by
  induction h generalizing others qs with
  | nil =>
    cases k with
    | nil => rfl
    | slot => cases same
    | char => cases same
  | @slot name rest ps named later ih =>
    cases k with
    | nil => cases same
    | @slot other beyond _ namedToo laterToo =>
      -- Both names end at the first closing bracket.
      have inner : name ++ f.closing :: rest = other ++ f.closing :: beyond := by
        simpa [Form.write] using same
      have cuts := congrArg (Text.cutChars f.closing) inner
      rw [Text.cutChars_append (bracketed.closing_not_mem named),
        Text.cutChars_append (bracketed.closing_not_mem namedToo)] at cuts
      cases cuts
      rw [ih laterToo rfl]
    | char bare _ => exact absurd (same ▸ List.prefix_append _ _) (bare name named)
  | char bare later ih =>
    cases k with
    | nil => cases same
    | @slot other _ _ named _ => exact absurd (same ▸ List.prefix_append _ _) (bare other named)
    | char _ laterToo =>
      cases same
      rw [ih laterToo rfl]

theorem Splits.unique (bracketed : f.Bracketed) (h : Splits f cs ps) (k : Splits f cs qs) :
    ps = qs :=
  h.unique_of_eq bracketed k rfl

theorem Splits.chars (h : Splits f cs ps) (plain : ∀ c ∈ more, c ≠ f.opening) :
    Splits f (more ++ cs) (more.map .char ++ ps) := by
  induction more with
  | nil => exact h
  | cons c more ih =>
    obtain ⟨first, others⟩ := List.forall_mem_cons.mp plain
    exact .char (Form.bare_of_ne first _) (ih others)

/-- A character with which a name neither goes on nor ends. -/
def Form.Stops (f : Form) (c : Char) : Prop :=
  (f.isFirst c = false ∧ f.isNext c = false) ∧ c ≠ f.closing

theorem Form.IsName.of_mem (named : f.IsName name) (mem : c ∈ name) :
    f.isFirst c = true ∨ f.isNext c = true := by
  obtain ⟨a, more, rfl, first, next⟩ := named
  rcases List.mem_cons.mp mem with rfl | later
  · exact Or.inl first
  · exact Or.inr (next c later)

theorem Form.Bare.append {a : Char} (bare : f.Bare (a :: cs)) (stops : f.Stops c) :
    f.Bare (a :: (cs ++ c :: rest)) := by
  rintro name named ⟨tail, same⟩
  rw [← List.cons_append, List.append_eq_append_iff] at same
  rcases same with ⟨between, front, _⟩ | ⟨between, front, behind⟩
  · exact bare name named ⟨between, front.symm⟩
  · cases between with
    | nil => exact bare name named ⟨[], by simpa using front⟩
    | cons b between =>
      -- The placeholder would go on over the character at which it stops.
      cases behind
      have inside : c ∈ name ++ [f.closing] := by
        rw [(List.cons.inj front).2]
        simp
      rcases List.mem_append.mp inside with mem | last
      · obtain ⟨⟨first, next⟩, _⟩ := stops
        simpa [first, next] using named.of_mem mem
      · exact stops.2 (List.mem_singleton.mp last)

/-- What stands before a character at which a name stops is split by itself. -/
theorem Splits.append (front : Splits f cs ps) (stops : f.Stops c)
    (back : Splits f (c :: rest) qs) : Splits f (cs ++ c :: rest) (ps ++ qs) := by
  induction front with
  | nil => exact back
  | slot named _ ih =>
    rw [List.append_assoc]
    exact .slot named ih
  | char bare _ ih => exact .char (bare.append stops) ih

/-! ## What is read -/

/-- Characters, in reverse, with which a name can begin. -/
def Form.Begins (f : Form) (name : List Char) : Prop :=
  name = [] ∨ f.IsName name.reverse

theorem Form.Begins.cons (h : f.Begins name) (continues : f.continues name c = true) :
    f.Begins (c :: name) := by
  right
  rcases h with rfl | ⟨a, more, same, first, next⟩
  · exact ⟨c, [], rfl, by simpa [Form.continues] using continues, by simp⟩
  · refine ⟨a, more ++ [c], by rw [List.reverse_cons, same, List.cons_append], first, ?_⟩
    rw [List.forall_mem_append, List.forall_mem_singleton]
    refine ⟨next, ?_⟩
    have filled : name ≠ [] := by
      rintro rfl
      cases same
    simpa [Form.continues, filled] using continues

theorem Form.Bracketed.not_mem_of_begins (h : f.Bracketed) (begins : f.Begins name) :
    f.opening ∉ name.reverse ∧ f.closing ∉ name.reverse := by
  rcases begins with rfl | named
  · simp
  · exact ⟨h.opening_not_mem named, h.closing_not_mem named⟩

theorem Form.Bracketed.bare_of_end (h : f.Bracketed) (begins : f.Begins name) :
    f.Bare (f.opening :: name.reverse) := by
  intro other _ stands
  have inner := (List.cons_prefix_cons.mp stands).2
  exact (h.not_mem_of_begins begins).2 (inner.subset (by simp))

/-- When a character neither closes nor continues a name, no placeholder began before it. -/
theorem Form.Bracketed.bare_of_stop (h : f.Bracketed) (begins : f.Begins name)
    (closes : ¬(c = f.closing ∧ name ≠ [])) (continues : f.continues name c = false)
    (rest : List Char) : f.Bare (f.opening :: (name.reverse ++ c :: rest)) := by
  intro other named stands
  obtain ⟨tail, same⟩ := (List.cons_prefix_cons.mp stands).2
  rw [List.append_assoc, List.singleton_append, List.append_eq_append_iff] at same
  have unclosed := (h.not_mem_of_begins begins).2
  -- The name that would stand there is as long as what has been read, or shorter, or longer.
  rcases same with ⟨between, front, behind⟩ | ⟨between, front, behind⟩
  · cases between with
    | nil =>
      cases behind
      rw [List.append_nil] at front
      exact closes ⟨rfl, fun empty => named.ne_nil (by simp [← front, empty])⟩
    | cons b between =>
      cases behind
      exact unclosed (by simp [front])
  · cases between with
    | nil =>
      cases behind
      rw [List.append_nil] at front
      exact closes ⟨rfl, fun empty => named.ne_nil (by simp [front, empty])⟩
    | cons b between =>
      cases behind
      rw [front] at named
      have goesOn := named.continues
      rw [List.reverse_reverse, continues] at goesOn
      cases goesOn

theorem Form.Bracketed.splits_plain (h : f.Bracketed) (begins : f.Begins name)
    (bare : f.Bare (f.opening :: (name.reverse ++ cs))) (later : Splits f cs ps) :
    Splits f (f.opening :: (name.reverse ++ cs)) (f.plain name ++ ps) := by
  refine .char bare (later.chars ?_)
  intro c mem same
  exact (h.not_mem_of_begins begins).1 (same ▸ mem)

theorem piecesFrom_none_cons (f : Form) (c : Char) (rest : List Char) :
    piecesFrom f none (c :: rest) =
      if c = f.opening then piecesFrom f (some []) rest
      else .char c :: piecesFrom f none rest := rfl

theorem piecesFrom_some_cons (f : Form) (name : List Char) (c : Char) (rest : List Char) :
    piecesFrom f (some name) (c :: rest) =
      if c = f.closing && !name.isEmpty then .slot name.reverse :: piecesFrom f none rest
      else if f.continues name c then piecesFrom f (some (c :: name)) rest
      else if c = f.opening then f.plain name ++ piecesFrom f (some []) rest
      else f.plain name ++ .char c :: piecesFrom f none rest := rfl

/-- Reading goes on from a name that has begun as if the bracket were read again. -/
theorem Form.Bracketed.splits_piecesFrom (h : f.Bracketed) (cs : List Char) :
    Splits f cs (piecesFrom f none cs) ∧ ∀ name, f.Begins name →
      Splits f (f.opening :: (name.reverse ++ cs)) (piecesFrom f (some name) cs) := by
  -- Both readings at once: a bracket takes the first to the second, and the end of a name back.
  induction cs with
  | nil =>
    refine ⟨.nil, fun name begins => ?_⟩
    have split := h.splits_plain begins (by simpa using h.bare_of_end begins) .nil
    rwa [List.append_nil (f.plain name)] at split
  | cons c rest ih =>
    obtain ⟨outside, inside⟩ := ih
    constructor
    · rw [piecesFrom_none_cons]
      split
      next opens =>
        rw [opens]
        exact inside [] (Or.inl rfl)
      next plain => exact .char (Form.bare_of_ne plain rest) outside
    · intro name begins
      rw [piecesFrom_some_cons]
      have closes : (decide (c = f.closing) && !name.isEmpty) = true ↔
          c = f.closing ∧ name ≠ [] := by simp
      split
      next last =>
        obtain ⟨rfl, filled⟩ := closes.mp last
        have split := Splits.slot (begins.resolve_left filled) outside
        simpa [Form.write] using split
      next goesOn =>
        split
        next continues => simpa using inside (c :: name) (begins.cons continues)
        next stops =>
          rw [Bool.not_eq_true] at stops
          have bare := h.bare_of_stop begins (mt closes.mpr goesOn) stops rest
          split
          next opens =>
            have restart := inside [] (Or.inl rfl)
            rw [← opens] at restart
            exact h.splits_plain begins bare restart
          next plain =>
            have after := Splits.char (Form.bare_of_ne plain rest) outside
            exact h.splits_plain begins bare after

theorem Form.Bracketed.splits_iff (h : f.Bracketed) : Splits f cs ps ↔ pieces f cs = ps := by
  have split : Splits f cs (pieces f cs) := (h.splits_piecesFrom cs).1
  constructor
  · intro other
    exact split.unique h other
  · rintro rfl
    exact split

end Walkthrough.Template
