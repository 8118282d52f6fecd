import Walkthrough.Proofs.Checks
import Walkthrough.Proofs.Words

/-!
# Words that stand for themselves

A text is read as the one word that it is if and only if it is literal: it has a character, and none
of its characters is blank, a quote or a backslash. For that the characters of all words are counted.
Every quote and every blank character outside of quotes is missing from the count, and so is the
backslash of an escape.

A text in front of others is read apart from them when it closes all its quotations.
-/

namespace Walkthrough.Words

open Walkthrough.Checks (map_ok_iff)
open Walkthrough.Text (isBlank)

variable {mode : Mode} {word : Partial} {c : Char} {q : Quotation} {words : List String}
  {text front rest : List Char}

/-! ## Reading a text in front of another -/

/-- The words that end in a text, and where the reader stands behind it. -/
def walk (mode : Mode) (word : Partial) : List Char → List String × Mode × Partial
  | [] => ([], mode, word)
  | c :: rest =>
    let (ended, mode, word) := step mode word c
    let (others, stand) := walk mode word rest
    (ended ++ others, stand)

theorem scan_append (mode : Mode) (word : Partial) (text rest : List Char) :
    scan mode word (text ++ rest) =
      (scan (walk mode word text).2.1 (walk mode word text).2.2 rest).map
        ((walk mode word text).1 ++ ·) := by
  induction text generalizing mode word with
  | nil =>
    show scan mode word rest = (scan mode word rest).map fun words => words
    cases scan mode word rest <;> rfl
  | cons c text ih =>
    rw [List.cons_append, scan]
    simp only [walk, ih]
    cases scan _ _ rest with
    | error q => rfl
    | ok words => simp [Except.map]

theorem stands_walk (h : Stands mode text) (word : Partial) (rest : List Char) :
    Stands (walk mode word rest).2.1 (text ++ rest) := by
  induction rest generalizing mode word text with
  | nil => simpa [walk] using h
  | cons c rest ih =>
    rw [List.append_cons]
    exact ih (h.step word c) _

theorem stands_of_walk (reached : (walk .bare none text).2.1 = mode) : Stands mode text := by
  have start : Stands .bare [] := Closed.nil
  rw [← reached]
  exact stands_walk start none text

/-- The reader stands outside of quotes, and no backslash escapes the next character. -/
def Outside (mode : Mode) : Prop :=
  mode = .bare ∨ mode = .escapeReturn

/-- A quotation can be opened behind a text if and only if all quotations in it are closed. -/
theorem outside_walk_iff : Outside (walk .bare none text).2.1 ↔ Closed text := by
  constructor
  · rintro (reached | reached)
    · exact stands_of_walk reached
    · exact stands_of_walk reached
  · intro closed
    -- A single quote behind the text opens a quotation that is never closed.
    have single : Open .single ['\x27'] := .single List.not_mem_nil
    have opened := scan_closed_error closed (scan_error_of_open single) none
    rw [scan_append, map_eq_error_iff] at opened
    generalize (walk .bare none text).2.2 = word at opened
    cases mode : (walk .bare none text).2.1 with
    | bare => exact .inl rfl
    | escapeReturn => exact .inr rfl
    | escape | single | double | doubleEscape =>
      rw [mode] at opened
      cases opened

/-- Outside of quotes a space ends the words that the end of the text would end. -/
theorem step_space (outside : Outside mode) (word : Partial) :
    ∃ ended, atEnd mode word = .ok ended ∧ step mode word ' ' = (ended, .bare, none) := by
  have blank : isBlank ' ' = true := by decide
  rcases outside with rfl | rfl
  · exact ⟨finished word, rfl, step_of_isBlank blank word⟩
  · exact ⟨finished (extend word '\r'), rfl, step_of_isBlank blank (extend word '\r')⟩

/-- A space behind a text that closes its quotations ends its last word. -/
theorem scan_space_of_closed (closed : Closed text) :
    ∃ words, scan .bare none text = .ok words ∧ ∀ rest,
      scan .bare none (text ++ ' ' :: rest) = (scan .bare none rest).map (words ++ ·) := by
  obtain ⟨ended, last, space⟩ := step_space (outside_walk_iff.mpr closed) (walk .bare none text).2.2
  refine ⟨(walk .bare none text).1 ++ ended, ?_, fun rest => ?_⟩
  · have whole := scan_append .bare none text []
    rw [List.append_nil] at whole
    rw [whole, scan, last]
    rfl
  · rw [scan_append, scan, space]
    show ((scan .bare none rest).map (ended ++ ·)).map ((walk .bare none text).1 ++ ·) = _
    cases scan .bare none rest with
    | error q => rfl
    | ok words => simp [Except.map]

/-- A text that leaves no quotation open is closed or ends with a backslash. -/
theorem closed_or_escape (shut : ∀ q, ¬LeftOpen q text) :
    Closed text ∨ (walk .bare none text).2.1 = .escape := by
  have stands : Stands (walk .bare none text).2.1 text := stands_of_walk rfl
  have readable (q : Quotation) : atEnd (walk .bare none text).2.1 none ≠ .error q := fun failed =>
    shut q (leftOpen_of_atEnd stands failed)
  cases mode : (walk .bare none text).2.1 with
  | bare => exact .inl (outside_walk_iff.mp (.inl mode))
  | escapeReturn => exact .inl (outside_walk_iff.mp (.inr mode))
  | escape => exact .inr rfl
  | single =>
    rw [mode] at readable
    exact absurd rfl (readable .single)
  | double | doubleEscape =>
    rw [mode] at readable
    exact absurd rfl (readable .double)

/-! ## Counting characters -/

/-- The characters of all words. -/
def total (words : List String) : Nat :=
  (words.flatMap String.toList).length

/-- The characters that are read but stand in no word that has ended; a backslash that may yet be
dropped is not among them. -/
def pending (mode : Mode) (word : Partial) : Nat :=
  (word.getD []).length + if mode = .escapeReturn ∨ mode = .doubleEscape then 1 else 0

@[simp] theorem pending_bare (word : Partial) : pending .bare word = (word.getD []).length := rfl

@[simp] theorem total_nil : total [] = 0 := rfl

@[simp] theorem total_append (first others : List String) :
    total (first ++ others) = total first + total others := by
  simp [total]

@[simp] theorem total_finished (word : Partial) : total (finished word) = (word.getD []).length := by
  cases word <;> simp [total, finished]

@[simp] theorem length_extend (word : Partial) (c : Char) :
    ((extend word c).getD []).length = (word.getD []).length + 1 := by
  simp [extend]

@[simp] theorem length_begun (word : Partial) :
    ((begun word).getD []).length = (word.getD []).length := by
  simp [begun]

/-- True of the characters that stand for themselves outside of quotes. -/
def Visible (c : Char) : Prop :=
  c ≠ '\x27' ∧ c ≠ '\x22' ∧ c ≠ '\\' ∧ isBlank c = false

theorem bareStep_of_visible (visible : Visible c) (word : Partial) :
    bareStep word c = ([], .bare, extend word c) := by
  obtain ⟨single, double, backslash, visible⟩ := visible
  simp [bareStep, single, double, backslash, visible]

/-- Outside of quotes a character that is not visible adds nothing. -/
theorem pending_of_not_visible (hidden : ¬Visible c) (word : Partial) :
    total (bareStep word c).1 + pending (bareStep word c).2.1 (bareStep word c).2.2 ≤
      (word.getD []).length := by
  unfold bareStep
  split_ifs with single double backslash blank
  · simp [pending]
  · simp [pending]
  · simp [pending]
  · simp [pending]
  · exact absurd ⟨single, double, backslash, by simpa using blank⟩ hidden

theorem pending_bareStep (word : Partial) (c : Char) :
    total (bareStep word c).1 + pending (bareStep word c).2.1 (bareStep word c).2.2 ≤
      (word.getD []).length + 1 := by
  by_cases visible : Visible c
  · simp [bareStep_of_visible visible, pending]
  · exact Nat.le_succ_of_le (pending_of_not_visible visible word)

/-- One character adds one at most. -/
theorem pending_step (mode : Mode) (word : Partial) (c : Char) :
    total (step mode word c).1 + pending (step mode word c).2.1 (step mode word c).2.2 ≤
      pending mode word + 1 := by
  cases mode with
  | bare => exact pending_bareStep word c
  | escapeReturn =>
    simp only [step]
    split
    · simp [pending]
      omega
    · simpa [pending] using pending_bareStep (extend word '\r') c
  | escape | single | double | doubleEscape =>
    simp only [step]
    split_ifs <;> simp [pending] <;> omega

theorem scan_cons_ok_iff : scan mode word (c :: rest) = .ok words ↔ ∃ others,
    scan (step mode word c).2.1 (step mode word c).2.2 rest = .ok others ∧
      (step mode word c).1 ++ others = words :=
  map_ok_iff

theorem total_scan (read : scan mode word text = .ok words) :
    total words ≤ pending mode word + text.length := by
  induction text generalizing mode word words with
  | nil =>
    cases mode with
    | bare | escape | escapeReturn =>
      cases read
      simp [pending]
    | single | double | doubleEscape => cases read
  | cons c text ih =>
    obtain ⟨others, later, rfl⟩ := scan_cons_ok_iff.mp read
    have first := pending_step mode word c
    have rest := ih later
    rw [total_append, List.length_cons]
    omega

/-- Outside of quotes all characters count only if all are visible. -/
theorem visible_of_total (read : scan .bare word text = .ok words)
    (all : total words = (word.getD []).length + text.length) : ∀ c ∈ text, Visible c := by
  induction text generalizing word words with
  | nil => simp
  | cons c text ih =>
    obtain ⟨others, later, rfl⟩ := scan_cons_ok_iff.mp read
    rw [total_append, List.length_cons] at all
    by_cases visible : Visible c
    · have added : step .bare word c = ([], .bare, extend word c) := bareStep_of_visible visible word
      rw [added] at later all
      refine List.forall_mem_cons.mpr ⟨visible, ih later ?_⟩
      rw [total_nil] at all
      rw [length_extend]
      omega
    · -- One character is missing, and the others add one each at most.
      have first : total (step .bare word c).1 +
          pending (step .bare word c).2.1 (step .bare word c).2.2 ≤ (word.getD []).length :=
        pending_of_not_visible visible word
      have rest := total_scan later
      omega

/-! ## Literal words -/

/-- The word has characters, and all of them stand for themselves. -/
def Literal (w : String) : Prop :=
  w ≠ "" ∧ ∀ c ∈ w.toList, Visible c

theorem closed_of_visible (visible : ∀ c ∈ text, Visible c) : Closed text := by
  induction text with
  | nil => exact .nil
  | cons c text ih =>
    obtain ⟨⟨single, double, backslash, seen⟩, later⟩ := List.forall_mem_cons.mp visible
    exact .item (.plain single double backslash seen) (ih later)

/-- A text is read as the one word that it is if and only if it is literal. -/
theorem split_eq_self_iff {w : String} : split w = .ok [w] ↔ Literal w := by
  constructor
  · intro read
    have all : total [w] = (Option.getD none ([] : List Char)).length + w.toList.length := by
      simp [total, String.length_toList]
    refine ⟨?_, visible_of_total read all⟩
    rintro rfl
    cases read
  · rintro ⟨some, visible⟩
    have nonempty : w.toList ≠ [] := mt String.toList_eq_nil_iff.mp some
    have spelled := Spelling.plain nonempty visible .nil
    have alone := scan_spelling spelled none []
    simpa [split, extended, scan, atEnd, finished] using alone

end Walkthrough.Words
