import Walkthrough.Proofs.Quoting

/-!
# Quoted words are read as they were

A word that is written by `Words.quote` is read as that word, whatever characters it holds, and the
blank characters or the joined line between two words separate them. So `Words.split` reads back a
`Words.line`.
-/

namespace Walkthrough.Words

open Walkthrough.Text (isBlank isWordChar isLetter isDigit)

variable {c : Char}

/-! ## Plain characters -/

theorem toNat_lt_of_isWordChar (h : isWordChar c = true) : c.toNat < 0x80 := by
  simp only [isWordChar, isLetter, isDigit, Bool.or_eq_true, Bool.and_eq_true, decide_eq_true_eq,
    beq_iff_eq, or_assoc, Char.le_def, UInt32.le_iff_toNat_le] at h
  rcases h with ⟨_, upper⟩ | ⟨_, upper⟩ | ⟨_, upper⟩ | rfl
  · exact Nat.lt_of_le_of_lt upper (by decide)
  · exact Nat.lt_of_le_of_lt upper (by decide)
  · exact Nat.lt_of_le_of_lt upper (by decide)
  · decide

theorem toNat_lt_of_isPlain (plain : isPlain c = true) : c.toNat < 0x80 := by
  simp only [isPlain, Bool.or_eq_true, beq_iff_eq, or_assoc] at plain
  rcases plain with letter | rfl | rfl | rfl | rfl | rfl | rfl | rfl | rfl | rfl
  · exact toNat_lt_of_isWordChar letter
  all_goals decide

/-- No plain character is a quote, a backslash or blank. -/
theorem visible_of_isPlain (plain : isPlain c = true) :
    c ≠ '\x27' ∧ c ≠ '\x22' ∧ c ≠ '\\' ∧ isBlank c = false := by
  have table : ∀ n < 0x80, isPlain (Char.ofNat n) = true → Char.ofNat n ≠ '\x27' ∧
      Char.ofNat n ≠ '\x22' ∧ Char.ofNat n ≠ '\\' ∧ isBlank (Char.ofNat n) = false := by decide
  have facts := table c.toNat (toNat_lt_of_isPlain plain)
  rw [Char.ofNat_toNat] at facts
  exact facts plain

/-! ## Reading one word -/

/-- Single quotes are opened before `body` and closed behind all that follows it. -/
theorem spelling_quoted {body : List Char} (closed : '\x27' ∉ body) (cs : List Char) :
    Spelling ('\x27' :: (body ++ (cs.flatMap quoteChar ++ ['\x27']))) (some (body ++ cs)) := by
  induction cs generalizing body with
  | nil =>
    have alone := Spelling.item (.single closed) .nil
    simpa using alone
  | cons c cs ih =>
    by_cases quote : c = '\x27'
    · subst quote
      -- The quotes are closed, the character is escaped, and the quotes are opened again.
      have escaped : Item ['\\', '\x27'] ['\x27'] := .escaped (by decide) (by decide)
      have parts := Spelling.item (.single closed) (.item escaped (@ih [] (by simp)))
      simpa [quoteChar] using parts
    · have grown : '\x27' ∉ body ++ [c] := by simpa [closed] using Ne.symm quote
      simpa [quoteChar, quote] using ih grown

/-- A word is spelled by what is written for it. -/
theorem spelling_quoteChars (cs : List Char) : Spelling (quoteChars cs) (some cs) := by
  unfold quoteChars
  split
  next plain =>
    rw [Bool.and_eq_true, List.all_eq_true] at plain
    obtain ⟨nonempty, plain⟩ := plain
    have some : cs ≠ [] := by simpa using nonempty
    have alone := Spelling.plain some (fun c mem => visible_of_isPlain (plain c mem)) .nil
    simpa using alone
  next =>
    have closed : '\x27' ∉ ([] : List Char) := List.not_mem_nil
    exact spelling_quoted closed cs

theorem scan_quoteChars (cs rest : List Char) :
    scan .bare none (quoteChars cs ++ rest) = scan .bare (some cs.reverse) rest := by
  rw [scan_spelling (spelling_quoteChars cs), extended, Option.getD_none, List.append_nil]

/-! ## Reading several words -/

/-- The characters end a word and begin no other. -/
def Separates (sep : List Char) : Prop :=
  ∀ read rest, scan .bare (some read) (sep ++ rest) =
    (scan .bare none rest).map (String.ofList read.reverse :: ·)

theorem separates_of_gap {sep : List Char} (between : Gap sep true) : Separates sep := by
  intro read rest
  rw [scan_gap between, if_pos rfl]
  rfl

theorem separates_space : Separates [' '] :=
  separates_of_gap (.blank (by decide) .nil)

theorem separates_joinedLine : Separates [' ', '\\', '\n', ' ', ' '] := by
  have space : isBlank ' ' = true := by decide
  exact separates_of_gap (.blank space (.joint .newline (.blank space (.blank space .nil))))

/-- Words written one after the other, each but the first behind what separates it. -/
def line (first : String) (others : List (List Char × String)) : List Char :=
  quoteChars first.toList ++ others.flatMap fun e => e.1 ++ quoteChars e.2.toList

theorem line_cons (first : String) (e : List Char × String) (others : List (List Char × String)) :
    line first (e :: others) = quoteChars first.toList ++ (e.1 ++ line e.2 others) := by
  simp [line]

theorem scan_line {others : List (List Char × String)} (first : String)
    (apart : ∀ e ∈ others, Separates e.1) :
    scan .bare none (line first others) = .ok (first :: others.map (·.2)) := by
  induction others generalizing first with
  | nil =>
    have ended := scan_quoteChars first.toList []
    simpa [line, scan, atEnd, finished] using ended
  | cons e others ih =>
    obtain ⟨separates, others⟩ := List.forall_mem_cons.mp apart
    rw [line_cons, scan_quoteChars, separates, ih e.2 others]
    simp [Except.map]

/-- Behind the beginning of a word, the first word of a line goes on with it. -/
theorem scan_line_behind {others : List (List Char × String)} (begun : List Char) (first : String)
    (apart : ∀ e ∈ others, Separates e.1) : scan .bare (some begun) (line first others) =
      .ok (String.ofList (begun.reverse ++ first.toList) :: others.map (·.2)) := by
  have spelled := spelling_quoteChars first.toList
  cases others with
  | nil =>
    rw [line, scan_spelling spelled]
    simp [extended, scan, atEnd, finished]
  | cons e others =>
    obtain ⟨separates, others⟩ := List.forall_mem_cons.mp apart
    rw [line_cons, scan_spelling spelled, extended, Option.getD_some, separates,
      scan_line e.2 others]
    simp [Except.map]

end Walkthrough.Words
