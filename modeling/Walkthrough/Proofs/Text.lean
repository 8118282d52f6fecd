import Mathlib.Data.List.DropRight
import Mathlib.Data.List.Induction
import Walkthrough.Text.Blank
import Walkthrough.Text.Split
import Walkthrough.Text.Upper

/-!
# Texts in parts

What cutting and joining do to the characters of a text, and when trimming and turning to upper case
leave a text as it is.
-/

namespace Walkthrough.Text

/-! ## Cutting -/

theorem cutChars_append {sep : Char} {before : List Char} (absent : sep ∉ before)
    (after : List Char) : cutChars sep (before ++ sep :: after) = (before, some after) := by
  induction before with
  | nil => simp [cutChars]
  | cons c before ih =>
    rw [List.mem_cons, not_or] at absent
    simp [cutChars, Ne.symm absent.1, ih absent.2]

theorem cut_eq {sep : Char} {s : String} {before after : List Char} (absent : sep ∉ before)
    (spelled : s.toList = before ++ sep :: after) :
    cut sep s = (String.ofList before, some (String.ofList after)) := by
  simp [cut, spelled, cutChars_append absent]

theorem eq_append_of_cutChars {sep : Char} {cs before after : List Char}
    (h : cutChars sep cs = (before, some after)) : before ++ sep :: after = cs := by
  induction cs generalizing before with
  | nil => cases h
  | cons c cs ih =>
    unfold cutChars at h
    split at h
    next same =>
      cases h
      rw [same]
      rfl
    next =>
      cases cut : cutChars sep cs with
      | mk first rest =>
        rw [cut] at h
        cases h
        rw [List.cons_append, ih cut]

theorem not_mem_cutChars (sep : Char) (cs : List Char) : sep ∉ (cutChars sep cs).1 := by
  induction cs with
  | nil => simp [cutChars]
  | cons c cs ih =>
    by_cases same : c = sep
    · simp [cutChars, same]
    · simp [cutChars, same, Ne.symm same, ih]

theorem not_mem_cut (sep : Char) (s : String) : sep ∉ (cut sep s).1.toList := by
  simpa [cut] using not_mem_cutChars sep s.toList

/-- The text is `before`, the first `sep` in it, and `after`. -/
def CutAt (sep : Char) (s before after : String) : Prop :=
  s.toList = before.toList ++ sep :: after.toList ∧ sep ∉ before.toList

theorem cut_of_cutAt {sep : Char} {s before after : String} (h : CutAt sep s before after) :
    cut sep s = (before, some after) := by
  rw [cut_eq h.2 h.1, String.ofList_toList, String.ofList_toList]

theorem exists_cutAt {sep : Char} {s : String} (mem : sep ∈ s.toList) :
    ∃ before after, CutAt sep s before after := by
  obtain ⟨before, after, spelled, absent⟩ := List.eq_append_cons_of_mem mem
  refine ⟨String.ofList before, String.ofList after, ?_, ?_⟩
  · rw [String.toList_ofList, String.toList_ofList, spelled]
  · rw [String.toList_ofList]
    exact absent

theorem cut_of_not_mem {sep : Char} {s : String} (absent : sep ∉ s.toList) :
    cut sep s = (s, none) := by
  have whole (cs : List Char) (absent : sep ∉ cs) : cutChars sep cs = (cs, none) := by
    induction cs with
    | nil => rfl
    | cons c cs ih =>
      rw [List.mem_cons, not_or] at absent
      simp [cutChars, Ne.symm absent.1, ih absent.2]
  simp [cut, whole s.toList absent]

/-! ## Joining -/

theorem joinWith_cons_cons (sep first second : String) (others : List String) :
    joinWith sep (first :: second :: others) = first ++ sep ++ joinWith sep (second :: others) :=
  String.intercalate_cons_cons

theorem toList_joinWith_cons (sep first : String) (others : List String) :
    (joinWith sep (first :: others)).toList =
      first.toList ++ others.flatMap fun o => sep.toList ++ o.toList := by
  induction others generalizing first with
  | nil => simp [joinWith]
  | cons o others ih => simp [joinWith_cons_cons, ih]

/-! ## Beginnings -/

theorem startsWith_iff_head? {s start : String} {c : Char} (single : start.toList = [c]) :
    startsWith s start = true ↔ s.toList.head? = some c := by
  rw [startsWith, single]
  cases s.toList with
  | nil => simp
  | cons d cs => simpa using eq_comm

/-! ## Trimming -/

/-- The text has no blank character at either end. -/
def Trimmed (s : String) : Prop :=
  (∀ c, s.toList.head? = some c → isBlank c = false) ∧
    ∀ c, s.toList.getLast? = some c → isBlank c = false

theorem trimChars_eq (cs : List Char) :
    trimChars cs = (cs.dropWhile isBlank).rdropWhile isBlank := rfl

/-- Nothing is lost in trimming only when nothing is lost at either end. -/
theorem trimChars_eq_self_iff {cs : List Char} :
    trimChars cs = cs ↔ cs.dropWhile isBlank = cs ∧ cs.rdropWhile isBlank = cs := by
  constructor
  · intro same
    -- Both steps only take characters away, so neither has taken any.
    have right := (List.rdropWhile_prefix isBlank (l := cs.dropWhile isBlank)).length_le
    rw [← trimChars_eq, same] at right
    have left : cs.dropWhile isBlank = cs :=
      (List.dropWhile_suffix isBlank).eq_of_length_le right
    rw [trimChars_eq, left] at same
    exact ⟨left, same⟩
  · rintro ⟨left, right⟩
    rw [trimChars_eq, left, right]

theorem dropWhile_eq_self_iff_head {cs : List Char} :
    cs.dropWhile isBlank = cs ↔ ∀ c, cs.head? = some c → isBlank c = false := by
  cases cs with
  | nil => simp
  | cons c cs => simp [List.dropWhile_eq_self_iff]

theorem rdropWhile_eq_self_iff_last {cs : List Char} :
    cs.rdropWhile isBlank = cs ↔ ∀ c, cs.getLast? = some c → isBlank c = false := by
  rw [List.rdropWhile_eq_self_iff]
  cases cs using List.reverseRecOn <;> simp

theorem trim_eq_self_iff {s : String} : trim s = s ↔ Trimmed s := by
  have chars : trim s = s ↔ trimChars s.toList = s.toList := by
    rw [trim, ← String.toList_inj, String.toList_ofList]
  rw [chars, trimChars_eq_self_iff, dropWhile_eq_self_iff_head, rdropWhile_eq_self_iff_last]
  rfl

theorem isBlank_of_dropWhile {cs rest : List Char} {p : Char → Bool} {c : Char}
    (left : cs.dropWhile p = c :: rest) : p c = false := by
  have stop := List.head?_dropWhile_not p cs
  rw [left] at stop
  exact stop

theorem trimmed_trim (s : String) : Trimmed (trim s) := by
  have left : (trimChars s.toList).dropWhile isBlank = trimChars s.toList := by
    rw [dropWhile_eq_self_iff_head]
    intro c first
    -- What is dropped at the end leaves the first character as it is.
    have whole : (s.toList.dropWhile isBlank).head? = some c := by
      obtain ⟨rest, same⟩ := List.rdropWhile_prefix isBlank (l := s.toList.dropWhile isBlank)
      rw [← trimChars_eq] at same
      rw [← same, List.head?_append, first]
      rfl
    obtain ⟨rest, kept⟩ := List.head?_eq_some_iff.mp whole
    exact isBlank_of_dropWhile kept
  have right : (trimChars s.toList).rdropWhile isBlank = trimChars s.toList := by
    rw [trimChars_eq, List.rdropWhile_idempotent]
  have same : trimChars (trim s).toList = (trim s).toList := by
    rw [trim, String.toList_ofList]
    exact trimChars_eq_self_iff.mpr ⟨left, right⟩
  rw [← trim_eq_self_iff, trim, same, String.ofList_toList]

/-- The text has only blank characters beside a part of it that has none at its ends. -/
def Trims (s part : String) : Prop :=
  Trimmed part ∧ ∃ left right, s.toList = left ++ (part.toList ++ right) ∧
    (∀ c ∈ left, isBlank c = true) ∧ ∀ c ∈ right, isBlank c = true

theorem trims_trim (s : String) : Trims s (trim s) := by
  refine ⟨trimmed_trim s, s.toList.takeWhile isBlank, (s.toList.dropWhile isBlank).rtakeWhile isBlank,
    ?_, fun c mem => List.mem_takeWhile_imp mem, fun c mem => List.mem_rtakeWhile_imp mem⟩
  rw [trim, String.toList_ofList, trimChars_eq, List.rdropWhile_append_rtakeWhile,
    List.takeWhile_append_dropWhile]

theorem mem_of_mem_trim {c : Char} {s : String} (mem : c ∈ (trim s).toList) : c ∈ s.toList := by
  rw [trim, String.toList_ofList, trimChars_eq] at mem
  exact (List.dropWhile_suffix _).subset ((List.rdropWhile_prefix _ _).subset mem)

theorem trimChars_space (cs : List Char) : trimChars (' ' :: cs) = trimChars cs := by
  have blank : isBlank ' ' = true := by decide
  simp [trimChars, blank]

/-! ## Words -/

/-- The line begins with blanks, if with any, and then the word, which goes up to the next blank or to
the end of the line. -/
def FirstWord (line word : String) : Prop :=
  word ≠ "" ∧ ∃ blanks rest, line.toList = blanks ++ (word.toList ++ rest) ∧
    (∀ c ∈ blanks, isBlank c = true) ∧ (∀ c ∈ word.toList, isBlank c = false) ∧
    ∀ c, rest.head? = some c → isBlank c = true

theorem head?_wordsFrom_cons (c : Char) (word cs : List Char) :
    (wordsFrom (c :: word) cs).head? =
      some (String.ofList ((c :: word).reverse ++ cs.takeWhile fun c => !isBlank c)) := by
  induction cs generalizing c word with
  | nil => simp [wordsFrom, closeWord]
  | cons next cs ih =>
    cases blank : isBlank next with
    | true => simp [wordsFrom, closeWord, blank]
    | false => simp [wordsFrom, blank, ih]

theorem head?_wordsFrom_nil (cs : List Char) :
    (wordsFrom [] cs).head? =
      match cs.dropWhile isBlank with
      | [] => none
      | c :: rest => some (String.ofList (c :: rest.takeWhile fun c => !isBlank c)) := by
  induction cs with
  | nil => rfl
  | cons c cs ih =>
    cases blank : isBlank c with
    | true => simp [wordsFrom, closeWord, blank, ih]
    | false => simp [wordsFrom, blank, head?_wordsFrom_cons]

theorem takeWhile_append_of_stop {within rest : List Char}
    (plain : ∀ c ∈ within, isBlank c = false) (stop : ∀ c, rest.head? = some c → isBlank c = true) :
    (within ++ rest).takeWhile (fun c => !isBlank c) = within := by
  rw [List.takeWhile_append_of_pos fun c mem => by simp [plain c mem]]
  cases rest with
  | nil => simp
  | cons c rest => simp [stop c rfl]

/-- The first of the words of a line is its first word. -/
theorem head?_words_eq_some_iff {line word : String} :
    (words line).head? = some word ↔ FirstWord line word := by
  rw [words, head?_wordsFrom_nil]
  constructor
  · intro found
    split at found
    next => cases found
    next c rest left =>
      cases found
      refine ⟨by simp, line.toList.takeWhile isBlank, rest.dropWhile fun c => !isBlank c, ?_,
        fun c mem => List.mem_takeWhile_imp mem, ?_, fun next first => ?_⟩
      · rw [String.toList_ofList, List.cons_append, List.takeWhile_append_dropWhile, ← left,
          List.takeWhile_append_dropWhile]
      · rw [String.toList_ofList, List.forall_mem_cons]
        refine ⟨isBlank_of_dropWhile left, fun c mem => ?_⟩
        simpa using List.mem_takeWhile_imp mem
      · obtain ⟨later, split⟩ := List.head?_eq_some_iff.mp first
        simpa using isBlank_of_dropWhile split
  · rintro ⟨nonempty, blanks, rest, spelled, before, plain, stop⟩
    obtain ⟨c, others, letters⟩ : ∃ c others, word.toList = c :: others :=
      List.exists_cons_of_ne_nil (by simpa using nonempty)
    rw [letters] at plain
    obtain ⟨first, later⟩ := List.forall_mem_cons.mp plain
    have left : line.toList.dropWhile isBlank = c :: (others ++ rest) := by
      rw [spelled, List.dropWhile_append_of_pos before, letters, List.cons_append,
        List.dropWhile_cons_of_neg (by simp [first])]
    simp only [left, takeWhile_append_of_stop later stop, ← letters, String.ofList_toList]

/-! ## Slashes at the end -/

theorem rdropWhile_slashes_eq_iff {cs stem : List Char} :
    cs.rdropWhile (· == '/') = stem ↔
      (∃ n, cs = stem ++ List.replicate n '/') ∧ stem.getLast? ≠ some '/' := by
  induction cs using List.reverseRecOn with
  | nil =>
    constructor
    · rintro rfl
      exact ⟨⟨0, rfl⟩, by simp⟩
    · rintro ⟨⟨n, same⟩, _⟩
      exact (List.append_eq_nil_iff.mp same.symm).1.symm
  | append_singleton cs c ih =>
    rw [List.rdropWhile_concat]
    by_cases slash : c = '/'
    · subst slash
      rw [if_pos (by rfl), ih]
      refine and_congr_left fun trimmed => ?_
      constructor
      · rintro ⟨n, rfl⟩
        exact ⟨n + 1, by rw [List.replicate_succ', List.append_assoc]⟩
      · rintro ⟨n, same⟩
        cases n with
        | zero =>
          rw [List.replicate_zero, List.append_nil] at same
          exact absurd (by rw [← same, List.getLast?_concat]) trimmed
        | succ n =>
          rw [List.replicate_succ', ← List.append_assoc] at same
          exact ⟨n, (List.append_inj' same rfl).1⟩
    · rw [if_neg (by simpa using slash)]
      constructor
      · rintro rfl
        exact ⟨⟨0, by simp⟩, by simpa using slash⟩
      · rintro ⟨⟨n, same⟩, _⟩
        cases n with
        | zero => simpa using same
        | succ n =>
          rw [List.replicate_succ', ← List.append_assoc] at same
          exact absurd (List.cons.inj (List.append_inj' same rfl).2).1 slash

/-- The slashes are taken off the end of a text: all of them and nothing else. -/
theorem dropEndSlashes_eq_iff {s stem : String} :
    dropEndSlashes s = stem ↔
      (∃ n, s.toList = stem.toList ++ List.replicate n '/') ∧ stem.toList.getLast? ≠ some '/' := by
  rw [← rdropWhile_slashes_eq_iff, dropEndSlashes, ← String.toList_inj, String.toList_ofList]
  rfl

/-! ## Upper case -/

theorem upperChar_of_ascii {c : Char} (ascii : c.toNat < 0x80) :
    upperChar c = [if c.isLower then Char.ofNat (c.toNat - 32) else c] := by
  have same : (decide ('a' ≤ c) && decide (c ≤ 'z')) = c.isLower := rfl
  unfold upperChar
  simp only [ascii, if_true, same]
  split <;> rfl

theorem toNat_ofNat {n : Nat} (valid : n.isValidChar) : (Char.ofNat n).toNat = n := by
  have made : Char.ofNat n = Char.ofNatAux n valid := dif_pos valid
  rw [made]
  rfl

theorem toNat_ofNat_of_ascii {n : Nat} (ascii : n < 0x80) : (Char.ofNat n).toNat = n :=
  toNat_ofNat (Or.inl (by omega))

theorem upperChar_eq_self_iff {c : Char} (ascii : c.toNat < 0x80) :
    upperChar c = [c] ↔ c.isLower = false := by
  rw [upperChar_of_ascii ascii, List.singleton_inj]
  cases lower : c.isLower with
  | false => simp
  | true =>
    have low : 97 ≤ c.toNat ∧ c.toNat ≤ 122 := by
      obtain ⟨first, last⟩ := Bool.and_eq_true_iff.mp lower
      exact ⟨UInt32.le_iff_toNat_le.mp (of_decide_eq_true first),
        UInt32.le_iff_toNat_le.mp (of_decide_eq_true last)⟩
    simp only [if_true, Bool.true_eq_false, iff_false]
    intro same
    have numbers := congrArg Char.toNat same
    rw [toNat_ofNat_of_ascii (by omega)] at numbers
    omega

/-- A text of ASCII is in upper case when no letter of it is in lower case. -/
theorem upper_eq_self_iff {s : String} (ascii : ∀ c ∈ s.toList, c.toNat < 0x80) :
    upper s = s ↔ ∀ c ∈ s.toList, c.isLower = false := by
  have chars : upper s = s ↔ s.toList.flatMap upperChar = s.toList := by
    rw [upper, ← String.toList_inj, String.toList_ofList]
  rw [chars]
  generalize s.toList = cs at ascii
  induction cs with
  | nil => simp
  | cons c cs ih =>
    obtain ⟨first, others⟩ := List.forall_mem_cons.mp ascii
    have alone : upperChar c = [c] ↔ (if c.isLower then Char.ofNat (c.toNat - 32) else c) = c := by
      rw [upperChar_of_ascii first, List.singleton_inj]
    rw [List.flatMap_cons, List.forall_mem_cons, upperChar_of_ascii first, List.singleton_append,
      List.cons.injEq, ← alone, upperChar_eq_self_iff first]
    exact and_congr_right fun _ => ih others

end Walkthrough.Text
