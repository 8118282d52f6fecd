import Walkthrough.Proofs.Options

/-!
# Values in the word of their flag

A short option takes its value from the next word or from the rest of its own word. Both spellings give
the same request, wherever in a command the option stands, as long as the value does not begin with the
end of a line. With such a value the word is an unknown flag, and the command is refused.
-/

namespace Walkthrough.Command

variable {d : Draft} {s : Setting} {before rest : List String}
  {apart attached name value w : String}

/-! ## Positions of options -/

/-- The word is an option that takes the next word for its value. -/
def TakesNext (w : String) : Prop :=
  ∃ s, w ∈ flag s :: longFlags s

/-- The words fall into whole arguments, so that the word behind them is the value of none. -/
inductive Whole : List String → Prop
  | nil : Whole []
  | word {w : String} {rest : List String} (own : ¬TakesNext w) (others : Whole rest) :
      Whole (w :: rest)
  | option {w value : String} {rest : List String} (takes : TakesNext w) (others : Whole rest) :
      Whole (w :: value :: rest)

/-- A word without an attached value is its own flag. -/
theorem flagOf_of_snd (alone : (flagOf w).2 = none) : (flagOf w).1 = w := by
  unfold flagOf at alone ⊢
  split at alone
  next spelled =>
    split at alone
    next equals =>
      -- The text behind the equals sign is attached.
      have mem : '=' ∈ w.toList := by
        rw [spelled]
        exact List.mem_cons_of_mem _ (List.mem_cons_of_mem _ (List.contains_iff_mem.mp equals))
      obtain ⟨_, _, cut⟩ := Text.exists_cutAt mem
      rw [Text.cut_of_cutAt cut] at alone
      cases alone
    next absent => rw [if_neg absent]
  next =>
    split at alone
    · cases alone
    next none => rw [if_neg none]
  next => rfl

/-- An option is read with its value, before all that follows. -/
theorem readWords_takesNext (takes : TakesNext w) (d : Draft) (value : String) :
    ∃ first : Except Fault Draft, ∀ rest,
      readWords d (w :: value :: rest) = first.bind fun d => readWords d rest := by
  obtain ⟨s, known⟩ := takes
  refine ⟨d.set s value, fun rest => ?_⟩
  rw [readWords, flagOf_of_mem w known]
  simp only [setting?_eq_some_iff.mpr known]

/-- Any other word is read alone, before all that follows. -/
theorem readWords_own (own : ¬TakesNext w) (d : Draft) :
    ∃ first : Except Fault Draft, ∀ rest,
      readWords d (w :: rest) = first.bind fun d => readWords d rest := by
  cases known : setting? (flagOf w).1 with
  | none => exact ⟨d.word (flagOf w).1, fun rest => by simp only [readWords, known]⟩
  | some s =>
    cases attached : (flagOf w).2 with
    | some value => exact ⟨d.set s value, fun rest => by simp only [readWords, known, attached]⟩
    | none =>
      rw [flagOf_of_snd attached] at known
      exact absurd ⟨s, setting?_eq_some_iff.mp known⟩ own

/-- What stands behind whole arguments is read from the draft that they leave. -/
theorem readWords_append (whole : Whole before) (d : Draft) (rest : List String) :
    readWords d (before ++ rest) = (readWords d before).bind fun d => readWords d rest := by
  induction whole generalizing d with
  | nil => rfl
  | word own _ ih =>
    obtain ⟨first, read⟩ := readWords_own own d
    rw [List.cons_append, read, read]
    cases first with
    | error f => rfl
    | ok d => exact ih d
  | option takes _ ih =>
    obtain ⟨first, read⟩ := readWords_takesNext takes d _
    rw [List.cons_append, List.cons_append, read, read]
    cases first with
    | error f => rfl
    | ok d => exact ih d

/-! ## The word of a flag and a value -/

/-- The first character ends a line. -/
def BeginsWithLineEnd (value : String) : Prop :=
  ∃ c ∈ value.toList.head?, Text.isLineEnd c = true

theorem toList_attached (s : Setting) (value : String) :
    ∃ letter, isShortLetter letter = true ∧ letter ≠ '-' ∧
      (flag s ++ value).toList = '-' :: letter :: value.toList ∧
        flag s = String.ofList ['-', letter] := by
  cases s
  · exact ⟨'X', by decide, by decide, by simp [flag], by decide⟩
  · exact ⟨'H', by decide, by decide, by simp [flag], by decide⟩
  · exact ⟨'d', by decide, by decide, by simp [flag], by decide⟩
  · exact ⟨'u', by decide, by decide, by simp [flag], by decide⟩

theorem flagOf_attached (some : value ≠ "") (s : Setting) :
    (BeginsWithLineEnd value → flagOf (flag s ++ value) = (flag s ++ value, none)) ∧
      (¬BeginsWithLineEnd value → flagOf (flag s ++ value) = (flag s, Option.some value)) := by
  obtain ⟨letter, short, other, spelled, named⟩ := toList_attached s value
  obtain ⟨c, cs, held⟩ := List.exists_cons_of_ne_nil (mt String.toList_eq_nil_iff.mp some)
  have whole : String.ofList (c :: cs) = value := by rw [← held, String.ofList_toList]
  have begins : BeginsWithLineEnd value ↔ Text.isLineEnd c = true := by
    simp [BeginsWithLineEnd, held]
  rw [begins]
  unfold flagOf
  rw [spelled, held]
  constructor
  · intro ends
    simp [short, ends]
  · intro ends
    simp [short, ends, whole, named]

/-- Known flags have two characters or begin with two hyphens. -/
theorem unknown_attached (some : value ≠ "") (s : Setting) :
    setting? (flag s ++ value) = none ∧ isIgnored (flag s ++ value) = false := by
  have tables : (∀ t, ∀ f ∈ flag t :: longFlags t, f.length = 2 ∨ f.toList[1]? = Option.some '-') ∧
      ∀ f ∈ ignoredFlags, f.length = 2 ∨ f.toList[1]? = Option.some '-' :=
    ⟨fun t => by cases t <;> decide, by decide⟩
  have other : ¬((flag s ++ value).length = 2 ∨ (flag s ++ value).toList[1]? = Option.some '-') := by
    obtain ⟨letter, _, other, spelled, _⟩ := toList_attached s value
    rw [← String.length_toList, spelled]
    simpa [other] using some
  constructor
  · refine Option.eq_none_iff_forall_ne_some.mpr fun t known => other ?_
    exact tables.1 t _ (setting?_eq_some_iff.mp known)
  · refine Bool.eq_false_iff.mpr fun ignored => other ?_
    exact tables.2 _ (isIgnored_iff.mp ignored)

theorem readWords_attached (some : value ≠ "") (d : Draft) (rest : List String) :
    (¬BeginsWithLineEnd value →
      readWords d ((flag s ++ value) :: rest) = readWords d (flag s :: value :: rest)) ∧
    (BeginsWithLineEnd value →
      readWords d ((flag s ++ value) :: rest) = .error (.unsupported (flag s ++ value))) := by
  obtain ⟨whole, split⟩ := flagOf_attached some s
  have known : setting? (flag s) = Option.some s := setting?_eq_some_iff.mpr List.mem_cons_self
  constructor
  · intro inside
    rw [readWords_flag, readWords, split inside]
    simp only [known]
  · intro ends
    obtain ⟨unknown, unlisted⟩ := unknown_attached some s
    have hyphen : Text.startsWith (flag s ++ value) "-" = true := by
      obtain ⟨_, _, _, spelled, _⟩ := toList_attached s value
      rw [startsWith_hyphen_iff, spelled, List.head?_cons]
    rw [readWords, whole ends]
    simp only [unknown, Draft.word, unlisted, hyphen]
    rfl

/-! ## Commands with one value apart and attached -/

theorem read_of_split {command : String} {words : List String}
    (spelled : Words.split command = .ok (name :: words)) : read command =
      if name = "curl" then (readWords {} words).bind Draft.request else .error .notCurl := by
  unfold read
  rw [spelled]
  by_cases curl : name = "curl"
  · subst curl
    rfl
  · rw [if_neg curl]
    split
    next failed => cases failed
    next same =>
      cases same
      exact absurd rfl curl
    next => rfl

/-- Two commands that differ in one option, whose value stands in the next word or in the word of its
flag, give the same request or fail alike, unless the value begins with the end of a line. Then the
attached value makes an unsupported option of its word, so that the commands agree only where the
other one is refused as well. -/
theorem read_attached (whole : Whole before) (some : value ≠ "")
    (spelledApart : Words.split apart = .ok (name :: (before ++ flag s :: value :: rest)))
    (spelledAttached : Words.split attached = .ok (name :: (before ++ (flag s ++ value) :: rest))) :
    (¬BeginsWithLineEnd value → read attached = read apart) ∧
    (BeginsWithLineEnd value → ∃ f, read attached = .error f ∧
      ∀ d, name = "curl" → readWords {} before = .ok d → f = .unsupported (flag s ++ value)) ∧
    ((read attached).toOption = (read apart).toOption ↔
      ∀ r, read apart = .ok r → ¬BeginsWithLineEnd value) := by
  have option (d : Draft) := readWords_attached (s := s) some d rest
  have same (inside : ¬BeginsWithLineEnd value) : read attached = read apart := by
    rw [read_of_split spelledApart, read_of_split spelledAttached, readWords_append whole,
      readWords_append whole]
    simp only [(option _).1 inside]
  have refused (ends : BeginsWithLineEnd value) : ∃ f, read attached = .error f ∧
      ∀ d, name = "curl" → readWords {} before = .ok d → f = .unsupported (flag s ++ value) := by
    rw [read_of_split spelledAttached, readWords_append whole]
    by_cases curl : name = "curl"
    · rw [if_pos curl]
      cases front : readWords {} before with
      | error f => exact ⟨f, rfl, fun _ _ read => by cases read⟩
      | ok d =>
        refine ⟨.unsupported (flag s ++ value), ?_, fun _ _ _ => rfl⟩
        simp only [Except.bind, (option d).2 ends]
    · exact ⟨.notCurl, if_neg curl, fun _ named => absurd named curl⟩
  refine ⟨same, refused, ?_⟩
  constructor
  · intro agree r read ends
    obtain ⟨f, unread, _⟩ := refused ends
    rw [read, unread] at agree
    cases agree
  · intro readable
    by_cases ends : BeginsWithLineEnd value
    · obtain ⟨f, unread, _⟩ := refused ends
      cases other : read apart with
      | error g => rw [unread]; rfl
      | ok r => exact absurd ends (readable r other)
    · rw [same ends]

/-- A body of two lines and a quote, between other options, and a header that begins with the end of a
line. -/
theorem read_attached_of_lines :
    read "curl -s -d'a\n'\\'' -d' -X put https://as.test" =
        read "curl -s -d 'a\n'\\'' -d' -X put https://as.test" ∧
      read "curl https://as.test -H'\nA: b'" = .error (.unsupported "-H\nA: b") := by
  have own (w : String) (unknown : ∀ s, w ∉ flag s :: longFlags s) : Whole [w] :=
    .word (fun ⟨s, known⟩ => unknown s known) .nil
  obtain ⟨same, _⟩ := @read_attached .data ["-s"] ["-X", "put", "https://as.test"]
    "curl -s -d 'a\n'\\'' -d' -X put https://as.test"
    "curl -s -d'a\n'\\'' -d' -X put https://as.test" "curl" "a\n' -d"
    (own "-s" fun s => by cases s <;> decide) (by decide) (by decide +kernel) (by decide +kernel)
  obtain ⟨_, refused, _⟩ := @read_attached .header ["https://as.test"] []
    "curl https://as.test -H '\nA: b'" "curl https://as.test -H'\nA: b'" "curl" "\nA: b"
    (own "https://as.test" fun s => by cases s <;> decide) (by decide) (by decide +kernel)
    (by decide +kernel)
  have inside : ¬BeginsWithLineEnd "a\n' -d" := by
    rintro ⟨c, first, ends⟩
    cases first
    exact absurd ends (by decide)
  obtain ⟨f, failed, unsupported⟩ := refused ⟨'\n', by decide, by decide⟩
  have drafted : readWords {} ["https://as.test"] = .ok { url := some "https://as.test" } := by
    decide
  have word : flag .header ++ "\nA: b" = "-H\nA: b" := by decide
  refine ⟨same inside, ?_⟩
  rw [failed, unsupported _ rfl drafted, word]

/-- A body that begins with the end of a line is taken from the next word, but not from the word of its
flag. -/
theorem refused_when_attached :
    Words.split "curl https://as.test -d '\nx=1'" = .ok ["curl", "https://as.test", "-d", "\nx=1"] ∧
      Words.split "curl https://as.test -d'\nx=1'" = .ok ["curl", "https://as.test", "-d\nx=1"] ∧
      read "curl https://as.test -d '\nx=1'" =
        .ok ⟨"POST", "https://as.test", [], some "\nx=1", none⟩ ∧
      read "curl https://as.test -d'\nx=1'" = .error (.unsupported "-d\nx=1") := by
  decide +kernel

end Walkthrough.Command
