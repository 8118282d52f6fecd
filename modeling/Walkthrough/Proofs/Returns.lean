import Walkthrough.Proofs.Literal

/-!
# Commands with carriage returns

A line of a command ends outside of quotes, where its end parts words, or it is joined to the next one
by a backslash. When a carriage return is put in front of every newline, the ends of lines outside of
quotes are read as before. In double quotes only a newline joins a line to the next one, so there the
backslash, the carriage return and the newline stay in the word, and nothing else is different.
-/

namespace Walkthrough.Words

open Walkthrough.Checks (map_ok_iff)
open Walkthrough.Text (isBlank)

variable {mode : Mode} {word : Partial} {c : Char} {words : List String}
  {text front back : List Char} {command : String}

/-- The text with a carriage return in front of every newline. -/
def returned (text : List Char) : List Char :=
  text.flatMap fun c => if c = '\n' then ['\r', '\n'] else [c]

/-- The command with a carriage return in front of every newline. -/
def withReturns (command : String) : String :=
  String.ofList (returned command.toList)

/-- Every line ends outside of quotes, where its end is a blank character, or behind a backslash that
joins it to the next line, outside of quotes or in double quotes. -/
def LinesEnd (text : List Char) : Prop :=
  ∀ front back, text = front ++ '\n' :: back →
    Stands .bare front ∨ Stands .escape front ∨ Stands .doubleEscape front

/-- Some line is joined to the next one in double quotes. -/
def JoinsInDouble (text : List Char) : Prop :=
  ∃ front back, text = front ++ '\n' :: back ∧ Stands .doubleEscape front

/-- The characters without each backslash that stands in front of a carriage return and a newline, and
without these two. -/
def rejoin : List Char → List Char
  | '\\' :: '\r' :: '\n' :: rest => rejoin rest
  | c :: rest => c :: rejoin rest
  | [] => []

theorem returned_newline (text : List Char) :
    returned ('\n' :: text) = '\r' :: '\n' :: returned text := rfl

theorem returned_cons (other : c ≠ '\n') (text : List Char) :
    returned (c :: text) = c :: returned text := by
  simp [returned, other]

theorem returned_append (front back : List Char) :
    returned (front ++ back) = returned front ++ returned back := by
  simp [returned]

/-! ## Where the reader stands -/

theorem not_mem_of_parts (unreturned : '\r' ∉ text) (parts : text = front ++ '\n' :: back) :
    '\r' ∉ front := by
  rw [parts] at unreturned
  exact fun mem => unreturned (List.mem_append_left _ mem)

theorem walk_append_snd (mode : Mode) (word : Partial) (front back : List Char) :
    (walk mode word (front ++ back)).2 =
      (walk (walk mode word front).2.1 (walk mode word front).2.2 back).2 := by
  induction front generalizing mode word with
  | nil => rfl
  | cons c front ih => exact ih _ _

theorem step_ne_escapeReturn (other : c ≠ '\r') (mode : Mode) (word : Partial) :
    (step mode word c).2.1 ≠ .escapeReturn := by
  cases mode <;> simp only [step, bareStep, other, if_false] <;> split_ifs <;> simp

theorem walk_ne_escapeReturn (unreturned : '\r' ∉ text) (start : mode ≠ .escapeReturn)
    (word : Partial) : (walk mode word text).2.1 ≠ .escapeReturn := by
  induction text generalizing mode word with
  | nil => exact start
  | cons c text ih =>
    rw [List.mem_cons, not_or] at unreturned
    exact ih unreturned.2 (step_ne_escapeReturn (Ne.symm unreturned.1) mode word) _

theorem walk_bare (unreturned : '\r' ∉ text) (stands : Stands .bare text) :
    (walk .bare none text).2.1 = .bare := by
  rcases outside_walk_iff.mpr stands with bare | returned
  · exact bare
  · exact absurd returned (walk_ne_escapeReturn unreturned (by decide) none)

theorem walk_escape (unreturned : '\r' ∉ text) (stands : Stands .escape text) :
    (walk .bare none text).2.1 = .escape := by
  obtain ⟨front, rfl, closed⟩ := stands
  have outside := walk_bare (fun mem => unreturned (List.mem_append_left _ mem)) closed
  rw [walk_append_snd, outside]
  rfl

theorem walk_inDouble {written read : List Char} (inside : InDouble written read) (word : Partial) :
    (walk .double word written).2.1 = .double := by
  induction inside generalizing word with
  | nil => rfl
  | plain quote backslash _ ih =>
    simp only [walk, step_double quote backslash]
    exact ih _
  | escaped mark _ ih =>
    have opened : step .double word '\\' = ([], .doubleEscape, word) := rfl
    simp only [walk, opened, step_doubleEscape_of_mark mark]
    exact ih _
  | joined _ ih => exact ih word
  | kept other _ ih =>
    have opened : step .double word '\\' = ([], .doubleEscape, word) := rfl
    simp only [walk, opened, step_doubleEscape_of_other other]
    exact ih _

theorem walk_doubleEscape (unreturned : '\r' ∉ text) (stands : Stands .doubleEscape text) :
    (walk .bare none text).2.1 = .doubleEscape := by
  obtain ⟨front, written, read, rfl, closed, inside⟩ := stands
  have outside := walk_bare (fun mem => unreturned (List.mem_append_left _ mem)) closed
  rw [walk_append_snd, outside]
  show (walk .double _ (written ++ ['\\'])).2.1 = _
  rw [walk_append_snd, walk_inDouble inside]
  rfl

/-- A return in front of a newline does not change where the reader stands behind the newline. -/
theorem step_return_newline (start : mode ≠ .escapeReturn) (word other : Partial) :
    (step (step mode word '\r').2.1 (step mode word '\r').2.2 '\n').2.1 =
      (step mode other '\n').2.1 := by
  cases mode with
  | escapeReturn => exact absurd rfl start
  | bare | escape | single | double | doubleEscape => rfl

theorem walk_returned (unreturned : '\r' ∉ text) (start : mode ≠ .escapeReturn)
    (word other : Partial) :
    (walk mode word (returned text)).2.1 = (walk mode other text).2.1 := by
  induction text generalizing mode word other with
  | nil => rfl
  | cons c text ih =>
    rw [List.mem_cons, not_or] at unreturned
    have next := step_ne_escapeReturn (Ne.symm unreturned.1) mode other
    by_cases newline : c = '\n'
    · subst newline
      rw [returned_newline]
      simp only [walk, step_return_newline start word other]
      exact ih unreturned.2 next _ _
    · rw [returned_cons newline]
      simp only [walk, step_mode mode word other c]
      exact ih unreturned.2 next _ _

/-! ## What is read with the returns -/

/-- A change of words (held in reverse) that leaves every character in place that is no newline. -/
structure Rewords (change : List Char → List Char) : Prop where
  nil : change [] = []
  cons : ∀ c read, c ≠ '\n' → change (c :: read) = c :: change read

/-- The change of a whole word. -/
def reword (change : List Char → List Char) (word : String) : String :=
  String.ofList (change word.toList.reverse).reverse

variable {change : List Char → List Char}

theorem Rewords.extend (keeps : Rewords change) (other : c ≠ '\n') (word : Partial) :
    extend (word.map change) c = (extend word c).map change := by
  cases word <;> simp [Words.extend, keeps.nil, keeps.cons, other]

theorem Rewords.begun (keeps : Rewords change) (word : Partial) :
    begun (word.map change) = (begun word).map change := by
  cases word <;> simp [Words.begun, keeps.nil]

theorem finished_map (change : List Char → List Char) (word : Partial) :
    finished (word.map change) = (finished word).map (reword change) := by
  cases word <;> simp [finished, reword]

/-- A character that is no newline does the same to the changed word as to the word itself. -/
theorem Rewords.step (keeps : Rewords change) (other : c ≠ '\n') (mode : Mode) (word : Partial) :
    Words.step mode (word.map change) c =
      ((Words.step mode word c).1.map (reword change), (Words.step mode word c).2.1,
        (Words.step mode word c).2.2.map change) := by
  have carriage : '\r' ≠ '\n' := by decide
  have backslash : '\\' ≠ '\n' := by decide
  cases mode <;> simp only [Words.step, bareStep, keeps.extend other, keeps.extend carriage,
    keeps.extend backslash, keeps.begun, finished_map] <;> split_ifs <;> rfl

theorem Rewords.atEnd (keeps : Rewords change) (mode : Mode) (word : Partial) :
    Words.atEnd mode (word.map change) = (Words.atEnd mode word).map (List.map (reword change)) := by
  have carriage : '\r' ≠ '\n' := by decide
  cases mode <;> simp only [Words.atEnd, keeps.extend carriage, finished_map] <;> rfl

/-- In double quotes a word has begun. -/
def HasBegun (mode : Mode) (word : Partial) : Prop :=
  mode = .double ∨ mode = .doubleEscape → word.isSome = true

theorem HasBegun.step (h : HasBegun mode word) (c : Char) :
    HasBegun (step mode word c).2.1 (step mode word c).2.2 := by
  cases mode <;> simp only [Words.step, bareStep] <;> split_ifs <;>
    simp_all [HasBegun, extend, begun]

/-- The change takes out what is left of a line that is joined to the next one in double quotes. -/
def Rejoins (change : List Char → List Char) : Prop :=
  ∀ read, change ('\n' :: '\r' :: '\\' :: read) = change read

/-- The end of a line may stand where the reader is, if the change makes up for the return. -/
def Admits (change : List Char → List Char) (mode : Mode) : Prop :=
  mode = .bare ∨ mode = .escape ∨ mode = .doubleEscape ∧ Rejoins change

/-- In double quotes a backslash does not join a line that ends with a return. -/
theorem scan_return_inDouble (word : Partial) (rest : List Char) :
    scan .doubleEscape word ('\r' :: '\n' :: rest) =
      scan .double (some ('\n' :: '\r' :: '\\' :: word.getD [])) rest := by
  have carriage : step .doubleEscape word '\r' =
      ([], .double, some ('\r' :: '\\' :: word.getD [])) := rfl
  have newline : step .double (some ('\r' :: '\\' :: word.getD [])) '\n' =
      ([], .double, some ('\n' :: '\r' :: '\\' :: word.getD [])) := rfl
  rw [scan_cons carriage, scan_cons newline]

/-- The end of a line does to the changed word what the one with a return does to the word itself. -/
theorem scan_newline (admits : Admits change mode) (begun : HasBegun mode word)
    (rest : List Char) : ∃ ended next more, HasBegun next more ∧
      step mode (word.map change) '\n' = (ended.map (reword change), next, more.map change) ∧
      scan mode word ('\r' :: '\n' :: rest) = (scan next more rest).map (ended ++ ·) := by
  rcases admits with rfl | rfl | ⟨rfl, rejoins⟩
  · have newline (word : Partial) := step_of_isBlank (show isBlank '\n' = true by decide) word
    have carriage := step_of_isBlank (show isBlank '\r' = true by decide) word
    -- The newline behind the return ends no word.
    have again : scan .bare none ('\n' :: rest) = scan .bare none rest :=
      scan_cons (newline none) rest
    refine ⟨finished word, .bare, none, by simp [HasBegun], ?_, ?_⟩
    · rw [newline, finished_map]
      rfl
    · rw [scan, carriage]
      simp only [again]
  · refine ⟨[], .bare, word, by simp [HasBegun], rfl, ?_⟩
    rw [scan_cons rfl, scan_cons rfl]
    cases scan .bare word rest <;> rfl
  · obtain ⟨read, rfl⟩ := Option.isSome_iff_exists.mp (begun (.inr rfl))
    refine ⟨[], .double, some ('\n' :: '\r' :: '\\' :: read), by simp [HasBegun], ?_, ?_⟩
    · rw [Option.map_some, Option.map_some, rejoins]
      rfl
    · rw [scan_return_inDouble, Option.getD_some]
      cases scan .double (some ('\n' :: '\r' :: '\\' :: read)) rest <;> rfl

/-- What is read without the returns is what is read with them, with every word changed. -/
theorem Rewords.scan_returned (keeps : Rewords change) (unreturned : '\r' ∉ text)
    (begun : HasBegun mode word)
    (admits : ∀ front back, text = front ++ '\n' :: back →
      Admits change (walk mode (word.map change) front).2.1) :
    scan mode (word.map change) text =
      (scan mode word (returned text)).map (List.map (reword change)) := by
  induction text generalizing mode word with
  | nil => exact keeps.atEnd mode word
  | cons c text ih =>
    rw [List.mem_cons, not_or] at unreturned
    have one : ∃ ended next more, HasBegun next more ∧
        Words.step mode (word.map change) c = (ended.map (reword change), next, more.map change) ∧
        scan mode word (returned (c :: text)) =
          (scan next more (returned text)).map (ended ++ ·) := by
      by_cases newline : c = '\n'
      · subst newline
        exact scan_newline (admits [] text rfl) begun (returned text)
      · rw [returned_cons newline]
        exact ⟨_, _, _, begun.step c, keeps.step newline mode word, rfl⟩
    -- Both readers go on from the same mode, the first one with the changed word.
    obtain ⟨ended, next, more, begun, stepped, read⟩ := one
    have others := ih unreturned.2 begun fun front back parts => by
      have later := admits (c :: front) back (congrArg (c :: ·) parts)
      simpa only [walk, stepped] using later
    rw [read, scan, stepped]
    simp only [others]
    cases scan next more (returned text) with
    | error q => rfl
    | ok words => simp [Except.map]

/-! ## Words without the returns -/

/-- No backslash in front of a text is dropped for what stands behind the text, unless the end of a
line is cut in two. -/
theorem rejoin_append (back_newline : back.head? ≠ some '\n')
    (back_return : ∀ rest, back ≠ '\r' :: '\n' :: rest) :
    rejoin (front ++ back) = rejoin front ++ rejoin back := by
  fun_induction rejoin front with
  | case1 rest ih => simpa [rejoin] using ih
  | case2 c rest apart ih =>
    have still : ∀ others, c = '\\' → rest ++ back = '\r' :: '\n' :: others → False := by
      intro others backslash parts
      match rest with
      | [] => exact back_return others parts
      | [d] =>
        have newline : back = '\n' :: others := (List.cons.inj parts).2
        rw [newline] at back_newline
        exact back_newline rfl
      | d :: e :: rest =>
        obtain ⟨carriage, parts⟩ := List.cons.inj parts
        obtain ⟨newline, _⟩ := List.cons.inj parts
        exact apart rest backslash (by rw [carriage, newline])
    rw [List.cons_append, rejoin.eq_2 _ _ still, ih]
    rfl
  | case3 => rfl

/-- Dropping the returns, for words that are held in reverse. -/
def rejoinBack (read : List Char) : List Char :=
  (rejoin read.reverse).reverse

theorem rewords_rejoinBack : Rewords rejoinBack where
  nil := rfl
  cons := by
    intro c read other
    have apart : rejoin (read.reverse ++ [c]) = rejoin read.reverse ++ [c] := by
      rw [rejoin_append (by simpa using other) (by simp)]
      simp [rejoin]
    simp [rejoinBack, apart]

theorem rejoins_rejoinBack : Rejoins rejoinBack := by
  intro read
  have dropped : rejoin (read.reverse ++ ['\\', '\r', '\n']) = rejoin read.reverse := by
    rw [rejoin_append (by simp) (by simp)]
    simp [rejoin]
  simp [rejoinBack, dropped]

theorem reword_rejoinBack (word : String) :
    reword rejoinBack word = String.ofList (rejoin word.toList) := by
  simp [reword, rejoinBack]

theorem length_rejoin_le (text : List Char) : (rejoin text).length ≤ text.length := by
  fun_induction rejoin text with
  | case1 rest ih =>
    simp only [List.length_cons]
    omega
  | case2 c rest _ ih => exact Nat.succ_le_succ ih
  | case3 => exact Nat.le_refl 0

/-- What is left in a word of a line that is joined to the next one in double quotes. -/
def remnant : List Char :=
  ['\\', '\r', '\n']

theorem rejoin_ne_of_remnant (held : remnant <:+: text) : rejoin text ≠ text := by
  obtain ⟨front, back, rfl⟩ := held
  have dropped : rejoin (front ++ (remnant ++ back)) = rejoin front ++ rejoin back := by
    rw [rejoin_append (by simp [remnant]) (by simp [remnant])]
    simp [remnant, rejoin]
  intro same
  have shorter := congrArg List.length same
  rw [List.append_assoc, dropped, List.length_append, List.length_append, List.length_append]
    at shorter
  have first := length_rejoin_le front
  have last := length_rejoin_le back
  have three : remnant.length = 3 := rfl
  omega

/-- The word that is being read holds what is left of such a line. -/
def HoldsRemnant (word : Partial) : Prop :=
  ∃ read, word = some read ∧ remnant <:+: read.reverse

theorem HoldsRemnant.extend (h : HoldsRemnant word) (c : Char) : HoldsRemnant (extend word c) := by
  obtain ⟨read, rfl, held⟩ := h
  refine ⟨c :: read, rfl, ?_⟩
  rw [List.reverse_cons]
  exact held.trans (List.infix_append_of_infix_left (List.infix_refl _))

theorem HoldsRemnant.begun (h : HoldsRemnant word) : HoldsRemnant (begun word) := by
  obtain ⟨read, rfl, held⟩ := h
  exact ⟨read, rfl, held⟩

theorem HoldsRemnant.finished (h : HoldsRemnant word) :
    ∃ w ∈ finished word, remnant <:+: w.toList := by
  obtain ⟨read, rfl, held⟩ := h
  exact ⟨String.ofList read.reverse, List.mem_singleton_self _, by simpa using held⟩

/-- After one more character it stands in a word that has ended, or it is still there. -/
theorem HoldsRemnant.step (h : HoldsRemnant word) (mode : Mode) (c : Char) :
    (∃ w ∈ (step mode word c).1, remnant <:+: w.toList) ∨ HoldsRemnant (step mode word c).2.2 := by
  have returned := h.extend '\r'
  cases mode <;> simp only [Words.step, bareStep] <;> split_ifs <;>
    simp [h, h.extend, h.begun, h.finished, returned.extend, returned.begun, returned.finished,
      (h.extend '\\').extend]

theorem HoldsRemnant.scan (h : HoldsRemnant word) (read : scan mode word text = .ok words) :
    ∃ w ∈ words, remnant <:+: w.toList := by
  induction text generalizing mode word words with
  | nil =>
    cases mode with
    | bare | escape =>
      cases read
      exact h.finished
    | escapeReturn =>
      cases read
      exact (h.extend '\r').finished
    | single | double | doubleEscape => cases read
  | cons c text ih =>
    obtain ⟨others, later, rfl⟩ := scan_cons_ok_iff.mp read
    rcases h.step mode c with ⟨w, mem, held⟩ | still
    · exact ⟨w, List.mem_append_left _ mem, held⟩
    · obtain ⟨w, mem, held⟩ := ih still later
      exact ⟨w, List.mem_append_right _ mem, held⟩

theorem exists_remnant (unreturned : '\r' ∉ command.toList)
    (joins : JoinsInDouble command.toList) (read : split (withReturns command) = .ok words) :
    ∃ w ∈ words, remnant <:+: w.toList := by
  obtain ⟨front, back, parts, stands⟩ := joins
  have before := not_mem_of_parts unreturned parts
  have mode := walk_returned before (by decide : Mode.bare ≠ .escapeReturn) none none
  rw [walk_doubleEscape before stands] at mode
  rw [split, withReturns, String.toList_ofList, parts, returned_append, returned_newline,
    scan_append, mode] at read
  obtain ⟨others, later, rfl⟩ := map_ok_iff.mp read
  generalize (walk .bare none (returned front)).2.2 = word at later
  rw [scan_return_inDouble] at later
  have left : HoldsRemnant (some ('\n' :: '\r' :: '\\' :: word.getD [])) :=
    ⟨_, rfl, (word.getD []).reverse, [], by simp [remnant]⟩
  obtain ⟨w, mem, held⟩ := left.scan later
  exact ⟨w, List.mem_append_right _ mem, held⟩

/-! ## Ends of lines -/

/-- The words without the returns, from those with them. -/
theorem Rewords.split_eq (keeps : Rewords change) (unreturned : '\r' ∉ command.toList)
    (ends : ∀ front back, command.toList = front ++ '\n' :: back →
      Stands .bare front ∨ Stands .escape front ∨ Stands .doubleEscape front ∧ Rejoins change) :
    split command = (split (withReturns command)).map (List.map (reword change)) := by
  have start : HasBegun .bare none := by simp [HasBegun]
  have admits (front back : List Char) (parts : command.toList = front ++ '\n' :: back) :
      Admits change (walk .bare none front).2.1 := by
    have before := not_mem_of_parts unreturned parts
    rcases ends front back parts with blank | joined | ⟨joined, rejoins⟩
    · exact .inl (walk_bare before blank)
    · exact .inr (.inl (walk_escape before joined))
    · exact .inr (.inr ⟨walk_doubleEscape before joined, rejoins⟩)
  have read := keeps.scan_returned unreturned start admits
  rw [split, split, withReturns, String.toList_ofList]
  exact read

theorem rewords_id : Rewords id where
  nil := rfl
  cons _ _ _ := rfl

theorem reword_id : reword id = id := by
  funext word
  simp [reword]

/-- In a command without carriage returns let every line end outside of quotes or behind a backslash
that joins it to the next one. With a carriage return in front of every newline it is read as before,
unless a line is joined to the next one in double quotes. If one is, and the command falls into words,
it never falls into the same words with the returns. In any case the words
differ in nothing but the backslash, the carriage return and the newline of each such end. -/
theorem split_withReturns (unreturned : '\r' ∉ command.toList) (ends : LinesEnd command.toList) :
    (¬JoinsInDouble command.toList → split (withReturns command) = split command) ∧
    (JoinsInDouble command.toList → ∀ words, split command = .ok words →
      split (withReturns command) ≠ .ok words) ∧
    split command =
      (split (withReturns command)).map (List.map fun w => String.ofList (rejoin w.toList)) := by
  have rejoined : split command =
      (split (withReturns command)).map (List.map fun w => String.ofList (rejoin w.toList)) := by
    have read := rewords_rejoinBack.split_eq unreturned fun front back parts =>
      (ends front back parts).imp_right (.imp_right (⟨·, rejoins_rejoinBack⟩))
    rw [show reword rejoinBack = _ from funext reword_rejoinBack] at read
    exact read
  refine ⟨fun apart => ?_, fun joins words read same => ?_, rejoined⟩
  · have read := rewords_id.split_eq unreturned fun front back parts =>
      (ends front back parts).imp_right (.imp_right fun joined =>
        absurd ⟨front, back, parts, joined⟩ apart)
    rw [read, reword_id, List.map_id_fun]
    cases split (withReturns command) <;> rfl
  · -- Equal words would be left as they are by `rejoin`, but one of them holds a remnant.
    rw [read, same] at rejoined
    have unchanged : words.map (fun w => String.ofList (rejoin w.toList)) = words.map id := by
      rw [List.map_id]
      exact (Except.ok.inj rejoined).symm
    obtain ⟨w, mem, held⟩ := exists_remnant unreturned joins same
    have kept := congrArg String.toList (List.map_inj_left.mp unchanged w mem)
    exact rejoin_ne_of_remnant held (by simpa using kept)

/-- A line that is joined to the next one outside of quotes, and one whose end parts words. -/
theorem split_of_returned_lines : ∃ command : String, '\r' ∉ command.toList ∧
    LinesEnd command.toList ∧ ¬JoinsInDouble command.toList ∧
    withReturns command = "\x22a b\x22 \\\r\nc\r\nd" ∧
    split (withReturns command) = .ok ["a b", "c", "d"] := by
  have unreturned : '\r' ∉ "\x22a b\x22 \\\nc\nd".toList := by decide
  have fronts (front back : List Char)
      (parts : "\x22a b\x22 \\\nc\nd".toList = front ++ '\n' :: back) :
      front = "\x22a b\x22 \\".toList ∨ front = "\x22a b\x22 \\\nc".toList := by
    have cut : ∃ rest, front = "\x22a b\x22 \\".toList ++ rest ∧
        (rest = [] ∧ back = ['c', '\n', 'd'] ∨ rest = ['\n', 'c'] ∧ back = ['d']) := by
      simpa [List.cons_eq_append_iff] using parts
    obtain ⟨_, rfl, ⟨rfl, _⟩ | ⟨rfl, _⟩⟩ := cut
    · exact .inl rfl
    · exact .inr rfl
  have ends : LinesEnd "\x22a b\x22 \\\nc\nd".toList := by
    intro front back parts
    rcases fronts front back parts with rfl | rfl
    · exact .inr (.inl (stands_of_walk rfl))
    · exact .inl (stands_of_walk rfl)
  have apart : ¬JoinsInDouble "\x22a b\x22 \\\nc\nd".toList := by
    rintro ⟨front, back, parts, stands⟩
    have mode := walk_doubleEscape (not_mem_of_parts unreturned parts) stands
    rcases fronts front back parts with rfl | rfl <;> cases mode
  obtain ⟨same, _⟩ := split_withReturns unreturned ends
  exact ⟨_, unreturned, ends, apart, rfl, (same apart).trans rfl⟩

/-- A line that is joined to the next one in the middle of a word in double quotes. -/
theorem returns_left_in_quotes : ∃ command : String, '\r' ∉ command.toList ∧
    LinesEnd command.toList ∧ withReturns command = "\x22a\\\r\nb\x22" ∧
    split command = .ok ["ab"] ∧ split (withReturns command) = .ok ["a\\\r\nb"] := by
  refine ⟨"\x22a\\\nb\x22", by decide, fun front back parts => ?_, rfl, rfl, rfl⟩
  have cut : front = "\x22a\\".toList ∧ back = ['b', '\x22'] := by
    simpa [List.cons_eq_append_iff] using parts
  rw [cut.1]
  exact .inr (.inr (stands_of_walk rfl))

end Walkthrough.Words
