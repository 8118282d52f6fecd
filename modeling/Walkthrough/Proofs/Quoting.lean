import Mathlib.Tactic.SplitIfs
import Walkthrough.Words

/-!
# The grammar of shell words

`Spelled` says which words a text spells, without a reader: words are items in a row, and what stands
between two of them is blank characters and joined lines. `Words.split` finds exactly these words. It
fails on no text but one that leaves a quotation open, and fails on each of those (`LeftOpen`).
-/

namespace Walkthrough.Words

open Walkthrough.Text (isBlank)

variable {mode next : Mode} {word more : Partial} {c : Char} {q : Quotation}
  {written read front back text rest : List Char}

/-! ## The grammar -/

/-- What is written in double quotes, and what it is read as. -/
inductive InDouble : List Char → List Char → Prop
  | nil : InDouble [] []
  | plain {c : Char} {written read : List Char} (quote : c ≠ '\x22') (backslash : c ≠ '\\')
      (more : InDouble written read) : InDouble (c :: written) (c :: read)
  /-- An escaped character stands for itself. -/
  | escaped {c : Char} {written read : List Char} (mark : c ∈ ['\x22', '\\', '$', '\x60'])
      (more : InDouble written read) : InDouble ('\\' :: c :: written) (c :: read)
  | joined {written read : List Char} (more : InDouble written read) :
      InDouble ('\\' :: '\n' :: written) read
  /-- In front of any other character the backslash stands as well. -/
  | kept {c : Char} {written read : List Char} (other : c ∉ ['\x22', '\\', '$', '\x60', '\n'])
      (more : InDouble written read) : InDouble ('\\' :: c :: written) ('\\' :: c :: read)

/-- One item of a word, and what it adds to the word. -/
inductive Item : List Char → List Char → Prop
  | plain {c : Char} (single : c ≠ '\x27') (double : c ≠ '\x22') (backslash : c ≠ '\\')
      (visible : isBlank c = false) : Item [c] [c]
  | single {body : List Char} (closed : '\x27' ∉ body) : Item ('\x27' :: (body ++ ['\x27'])) body
  | double {written read : List Char} (inside : InDouble written read) :
      Item ('\x22' :: (written ++ ['\x22'])) read
  | escaped {c : Char} (newline : c ≠ '\n') (carriage : c ≠ '\r') : Item ['\\', c] [c]

/-- The end of a line that is joined to the next one. -/
inductive Joint : List Char → Prop
  | newline : Joint ['\\', '\n']
  | returned : Joint ['\\', '\r', '\n']

/-- Items and joints in a row, and what the items are read as together; there is no word as long as
there are only joints. -/
inductive Spelling : List Char → Option (List Char) → Prop
  | nil : Spelling [] none
  | item {written read more : List Char} {others : Option (List Char)} (first : Item written read)
      (rest : Spelling more others) : Spelling (written ++ more) (some (read ++ others.getD []))
  | joint {written more : List Char} {others : Option (List Char)} (first : Joint written)
      (rest : Spelling more others) : Spelling (written ++ more) others

/-- Blank characters and joints in a row, and whether there is a blank character among them. -/
inductive Gap : List Char → Bool → Prop
  | nil : Gap [] false
  | blank {c : Char} {more : List Char} {parts : Bool} (first : isBlank c = true)
      (rest : Gap more parts) : Gap (c :: more) true
  | joint {written more : List Char} {parts : Bool} (first : Joint written) (rest : Gap more parts) :
      Gap (written ++ more) parts

/-- A text and the words that it spells; `after` says that a word stands directly in front of the
text, so that a blank character has to come before the next one. -/
inductive Spelled : Bool → List Char → List String → Prop
  | ended {after parts : Bool} {gap : List Char} (between : Gap gap parts) : Spelled after gap []
  | word {after parts : Bool} {gap written read more : List Char} {words : List String}
      (between : Gap gap parts) (apart : after = true → parts = true)
      (first : Spelling written (some read)) (rest : Spelled true more words) :
      Spelled after (gap ++ (written ++ more)) (String.ofList read :: words)

/-- Characters that stand for themselves, in front of the rest of a word. -/
theorem Spelling.plain {cs more : List Char} {others : Option (List Char)} (nonempty : cs ≠ [])
    (plain : ∀ c ∈ cs, c ≠ '\x27' ∧ c ≠ '\x22' ∧ c ≠ '\\' ∧ isBlank c = false)
    (rest : Spelling more others) : Spelling (cs ++ more) (some (cs ++ others.getD [])) := by
  induction cs with
  | nil => exact absurd rfl nonempty
  | cons c cs ih =>
    obtain ⟨⟨single, double, backslash, visible⟩, later⟩ := List.forall_mem_cons.mp plain
    have first : Item [c] [c] := .plain single double backslash visible
    cases cs with
    | nil => exact .item first rest
    | cons next cs =>
      rw [List.cons_append]
      exact .item first (ih (by simp) later)

theorem gap_of_isBlank {cs : List Char} (blank : ∀ c ∈ cs, isBlank c = true) :
    ∃ parts, Gap cs parts := by
  induction cs with
  | nil => exact ⟨false, .nil⟩
  | cons c cs ih =>
    obtain ⟨first, others⟩ := List.forall_mem_cons.mp blank
    obtain ⟨_, rest⟩ := ih others
    exact ⟨true, .blank first rest⟩

/-! ## Spelled words are found -/

/-- A character that ends no word only moves the reader on. -/
theorem scan_cons (quiet : step mode word c = ([], next, more)) (rest : List Char) :
    scan mode word (c :: rest) = scan next more rest := by
  rw [scan, quiet]
  show (scan next more rest).map (fun words => words) = scan next more rest
  cases scan next more rest <;> rfl

theorem isEscapedInDouble_iff : isEscapedInDouble c = true ↔ c ∈ ['\x22', '\\', '$', '\x60'] := by
  simp [isEscapedInDouble, or_assoc]

theorem step_double (quote : c ≠ '\x22') (backslash : c ≠ '\\') :
    step .double word c = ([], .double, extend word c) := by
  simp [step, quote, backslash]

theorem step_doubleEscape_of_mark (mark : c ∈ ['\x22', '\\', '$', '\x60']) :
    step .doubleEscape word c = ([], .double, extend word c) := by
  have newline : c ≠ '\n' := by
    rintro rfl
    exact absurd mark (by decide)
  simp [step, newline, isEscapedInDouble_iff.mpr mark]

theorem step_doubleEscape_of_other (other : c ∉ ['\x22', '\\', '$', '\x60', '\n']) :
    step .doubleEscape word c = ([], .double, extend (extend word '\\') c) := by
  have newline : c ≠ '\n' := by
    rintro rfl
    exact other (by decide)
  have unmarked : isEscapedInDouble c ≠ true := by
    rw [Ne, isEscapedInDouble_iff]
    intro mark
    exact other (List.mem_append_left ['\n'] mark)
  simp [step, newline, unmarked]

theorem scan_inDouble (h : InDouble written read) (before rest : List Char) :
    scan .double (some before) (written ++ rest) =
      scan .double (some (read.reverse ++ before)) rest := by
  induction h generalizing before with
  | nil => rfl
  | plain quote backslash _ ih =>
    rw [List.cons_append, scan_cons (step_double quote backslash), extend, ih]
    simp
  | escaped mark _ ih =>
    rw [List.cons_append, List.cons_append, scan_cons rfl,
      scan_cons (step_doubleEscape_of_mark mark), extend, ih]
    simp
  | joined _ ih =>
    rw [List.cons_append, List.cons_append, scan_cons rfl, scan_cons rfl, ih]
  | kept other _ ih =>
    rw [List.cons_append, List.cons_append, scan_cons rfl,
      scan_cons (step_doubleEscape_of_other other), extend, extend, ih]
    simp

theorem scan_inSingle {body : List Char} (closed : '\x27' ∉ body) (before rest : List Char) :
    scan .single (some before) (body ++ rest) =
      scan .single (some (body.reverse ++ before)) rest := by
  induction body generalizing before with
  | nil => rfl
  | cons c body ih =>
    rw [List.mem_cons, not_or] at closed
    have quiet : step .single (some before) c = ([], .single, some (c :: before)) := by
      simp [step, Ne.symm closed.1, extend]
    rw [List.cons_append, scan_cons quiet, ih closed.2]
    simp

/-- An item only adds to the word that is being read. -/
theorem scan_item (h : Item written read) (word : Partial) (rest : List Char) :
    scan .bare word (written ++ rest) = scan .bare (some (read.reverse ++ word.getD [])) rest := by
  cases h with
  | plain single double backslash visible =>
    refine scan_cons ?_ rest
    simp [step, bareStep, single, double, backslash, visible, extend]
  | single closed =>
    rw [List.cons_append, List.append_assoc, scan_cons rfl, begun, scan_inSingle closed]
    exact scan_cons rfl rest
  | double inside =>
    rw [List.cons_append, List.append_assoc, scan_cons rfl, begun, scan_inDouble inside]
    exact scan_cons rfl rest
  | @escaped c newline carriage =>
    have quiet : step .escape word c = ([], .bare, extend word c) := by
      simp [step, newline, carriage]
    rw [List.cons_append, scan_cons rfl]
    exact scan_cons quiet rest

/-- A joint is read as nothing. -/
theorem scan_joint (h : Joint written) (word : Partial) (rest : List Char) :
    scan .bare word (written ++ rest) = scan .bare word rest := by
  cases h with
  | newline =>
    rw [List.cons_append, scan_cons rfl, List.cons_append, scan_cons rfl, List.nil_append]
  | returned =>
    rw [List.cons_append, scan_cons rfl, List.cons_append, scan_cons rfl, List.cons_append,
      scan_cons rfl, List.nil_append]

/-- The word that is being read, with more of it. -/
def extended (word : Partial) : Option (List Char) → Partial
  | none => word
  | some read => some (read.reverse ++ word.getD [])

theorem scan_spelling {read : Option (List Char)} (h : Spelling written read) (word : Partial)
    (rest : List Char) :
    scan .bare word (written ++ rest) = scan .bare (extended word read) rest := by
  induction h generalizing word with
  | nil => rfl
  | @item _ _ _ others first _ ih =>
    rw [List.append_assoc, scan_item first, ih]
    cases others <;> simp [extended]
  | joint first _ ih => rw [List.append_assoc, scan_joint first, ih]

theorem step_of_isBlank (blank : isBlank c = true) (word : Partial) :
    step .bare word c = (finished word, .bare, none) := by
  have apart : c ≠ '\x27' ∧ c ≠ '\x22' ∧ c ≠ '\\' := by
    refine ⟨?_, ?_, ?_⟩ <;>
      rintro rfl <;>
      exact absurd blank (by decide)
  simp [step, bareStep, apart, blank]

/-- The first blank character of a gap ends the word in front of it, and the others end nothing. -/
theorem scan_gap {gap : List Char} {parts : Bool} (h : Gap gap parts) (word : Partial)
    (rest : List Char) : scan .bare word (gap ++ rest) =
      if parts then (scan .bare none rest).map (finished word ++ ·) else scan .bare word rest := by
  induction h generalizing word with
  | nil => rfl
  | @blank c more parts first _ ih =>
    rw [List.cons_append, scan, step_of_isBlank first]
    simp only [ih]
    cases scan .bare none rest <;> cases parts <;> rfl
  | joint first _ ih => rw [List.append_assoc, scan_joint first, ih]

theorem scan_spelled {after : Bool} {words : List String} (h : Spelled after text words)
    {word : Partial} (stands : word.isSome = after) :
    scan .bare word text = .ok (finished word ++ words) := by
  induction h generalizing word with
  | @ended _ parts gap between =>
    have read := scan_gap between word []
    rw [List.append_nil] at read
    rw [read]
    cases parts with
    | true => rfl
    | false => simp [scan, atEnd]
  | @word after parts gap written read more words between apart first _ ih =>
    rw [scan_gap between, scan_spelling first, scan_spelling first]
    have begin : scan .bare (extended none (some read)) more =
        .ok (String.ofList read :: words) := by
      rw [ih rfl]
      simp [extended, finished]
    cases parts with
    | true =>
      rw [if_pos rfl, begin]
      rfl
    | false =>
      -- Without a blank character there is no word in front of this one.
      cases word with
      | none => exact begin
      | some _ => exact absurd (apart stands.symm) (by decide)

/-! ## Texts that leave a quotation open -/

/-- Items, blank characters and escapes in a row: every quotation in it is closed. -/
inductive Closed : List Char → Prop
  | nil : Closed []
  | blank {c : Char} {more : List Char} (first : isBlank c = true) (rest : Closed more) :
      Closed (c :: more)
  | item {written read more : List Char} (first : Item written read) (rest : Closed more) :
      Closed (written ++ more)
  /-- Outside quotes a backslash escapes every character. -/
  | escape {c : Char} {more : List Char} (rest : Closed more) : Closed ('\\' :: c :: more)

/-- A quotation that goes on to the end of the text. -/
inductive Open : Quotation → List Char → Prop
  | single {body : List Char} (closed : '\x27' ∉ body) : Open .single ('\x27' :: body)
  | double {written read : List Char} (inside : InDouble written read) :
      Open .double ('\x22' :: written)
  /-- The text may end with a backslash. -/
  | backslash {written read : List Char} (inside : InDouble written read) :
      Open .double ('\x22' :: (written ++ ['\\']))

/-- Some part of the text up to its end is a quotation that is never closed, and in front of it all
quotations are. -/
def LeftOpen (q : Quotation) (text : List Char) : Prop :=
  ∃ front back, text = front ++ back ∧ Closed front ∧ Open q back

theorem InDouble.append (h : InDouble written read) {more others : List Char}
    (next : InDouble more others) : InDouble (written ++ more) (read ++ others) := by
  induction h with
  | nil => exact next
  | plain quote backslash _ ih => exact .plain quote backslash ih
  | escaped mark _ ih => exact .escaped mark ih
  | joined _ ih => exact .joined ih
  | kept other _ ih => exact .kept other ih

theorem Closed.append (h : Closed front) (next : Closed back) : Closed (front ++ back) := by
  induction h with
  | nil => exact next
  | blank first _ ih => exact .blank first ih
  | item first _ ih =>
    rw [List.append_assoc]
    exact .item first ih
  | escape _ ih => exact .escape ih

theorem Closed.append_item (h : Closed front) (last : Item written read) :
    Closed (front ++ written) := by
  have alone : Closed written := by simpa using Closed.item last .nil
  exact h.append alone

/-- What has been read when the reader stands in a mode. -/
def Stands : Mode → List Char → Prop
  | .bare, text => Closed text
  | .escape, text => ∃ front, text = front ++ ['\\'] ∧ Closed front
  | .escapeReturn, text => Closed text
  | .single, text => ∃ front body, text = front ++ '\x27' :: body ∧ Closed front ∧ '\x27' ∉ body
  | .double, text => ∃ front written read, text = front ++ '\x22' :: written ∧ Closed front ∧
      InDouble written read
  | .doubleEscape, text => ∃ front written read, text = front ++ '\x22' :: (written ++ ['\\']) ∧
      Closed front ∧ InDouble written read

theorem stands_bareStep (closed : Closed text) (word : Partial) (c : Char) :
    Stands (bareStep word c).2.1 (text ++ [c]) := by
  unfold bareStep
  split
  next single =>
    subst single
    exact ⟨text, [], rfl, closed, by simp⟩
  split
  next double =>
    subst double
    exact ⟨text, [], [], rfl, closed, .nil⟩
  split
  next backslash =>
    subst backslash
    exact ⟨text, rfl, closed⟩
  split
  next blank => exact closed.append (.blank blank .nil)
  next single double backslash visible =>
    exact closed.append_item (.plain single double backslash (by simpa using visible))

/-- One character leads from what has been read to what has been read after it. -/
theorem Stands.step (h : Stands mode text) (word : Partial) (c : Char) :
    Stands (step mode word c).2.1 (text ++ [c]) := by
  cases mode with
  | bare => exact stands_bareStep h word c
  | escape =>
    obtain ⟨front, rfl, closed⟩ := h
    have escaped : Closed (front ++ ['\\'] ++ [c]) := by
      rw [List.append_assoc]
      exact closed.append (.escape .nil)
    simp only [Words.step]
    split
    · exact escaped
    split <;> exact escaped
  | escapeReturn =>
    have closed : Closed text := h
    simp only [Words.step]
    split
    next newline =>
      subst newline
      exact closed.append (.blank (by decide) .nil)
    · exact stands_bareStep closed _ c
  | single =>
    obtain ⟨front, body, rfl, closed, inside⟩ := h
    rw [List.append_assoc, List.cons_append]
    simp only [Words.step]
    split
    next quote =>
      subst quote
      exact closed.append_item (.single inside)
    next other => exact ⟨front, body ++ [c], rfl, closed, by simpa [inside] using Ne.symm other⟩
  | double =>
    obtain ⟨front, written, read, rfl, closed, inside⟩ := h
    rw [List.append_assoc, List.cons_append]
    simp only [Words.step]
    split
    next quote =>
      subst quote
      exact closed.append_item (.double inside)
    split
    next backslash =>
      subst backslash
      exact ⟨front, written, read, rfl, closed, inside⟩
    next quote backslash =>
      exact ⟨front, written ++ [c], read ++ [c], rfl, closed,
        inside.append (.plain quote backslash .nil)⟩
  | doubleEscape =>
    obtain ⟨front, written, read, rfl, closed, inside⟩ := h
    rw [List.append_assoc, List.cons_append, List.append_assoc]
    simp only [Words.step]
    split
    next newline =>
      subst newline
      exact ⟨front, _, _, rfl, closed, inside.append (.joined .nil)⟩
    split
    next mark =>
      have escaped := InDouble.escaped (isEscapedInDouble_iff.mp mark) .nil
      exact ⟨front, _, _, rfl, closed, inside.append escaped⟩
    next newline unmarked =>
      have other : c ∉ ['\x22', '\\', '$', '\x60'] ++ ['\n'] := by
        rw [isEscapedInDouble_iff] at unmarked
        rw [List.mem_append, not_or]
        exact ⟨unmarked, by simpa using newline⟩
      exact ⟨front, _, _, rfl, closed, inside.append (.kept other .nil)⟩

theorem leftOpen_of_atEnd (h : Stands mode text) (failed : atEnd mode word = .error q) :
    LeftOpen q text := by
  cases mode with
  | bare | escape | escapeReturn => cases failed
  | single =>
    cases failed
    obtain ⟨front, body, rfl, closed, inside⟩ := h
    exact ⟨front, _, rfl, closed, .single inside⟩
  | double =>
    cases failed
    obtain ⟨front, written, read, rfl, closed, inside⟩ := h
    exact ⟨front, _, rfl, closed, .double inside⟩
  | doubleEscape =>
    cases failed
    obtain ⟨front, written, read, rfl, closed, inside⟩ := h
    exact ⟨front, _, rfl, closed, .backslash inside⟩

theorem map_eq_error_iff {α β : Type} {f : α → β} {e : Except Quotation α} :
    e.map f = .error q ↔ e = .error q := by
  cases e <;> simp [Except.map]

theorem leftOpen_of_scan (h : Stands mode text) (failed : scan mode word rest = .error q) :
    LeftOpen q (text ++ rest) := by
  induction rest generalizing mode word text with
  | nil =>
    rw [List.append_nil]
    exact leftOpen_of_atEnd h failed
  | cons c rest ih =>
    rw [List.append_cons]
    exact ih (h.step word c) (map_eq_error_iff.mp failed)

/-! ## Open quotations are found -/

theorem step_mode (mode : Mode) (word other : Partial) (c : Char) :
    (step mode word c).2.1 = (step mode other c).2.1 := by
  cases mode <;> simp only [step, bareStep] <;> split_ifs <;> rfl

/-- Whether a text is read does not depend on the word in front of it. -/
theorem scan_error_iff (mode : Mode) (word other : Partial) (text : List Char) :
    scan mode word text = .error q ↔ scan mode other text = .error q := by
  induction text generalizing mode word other with
  | nil => cases mode <;> simp [scan, atEnd]
  | cons c text ih =>
    simp only [scan, map_eq_error_iff]
    rw [step_mode mode word other c]
    exact ih _ _ _

theorem scan_escapeReturn_error_iff (word other : Partial) (text : List Char) :
    scan .escapeReturn word text = .error q ↔ scan .bare other text = .error q := by
  cases text with
  | nil => simp [scan, atEnd]
  | cons c text =>
    by_cases newline : c = '\n'
    · subst newline
      rw [scan_cons rfl, scan, step_of_isBlank (by decide), map_eq_error_iff]
      exact scan_error_iff ..
    · have same : scan .escapeReturn word (c :: text) =
          scan .bare (extend word '\r') (c :: text) := by
        simp [scan, step, newline]
      rw [same]
      exact scan_error_iff ..

theorem scan_error_of_open (h : Open q back) (word : Partial) :
    scan .bare word back = .error q := by
  cases h with
  | @single body closed =>
    have read := scan_inSingle closed (word.getD []) []
    rw [List.append_nil] at read
    rw [scan_cons rfl, begun, read]
    rfl
  | @double written read inside =>
    have read := scan_inDouble inside (word.getD []) []
    rw [List.append_nil] at read
    rw [scan_cons rfl, begun, read]
    rfl
  | backslash inside =>
    rw [scan_cons rfl, begun, scan_inDouble inside]
    rfl

theorem scan_closed_error (h : Closed front) (failed : ∀ word, scan .bare word back = .error q)
    (word : Partial) : scan .bare word (front ++ back) = .error q := by
  induction h generalizing word with
  | nil => exact failed word
  | blank first _ ih =>
    rw [List.cons_append, scan, step_of_isBlank first, map_eq_error_iff]
    exact ih none
  | item first _ ih =>
    rw [List.append_assoc, scan_item first]
    exact ih _
  | @escape c more _ ih =>
    rw [List.cons_append, List.cons_append, scan_cons rfl]
    by_cases newline : c = '\n'
    · subst newline
      rw [scan_cons rfl]
      exact ih word
    by_cases carriage : c = '\r'
    · subst carriage
      rw [scan_cons rfl, scan_escapeReturn_error_iff word word]
      exact ih word
    · have quiet : step .escape word c = ([], .bare, extend word c) := by
        simp [step, newline, carriage]
      rw [scan_cons quiet]
      exact ih _

theorem split_error_iff {command : String} :
    split command = .error q ↔ LeftOpen q command.toList := by
  have start : Stands .bare [] := Closed.nil
  constructor
  · exact leftOpen_of_scan start
  · rintro ⟨front, back, spelled, closed, unclosed⟩
    rw [split, spelled]
    exact scan_closed_error closed (scan_error_of_open unclosed) none

end Walkthrough.Words
