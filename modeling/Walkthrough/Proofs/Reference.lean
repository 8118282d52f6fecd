import Walkthrough.Flow.Reference
import Walkthrough.Proofs.Text

/-!
# References as they are written

`Spells` says which texts write a reference, and which one, without a reader. A text is read as the
reference that it spells, and only then. So a reference that has been read is written as it stood, one
that is written is read again, and no text spells both a field and a variable.
-/

namespace Walkthrough.Reference

variable {start cs rest : List Char} {s : String} {reference : Reference}

/-- The name is not empty, and no line ends in it. -/
def OneLine (name : String) : Prop :=
  name ≠ "" ∧ ∀ c ∈ name.toList, Text.isLineEnd c = false

/-- A text and the reference that it writes. The name of a step holds no dot, while dots may follow in
the name of the field. -/
inductive Spells : String → Reference → Prop
  | field {step name : String} (named : step ≠ "") (whole : '.' ∉ step.toList)
      (inLine : OneLine name) : Spells ("step." ++ step ++ "." ++ name) (.field step name)
  | setting {name : String} (inLine : OneLine name) : Spells ("var." ++ name) (.setting name)

theorem isTail_iff : isTail cs = true ↔ cs ≠ [] ∧ ∀ c ∈ cs, Text.isLineEnd c = false := by
  cases cs <;> simp [isTail]

theorem isTail_toList_iff {name : String} : isTail name.toList = true ↔ OneLine name := by
  rw [isTail_iff, OneLine, ne_eq, String.toList_eq_nil_iff]

theorem Spells.write_eq (h : Spells s reference) : write reference = s := by
  cases h <;> rfl

/-! ## What is read is spelled -/

theorem eq_append_of_afterChars? (h : afterChars? start cs = some rest) : cs = start ++ rest := by
  induction start generalizing cs with
  | nil =>
    cases h
    rfl
  | cons x start ih =>
    cases cs with
    | nil => cases h
    | cons c cs =>
      unfold afterChars? at h
      split at h
      next same =>
        subst same
        rw [ih h]
        rfl
      next => cases h

theorem spells_of_field? (h : field? s.toList = some reference) : Spells s reference := by
  unfold field? at h
  split at h
  · cases h
  next rest found =>
    split at h
    next id name cut =>
      split at h
      next both =>
        cases h
        obtain ⟨named, tail⟩ := Bool.and_eq_true_iff.mp both
        have absent : '.' ∉ id := by simpa [cut] using Text.not_mem_cutChars '.' rest
        have spelled : s = "step." ++ String.ofList id ++ "." ++ String.ofList name := by
          rw [← String.toList_inj, eq_append_of_afterChars? found, ← Text.eq_append_of_cutChars cut]
          simp
        rw [spelled]
        refine .field ?_ (by simpa using absent) (isTail_toList_iff.mp (by simpa using tail))
        simpa using named
      next => cases h
    next => cases h

theorem spells_of_setting? (h : setting? s.toList = some reference) : Spells s reference := by
  unfold setting? at h
  split at h
  · cases h
  next rest found =>
    split at h
    next tail =>
      cases h
      have spelled : s = "var." ++ String.ofList rest := by
        rw [← String.toList_inj, eq_append_of_afterChars? found]
        simp
      rw [spelled]
      exact .setting (isTail_toList_iff.mp (by simpa using tail))
    next => cases h

theorem spells_of_read? (h : read? s = some reference) : Spells s reference := by
  unfold read? at h
  cases field : field? s.toList with
  | some other =>
    rw [field] at h
    cases h
    exact spells_of_field? field
  | none =>
    rw [field] at h
    exact spells_of_setting? h

/-- Writing a reference that has been read gives the text that it was read from. -/
theorem write_of_read? (h : read? s = some reference) : write reference = s :=
  (spells_of_read? h).write_eq

theorem isTail_of_read? {step name : String} (h : read? s = some (field step name)) :
    isTail name.toList = true := by
  cases spells_of_read? h with
  | field _ _ inLine => exact isTail_toList_iff.mpr inLine

/-! ## What is spelled is read -/

theorem afterChars?_append (start rest : List Char) :
    afterChars? start (start ++ rest) = some rest := by
  induction start with
  | nil => rfl
  | cons x start ih => simp [afterChars?, ih]

theorem read?_field {step name : String} (named : step ≠ "") (whole : '.' ∉ step.toList)
    (tail : isTail name.toList = true) :
    read? (write (field step name)) = some (field step name) := by
  have written : (write (field step name)).toList =
      "step.".toList ++ (step.toList ++ '.' :: name.toList) := by
    simp [write]
  have found : field? (write (field step name)).toList = some (field step name) := by
    unfold field?
    rw [written, afterChars?_append]
    simp [Text.cutChars_append whole, tail, named]
  rw [read?, found]
  rfl

theorem read?_setting {name : String} (tail : isTail name.toList = true) :
    read? (write (setting name)) = some (setting name) := by
  have written : (write (setting name)).toList = "var.".toList ++ name.toList := by simp [write]
  -- No text begins in both ways.
  have noField : field? (write (setting name)).toList = none := by
    rw [written]
    rfl
  rw [read?, noField]
  show setting? (write (setting name)).toList = _
  unfold setting?
  rw [written, afterChars?_append]
  simp [tail]

theorem read?_of_spells (h : Spells s reference) : read? s = some reference := by
  cases h with
  | field named whole inLine => exact read?_field named whole (isTail_toList_iff.mpr inLine)
  | setting inLine => exact read?_setting (isTail_toList_iff.mpr inLine)

/-! ## One reading -/

/-- A text is read if and only if it spells a field of a step or a variable, and it never spells both.
The reference that is read is the spelled one; it is written as that text, and what is written for it
is read as this reference again. -/
theorem read?_exactly (s : String) :
    ((read? s).isSome = true ↔
      (∃ step name, Spells s (.field step name)) ∨ ∃ name, Spells s (.setting name)) ∧
    ¬((∃ step name, Spells s (.field step name)) ∧ ∃ name, Spells s (.setting name)) ∧
    ∀ reference, (read? s = some reference → Spells s reference ∧ write reference = s) ∧
      (Spells s reference → read? (write reference) = some reference) := by
  refine ⟨⟨fun read => ?_, ?_⟩, ?_, fun reference => ⟨fun read => ?_, fun spelled => ?_⟩⟩
  · obtain ⟨reference, found⟩ := Option.isSome_iff_exists.mp read
    cases reference with
    | field step name => exact .inl ⟨step, name, spells_of_read? found⟩
    | setting name => exact .inr ⟨name, spells_of_read? found⟩
  · rintro (⟨step, name, spelled⟩ | ⟨name, spelled⟩) <;> rw [read?_of_spells spelled] <;> rfl
  · rintro ⟨⟨step, name, asField⟩, other, asSetting⟩
    have same := (read?_of_spells asField).symm.trans (read?_of_spells asSetting)
    cases same
  · exact ⟨spells_of_read? read, write_of_read? read⟩
  · rw [spelled.write_eq]
    exact read?_of_spells spelled

/-- The name of a step over two lines, and a field with dots. -/
theorem read?_over_lines :
    read? "step.sign\nin.user..id" = some (.field "sign\nin" "user..id") ∧
      write (.field "sign\nin" "user..id") = "step.sign\nin.user..id" := by
  have inLine : OneLine "user..id" := ⟨by decide, by simp [Text.isLineEnd]⟩
  have named : "sign\nin" ≠ "" := by decide
  have spelled : Spells "step.sign\nin.user..id" (.field "sign\nin" "user..id") :=
    Spells.field named (by decide) inLine
  obtain ⟨_, _, each⟩ := read?_exactly "step.sign\nin.user..id"
  obtain ⟨back, again⟩ := each (.field "sign\nin" "user..id")
  have read := again spelled
  exact ⟨read, (back read).2⟩

end Walkthrough.Reference
