import Walkthrough.Proofs.Path
import Walkthrough.Text.Units

/-!
# Texts on their way through bytes

Where half of a character stands alone, the bytes of a text hold something else (`Text.repair`). A
slash is in no way touched by that, nor is one made, so the names on a path are repaired one by one.
-/

namespace Walkthrough

namespace Text

variable {c : Char} {s : String}

/-- Of all numbers one alone is that of the slash. -/
theorem ofNat_ne_slash {n : Nat} (other : n ≠ 47) : Char.ofNat n ≠ '/' := by
  intro slash
  by_cases valid : n.isValidChar
  · have number := toNat_ofNat valid
    rw [slash] at number
    exact other number.symm
  · have null : Char.ofNat n = '\x00' := dif_neg valid
    rw [slash] at null
    exact absurd null (by decide)

theorem half_ne_slash (unit : Nat) : half unit ≠ '/' :=
  ofNat_ne_slash (by unfold firstHalf; omega)

theorem joinHalves_ne_slash (lead trail : Char) : joinHalves lead trail ≠ '/' :=
  ofNat_ne_slash (by omega)

theorem slash_mem_held : '/' ∈ held c ↔ c = '/' := by
  unfold held halves
  split
  next isHalf =>
    have other : c ≠ '/' := by
      rintro rfl
      exact absurd isHalf (by decide)
    simp [(half_ne_slash _).symm, other]
  next => simp [eq_comm]

/-- What stands before and behind a character that is no half is visited on its own. -/
theorem visit_append {α : Type} (pair : Char → Char → List α) (single : Char → List α)
    (whole : isHalf c = false) (before behind : List Char) :
    visit pair single (before ++ c :: behind) =
      visit pair single before ++ single c ++ visit pair single behind := by
  have front : visit pair single (c :: behind) = single c ++ visit pair single behind := by
    cases behind with
    | nil => simp [visit]
    | cons b behind => simp [visit, isLead, whole]
  induction before using visit.induct with
  | case1 => simpa [visit] using front
  | case2 a => simp [visit, isTrail, whole, front]
  | case3 a b rest meet ih => simp [visit, meet, ih]
  | case4 a b rest apart ih => simpa [visit, apart] using ih

theorem mem_visit {α : Type} {pair : Char → Char → List α} {single : Char → List α} {x : α}
    {cs : List Char} (mem : x ∈ visit pair single cs) :
    (∃ a b, x ∈ pair a b) ∨ ∃ a ∈ cs, x ∈ single a := by
  induction cs using visit.induct with
  | case1 => simp [visit] at mem
  | case2 a => exact Or.inr ⟨a, by simp, by simpa [visit] using mem⟩
  | case3 a b rest meet ih =>
    rw [visit, if_pos meet, List.mem_append] at mem
    rcases mem with here | later
    · exact Or.inl ⟨a, b, here⟩
    · exact (ih later).imp_right fun ⟨d, within, x⟩ => ⟨d, by simp [within], x⟩
  | case4 a b rest apart ih =>
    rw [visit, if_neg apart, List.mem_append] at mem
    rcases mem with here | later
    · exact Or.inr ⟨a, by simp, here⟩
    · exact (ih later).imp_right fun ⟨d, within, x⟩ => ⟨d, List.mem_cons_of_mem _ within, x⟩

/-! ## Repaired texts -/

/-- What is made of one character that stands alone. -/
def mend (c : Char) : List Char :=
  [if isHalf c then '\uFFFD' else c]

theorem toList_repair (s : String) : (repair s).toList =
    (visit (fun lead trail => [joinHalves lead trail]) mend s.toList).flatMap held := by
  rw [repair, receive, scrub, String.toList_ofList, String.toList_ofList]
  rfl

theorem slash_not_mem_repair (whole : '/' ∉ s.toList) : '/' ∉ (repair s).toList := by
  rw [toList_repair, List.mem_flatMap]
  rintro ⟨c, mem, slash⟩
  rw [slash_mem_held.mp slash] at mem
  rcases mem_visit mem with ⟨lead, trail, met⟩ | ⟨a, within, alone⟩
  · exact joinHalves_ne_slash lead trail (List.mem_singleton.mp met).symm
  · unfold mend at alone
    split at alone
    · exact absurd alone (by decide)
    · exact whole (List.mem_singleton.mp alone ▸ within)

/-- The texts on both sides of a slash are repaired one by one. -/
theorem repair_slash (first second : String) :
    repair (first ++ "/" ++ second) = repair first ++ "/" ++ repair second := by
  have slash : (mend '/').flatMap held = ['/'] := by decide
  have spelled : (first ++ "/" ++ second).toList = first.toList ++ '/' :: second.toList := by simp
  rw [← String.toList_inj, toList_repair, spelled, visit_append _ _ (by decide), List.flatMap_append,
    List.flatMap_append, slash]
  simp [toList_repair]

theorem repair_joinWith (names : List String) :
    repair (joinWith "/" names) = joinWith "/" (names.map repair) := by
  induction names with
  | nil => rfl
  | cons first others ih =>
    cases others with
    | nil => simp [joinWith]
    | cons second others =>
      rw [joinWith_cons_cons, repair_slash, ih]
      simp [joinWith_cons_cons]

end Text

end Walkthrough
