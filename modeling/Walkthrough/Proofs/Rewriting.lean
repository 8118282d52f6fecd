import Walkthrough.Template
import Walkthrough.Proofs.Ledger
import Mathlib.Data.List.Induction

/-!
# Replacing tokens

`Template.Rewrites` is the scan that replaces tokens: from left to right, at each place the longest
token that stands there is replaced by its value, and where none stands one unit is copied. Where
tokens are not empty and have one value each, the scan has one outcome, and `Template.replace` finds
it (`Template.rewrites_iff`). The tokens that are in use for a part of a request are those of the
rules that cover the part, with the value of the last one (`Template.Binds`).
-/

namespace Walkthrough

/-- The rule is not limited to parts of the request other than this one. -/
def Rule.Covers (r : Rule) (scope : Scope) : Prop :=
  r.scope = none ∨ r.scope = some scope

namespace Template

/-- What takes the place of each token. -/
abbrev Binding := List Char → List Char → Prop

variable {binds : Binding} {tokens : Substitution} {c : Char} {cs rest t v out out' : List Char}

/-! ## The scan -/

/-- The units are rewritten to `out`. -/
inductive Rewrites (binds : Binding) : List Char → List Char → Prop
  | nil : Rewrites binds [] []
  | token {t v rest out : List Char} (bound : binds t v)
      (longest : ∀ t' v', binds t' v' → t' <+: t ++ rest → t'.length ≤ t.length)
      (later : Rewrites binds rest out) : Rewrites binds (t ++ rest) (v ++ out)
  | copy {c : Char} {rest out : List Char} (free : ∀ t v, binds t v → ¬t <+: c :: rest)
      (later : Rewrites binds rest out) : Rewrites binds (c :: rest) (c :: out)

/-- Tokens are not empty and have one value each. -/
structure Binding.Definite (binds : Binding) : Prop where
  filled : ∀ t v, binds t v → t ≠ []
  single : ∀ t v v', binds t v → binds t v' → v = v'

theorem Rewrites.unique_of_eq (definite : Binding.Definite binds) (h : Rewrites binds cs out)
    {others : List Char} (k : Rewrites binds others out') (same : cs = others) : out = out' := by
  induction h generalizing others out' with
  | nil =>
    cases k with
    | nil => rfl
    | token bound _ _ =>
      exact absurd (List.append_eq_nil_iff.mp same.symm).1 (definite.filled _ _ bound)
    | copy => cases same
  | @token t v rest out bound longest later ih =>
    cases k with
    | nil => exact absurd (List.append_eq_nil_iff.mp same).1 (definite.filled _ _ bound)
    | @token t' v' rest' _ boundToo longestToo laterToo =>
      -- Each of the two tokens stands where the other was taken, so they are of one length.
      have stands : t' <+: t ++ rest := same ▸ List.prefix_append t' rest'
      have standsToo : t <+: t' ++ rest' := same ▸ List.prefix_append t rest
      have lengths : t.length = t'.length :=
        Nat.le_antisymm (longestToo t v bound standsToo) (longest t' v' boundToo stands)
      obtain ⟨rfl, rfl⟩ := List.append_inj same lengths
      rw [definite.single t v v' bound boundToo, ih laterToo rfl]
    | copy free _ => exact absurd (same ▸ List.prefix_append t rest) (free t v bound)
  | @copy c rest out free later ih =>
    cases k with
    | nil => cases same
    | @token t v rest' _ bound _ _ =>
      exact absurd (same ▸ List.prefix_append t rest') (free t v bound)
    | copy _ laterToo =>
      cases same
      rw [ih laterToo rfl]

/-! ## The longest token -/

theorem longer_spec {best : Option (List Char × List Char)} {e found : List Char × List Char}
    (h : longer best e = some found) :
    (best = some found ∨ e = found) ∧ e.1.length ≤ found.1.length ∧
      ∀ b, best = some b → b.1.length ≤ found.1.length := by
  unfold longer at h
  cases best with
  | none =>
    cases h
    simp
  | some b =>
    simp only at h
    split at h
    next less =>
      cases h
      refine ⟨Or.inr rfl, Nat.le_refl _, ?_⟩
      intro _ same
      cases same
      omega
    next atLeast =>
      cases h
      refine ⟨Or.inl rfl, by omega, ?_⟩
      intro _ same
      cases same
      exact Nat.le_refl _

theorem longer_ne_none (best : Option (List Char × List Char)) (e : List Char × List Char) :
    longer best e ≠ none := by
  unfold longer
  split
  · simp
  · split <;> simp

theorem foldl_longer_spec {best : Option (List Char × List Char)} {found : List Char × List Char}
    (h : tokens.foldl longer best = some found) :
    (best = some found ∨ found ∈ tokens) ∧ (∀ b, best = some b → b.1.length ≤ found.1.length) ∧
      ∀ e ∈ tokens, e.1.length ≤ found.1.length := by
  induction tokens generalizing best with
  | nil =>
    rw [List.foldl_nil] at h
    cases h
    simp
  | cons e tokens ih =>
    rw [List.foldl_cons] at h
    obtain ⟨source, above, all⟩ := ih h
    cases next : longer best e with
    | none => exact absurd next (longer_ne_none best e)
    | some b =>
      obtain ⟨origin, atLeast, before⟩ := longer_spec next
      have grows := above b next
      refine ⟨?_, ?_, ?_⟩
      · rcases source with same | mem
        · rw [next] at same
          cases same
          rcases origin with old | rfl
          · exact Or.inl old
          · exact Or.inr List.mem_cons_self
        · exact Or.inr (List.mem_cons_of_mem e mem)
      · intro first chosen
        exact Nat.le_trans (before first chosen) grows
      · rw [List.forall_mem_cons]
        exact ⟨Nat.le_trans atLeast grows, all⟩

theorem foldl_longer_eq_none {best : Option (List Char × List Char)}
    (h : tokens.foldl longer best = none) : best = none ∧ tokens = [] := by
  induction tokens generalizing best with
  | nil => exact ⟨h, rfl⟩
  | cons e tokens ih => exact absurd (ih h).1 (longer_ne_none best e)

theorem tokenAt_eq_some (h : tokenAt tokens cs = some (t, v)) :
    (t, v) ∈ tokens ∧ t <+: cs ∧ ∀ t' v', (t', v') ∈ tokens → t' <+: cs → t'.length ≤ t.length := by
  obtain ⟨source, _, all⟩ := foldl_longer_spec h
  have mem := source.resolve_left (by simp)
  rw [List.mem_filter, List.isPrefixOf_iff_prefix] at mem
  refine ⟨mem.1, mem.2, ?_⟩
  intro t' v' listed stands
  refine all (t', v') ?_
  rw [List.mem_filter, List.isPrefixOf_iff_prefix]
  exact ⟨listed, stands⟩

theorem tokenAt_eq_none (h : tokenAt tokens cs = none) (t v : List Char) (mem : (t, v) ∈ tokens) :
    ¬t <+: cs := by
  intro stands
  have listed : (t, v) ∈ tokens.filter fun e => e.1.isPrefixOf cs := by
    rw [List.mem_filter, List.isPrefixOf_iff_prefix]
    exact ⟨mem, stands⟩
  rw [(foldl_longer_eq_none h).2] at listed
  cases listed

/-! ## The program's scan -/

/-- The entries of a substitution as a binding. -/
def Substitution.binding (tokens : Substitution) : Binding :=
  fun t v => (t, v) ∈ tokens

theorem replaceFrom_zero_cons (tokens : Substitution) (c : Char) (rest : List Char) :
    replaceFrom tokens 0 (c :: rest) =
      match tokenAt tokens (c :: rest) with
      | some (token, value) => value ++ replaceFrom tokens (token.length - 1) rest
      | none => c :: replaceFrom tokens 0 rest := rfl

theorem rewrites_replaceFrom (filled : ∀ e ∈ tokens, e.1 ≠ []) (skip : Nat) (cs : List Char) :
    Rewrites (Substitution.binding tokens) (cs.drop skip) (replaceFrom tokens skip cs) := by
  -- On the units and not on the scan, since the program goes through those of a token one by one.
  induction cs generalizing skip with
  | nil =>
    rw [List.drop_nil]
    exact .nil
  | cons c rest ih =>
    cases skip with
    | succ skip => exact ih skip
    | zero =>
      rw [List.drop_zero, replaceFrom_zero_cons]
      split
      next t v found =>
        obtain ⟨mem, stands, longest⟩ := tokenAt_eq_some found
        -- The token takes the first unit and `t.length - 1` of the others.
        have same : c :: rest = t ++ rest.drop (t.length - 1) := by
          obtain ⟨tail, spelled⟩ := stands
          cases t with
          | nil => exact absurd rfl (filled ([], v) mem)
          | cons d t =>
            cases spelled
            simp
        rw [same] at longest ⊢
        exact .token mem longest (ih _)
      next free => exact .copy (tokenAt_eq_none free) (ih 0)

/-- The scan has the outcome that the program finds, and no other. -/
theorem rewrites_iff (definite : Binding.Definite (Substitution.binding tokens)) :
    Rewrites (Substitution.binding tokens) cs out ↔ replace tokens cs = out := by
  have scanned : Rewrites (Substitution.binding tokens) cs (replace tokens cs) :=
    rewrites_replaceFrom (fun e mem => definite.filled e.1 e.2 mem) 0 cs
  constructor
  · intro other
    exact scanned.unique_of_eq definite other rfl
  · rintro rfl
    exact scanned

/-! ## The tokens of the rules -/

section
variable {scope : Scope} {values : List (Rule × String)} {e : Rule × String}

/-- Of the rules that cover the part and have the token, the last one has the value. -/
def Binds (scope : Scope) (values : List (Rule × String)) : Binding := fun t v =>
  ∃ before e after, values = before ++ e :: after ∧ e.1.Covers scope ∧ unitsOf e.1.token = t ∧
    unitsOf e.2 = v ∧ ∀ x ∈ after, x.1.Covers scope → unitsOf x.1.token ≠ t

theorem binds_concat_of_covers (covers : e.1.Covers scope) :
    Binds scope (values ++ [e]) (unitsOf e.1.token) v ↔ unitsOf e.2 = v := by
  constructor
  · rintro ⟨before, x, after, same, _, token, value, last⟩
    rcases List.eq_nil_or_concat after with rfl | ⟨middle, y, rfl⟩
    · obtain ⟨rfl, single⟩ := List.append_inj' same rfl
      cases single
      exact value
    · rw [List.concat_eq_append, ← List.cons_append, ← List.append_assoc] at same
      obtain ⟨_, single⟩ := List.append_inj' same rfl
      cases single
      exact absurd rfl (last e (by simp) covers)
  · intro value
    exact ⟨values, e, [], rfl, covers, rfl, value, by simp⟩

theorem binds_concat_of_not (other : ¬(e.1.Covers scope ∧ unitsOf e.1.token = t)) :
    Binds scope (values ++ [e]) t v ↔ Binds scope values t v := by
  constructor
  · rintro ⟨before, x, after, same, covers, token, value, last⟩
    rcases List.eq_nil_or_concat after with rfl | ⟨middle, y, rfl⟩
    · obtain ⟨_, single⟩ := List.append_inj' same rfl
      cases single
      exact absurd ⟨covers, token⟩ other
    · rw [List.concat_eq_append, ← List.cons_append, ← List.append_assoc] at same
      obtain ⟨rfl, _⟩ := List.append_inj' same rfl
      refine ⟨before, x, middle, rfl, covers, token, value, ?_⟩
      intro y mem
      exact last y (by simp [mem])
  · rintro ⟨before, x, after, rfl, covers, token, value, last⟩
    refine ⟨before, x, after ++ [e], by simp, covers, token, value, ?_⟩
    rw [List.forall_mem_append, List.forall_mem_singleton]
    exact ⟨last, fun covers token => other ⟨covers, token⟩⟩

theorem applies_iff {r : Rule} : applies scope r = true ↔ r.Covers scope := by
  unfold applies Rule.Covers
  cases r.scope <;> simp

theorem entriesFor_concat (scope : Scope) (values : List (Rule × String)) (e : Rule × String) :
    entriesFor scope (values ++ [e]) =
      if applies scope e.1 then
        (entriesFor scope values).put (String.ofList (unitsOf e.1.token)) e.2
      else entriesFor scope values := by
  unfold entriesFor
  rw [List.filter_append, List.foldl_append]
  by_cases covers : applies scope e.1 = true
  · simp [covers]
  · simp [covers]

theorem nodup_names_entriesFor (scope : Scope) (values : List (Rule × String)) :
    (entriesFor scope values).names.Nodup := by
  induction values using List.reverseRecOn with
  | nil => exact List.nodup_nil
  | append_singleton values e ih =>
    rw [entriesFor_concat]
    split
    · exact Ledger.nodup_names_put ih _ _
    · exact ih

theorem get?_entriesFor_iff :
    (∃ value, (entriesFor scope values).get? (String.ofList t) = some value ∧ unitsOf value = v) ↔
      Binds scope values t v := by
  -- From the end, where the rule stands that has the last word on a token.
  induction values using List.reverseRecOn with
  | nil => simp [entriesFor, Binds]
  | append_singleton values e ih =>
    rw [entriesFor_concat]
    by_cases covers : e.1.Covers scope
    · rw [if_pos (applies_iff.mpr covers), Ledger.get?_put]
      by_cases same : unitsOf e.1.token = t
      · subst same
        simp [binds_concat_of_covers covers]
      · have apart : String.ofList (unitsOf e.1.token) ≠ String.ofList t := by
          intro equal
          exact same (String.ofList_inj.mp equal)
        rw [if_neg apart, ih, binds_concat_of_not fun both => same both.2]
    · rw [if_neg (mt applies_iff.mp covers), ih, binds_concat_of_not fun both => covers both.1]

/-- The program's tokens are those of the rules that cover the part. -/
theorem binding_tokensFor (scope : Scope) (values : List (Rule × String)) :
    (tokensFor scope values).binding = Binds scope values := by
  funext t v
  refine propext (Iff.trans ?_ get?_entriesFor_iff)
  unfold Substitution.binding tokensFor
  rw [List.mem_map]
  constructor
  · rintro ⟨⟨name, value⟩, mem, same⟩
    cases same
    refine ⟨value, ?_, rfl⟩
    rw [String.ofList_toList]
    exact (Ledger.get?_eq_some_iff (nodup_names_entriesFor scope values) name value).mpr mem
  · rintro ⟨value, found, rfl⟩
    have mem := (Ledger.get?_eq_some_iff (nodup_names_entriesFor scope values) _ value).mp found
    exact ⟨_, mem, by simp⟩

theorem unitsOf_ne_nil {s : String} (h : s ≠ "") : unitsOf s ≠ [] := by
  unfold unitsOf
  cases chars : s.toList with
  | nil => exact absurd (String.toList_eq_nil_iff.mp chars) h
  | cons c rest =>
    unfold Text.split
    split
    · exact List.cons_ne_nil c _
    · simp [Text.halves]

theorem definite_binds (filled : ∀ e ∈ values, e.1.token ≠ "") :
    Binding.Definite (Binds scope values) where
  filled := by
    rintro t v ⟨before, e, after, rfl, _, rfl, _⟩
    exact unitsOf_ne_nil (filled e (by simp))
  single := by
    intro t v v' first second
    obtain ⟨value, found, rfl⟩ := get?_entriesFor_iff.mpr first
    obtain ⟨other, again, rfl⟩ := get?_entriesFor_iff.mpr second
    rw [found] at again
    cases again
    rfl

end

/-! ## Tokens taken out -/

/-- The same tokens, each bound to nothing. -/
def Binding.blank (binds : Binding) : Binding := fun t v =>
  v = [] ∧ ∃ w, binds t w

theorem Binding.Definite.blank (h : Binding.Definite binds) : Binding.Definite binds.blank where
  filled := by
    rintro t _ ⟨_, w, bound⟩
    exact h.filled t w bound
  single := by
    rintro t _ _ ⟨rfl, _⟩ ⟨rfl, _⟩
    rfl

theorem binding_blanked (tokens : Substitution) :
    (blanked tokens).binding = tokens.binding.blank := by
  funext t v
  unfold Substitution.binding Binding.blank blanked
  simp only [List.mem_map, Prod.mk.injEq, Prod.exists, eq_iff_iff]
  constructor
  · rintro ⟨t, w, mem, rfl, rfl⟩
    exact ⟨rfl, w, mem⟩
  · rintro ⟨rfl, w, mem⟩
    exact ⟨t, w, mem, rfl, rfl⟩

end Template

end Walkthrough
