import Mathlib.Data.List.Forall2
import Walkthrough.Flow.Fields
import Walkthrough.Proofs.Endpoint

/-!
# Addresses that are completed

A step names the fields of a body that hold addresses. Where such a field is a text that begins with a
slash, the address of the server comes in front of it, and everything else stays as it is
(`Step.completeUrls_exactly`). The fields are dealt with one after the other, each in what the ones
before it left behind; as a completed address does not begin with a slash, this comes to one pass over
the entries (`Step.foldl_completeEntry`).
-/

namespace Walkthrough

namespace EndpointContext

variable {base stem : String}

/-! ## The address of the server -/

theorem isStem_append_slashes (h : IsStem base stem) (n : Nat) :
    IsStem (base ++ String.ofList (List.replicate n '/')) stem := by
  obtain ⟨⟨m, split⟩, last⟩ := h
  refine ⟨⟨m + n, ?_⟩, last⟩
  rw [String.toList_append, String.toList_ofList, split, List.append_assoc,
    List.replicate_append_replicate]

/-- Without its slashes at the end an address still begins as it did. -/
theorem IsStem.absolute (h : IsStem base stem) (known : base ≠ "") (absolute : ¬IsPath base) :
    stem ≠ "" ∧ ¬IsPath stem := by
  obtain ⟨⟨n, split⟩, -⟩ := h
  cases chars : stem.toList with
  | nil =>
    -- The address would be slashes alone.
    rw [chars, List.nil_append] at split
    cases n with
    | zero => exact absurd (String.toList_eq_nil_iff.mp split) known
    | succ n => exact absurd (by rw [IsPath, split]; rfl) absolute
  | cons c cs =>
    have start : base.toList.head? = some c := by
      rw [split, chars]
      rfl
    refine ⟨?_, ?_⟩
    · rintro rfl
      cases chars
    · intro path
      rw [IsPath, chars] at path
      exact absolute (start.trans path)

end EndpointContext

namespace Step

open EndpointContext (IsPath IsStem)

variable {s : Step} {base stem url name t : String} {names others : List String} {v : Value}
variable {entries : Record Value} {json : Option Value}

/-- What becomes of an entry of a body. -/
inductive Completes (names : List String) (stem : String) : String × Value → String × Value → Prop
  | completed {name t : String} (named : name ∈ names) (path : IsPath t) :
      Completes names stem (name, .text t) (name, .text (stem ++ t))
  | kept {name : String} {v : Value} (other : name ∈ names → ∀ t, v = .text t → ¬IsPath t) :
      Completes names stem (name, v) (name, v)

/-! ## One value -/

theorem completeUrl_path (path : IsPath t) : completeUrl base (.text t) = .text (base ++ t) := by
  rw [completeUrl, if_pos (EndpointContext.startsWith_slash_iff.mpr path)]

theorem completeUrl_eq_self (other : ∀ t, v = .text t → ¬IsPath t) : completeUrl base v = v := by
  cases v with
  | text t => rw [completeUrl, if_neg (mt EndpointContext.startsWith_slash_iff.mp (other t rfl))]
  | _ => rfl

theorem not_isPath_append (filled : base ≠ "") (absolute : ¬IsPath base) : ¬IsPath (base ++ t) := by
  rw [IsPath, String.toList_append,
    List.head?_append_of_ne_nil _ (mt String.toList_eq_nil_iff.mp filled)]
  exact absolute

theorem completeUrl_idempotent (filled : base ≠ "") (absolute : ¬IsPath base) (v : Value) :
    completeUrl base (completeUrl base v) = completeUrl base v := by
  by_cases path : ∃ t, v = .text t ∧ IsPath t
  · obtain ⟨t, rfl, path⟩ := path
    rw [completeUrl_path path]
    refine completeUrl_eq_self fun t' same => ?_
    obtain rfl : base ++ t = t' := Value.text.inj same
    exact not_isPath_append filled absolute
  · have other : ∀ t, v = .text t → ¬IsPath t := fun t text slash => path ⟨t, text, slash⟩
    rw [completeUrl_eq_self other, completeUrl_eq_self other]

/-! ## All entries in one pass -/

/-- The entries with all that have one of the names completed. -/
def completeEach (base : String) (names : List String) (entries : Record Value) : Record Value :=
  entries.map fun e => if e.1 ∈ names then (e.1, completeUrl base e.2) else e

theorem completeEach_completeEntry (filled : base ≠ "") (absolute : ¬IsPath base) :
    completeEach base names (completeEntry base entries name) =
      completeEach base (name :: names) entries := by
  rw [completeEach, completeEntry, completeEach, List.map_map]
  refine List.map_congr_left fun e _ => ?_
  simp only [Function.comp_apply, beq_iff_eq, List.mem_cons]
  -- Only a name that comes again is completed twice.
  by_cases first : e.1 = name <;> by_cases later : e.1 ∈ names <;>
    simp [first, later, completeUrl_idempotent filled absolute]

/-- A name that comes again meets an address that is completed already. -/
theorem foldl_completeEntry (filled : base ≠ "") (absolute : ¬IsPath base) :
    names.foldl (completeEntry base) entries = completeEach base names entries := by
  induction names generalizing entries with
  | nil => simp [completeEach]
  | cons name names ih => rw [List.foldl_cons, ih, completeEach_completeEntry filled absolute]

theorem completeEach_idempotent (filled : base ≠ "") (absolute : ¬IsPath base) :
    completeEach base names (completeEach base names entries) = completeEach base names entries := by
  rw [completeEach, completeEach, List.map_map]
  refine List.map_congr_left fun e _ => ?_
  by_cases named : e.1 ∈ names <;> simp [named, completeUrl_idempotent filled absolute]

theorem completeEach_congr (same : ∀ name, name ∈ names ↔ name ∈ others) :
    completeEach base names entries = completeEach base others entries := by
  simp only [completeEach, same]

theorem forall₂_completeEach (base : String) (names : List String) (entries : Record Value) :
    List.Forall₂ (Completes names base) entries (completeEach base names entries) := by
  rw [completeEach, List.forall₂_map_right_iff, List.forall₂_same]
  rintro ⟨name, v⟩ -
  split
  next named =>
    by_cases path : ∃ t, v = .text t ∧ IsPath t
    · obtain ⟨t, rfl, path⟩ := path
      rw [completeUrl_path path]
      exact .completed named path
    · have other : ∀ t, v = .text t → ¬IsPath t := fun t text slash => path ⟨t, text, slash⟩
      rw [completeUrl_eq_self other]
      exact .kept fun _ => other
  next unnamed => exact .kept fun named => absurd named unnamed

/-! ## A body -/

theorem completeUrls_mapping (known : url ≠ "") (absolute : ¬IsPath url) (stripped : IsStem url stem) :
    s.completeUrls (some url) (some (.mapping entries)) =
      some (.mapping (completeEach stem s.urlFields entries)) := by
  obtain ⟨filled, absolute⟩ := stripped.absolute known absolute
  rw [completeUrls, completeUrlsAt, if_neg (by simpa using known),
    Text.dropEndSlashes_eq_iff.mpr stripped, foldl_completeEntry filled absolute]

theorem completeUrls_eq_self (other : ∀ entries, json ≠ some (.mapping entries)) :
    s.completeUrls (some url) json = json := by
  cases json with
  | none => rfl
  | some v =>
    cases v with
    | mapping entries => exact absurd rfl (other entries)
    | _ => rfl

/-- With an address that does not begin with a slash, a step completes of a body that is an object the
texts with a slash in front that stand under the names it gives, and keeps everything else; any other
body it keeps as a whole. To do it twice is to do it once. How often and in which order the names are
given does not matter, nor does the number of slashes at the end of the address. -/
theorem completeUrls_exactly (s : Step) (json : Option Value) {url : String} (known : url ≠ "")
    (absolute : ¬IsPath url) :
    ∃ stem, IsStem url stem ∧
      (∀ entries, json = some (.mapping entries) → ∃ completed,
        s.completeUrls (some url) json = some (.mapping completed) ∧
        List.Forall₂ (Completes s.urlFields stem) entries completed) ∧
      ((∀ entries, json ≠ some (.mapping entries)) → s.completeUrls (some url) json = json) ∧
      s.completeUrls (some url) (s.completeUrls (some url) json) = s.completeUrls (some url) json ∧
      (∀ other : Step, (∀ name, name ∈ other.urlFields ↔ name ∈ s.urlFields) →
        other.completeUrls (some url) json = s.completeUrls (some url) json) ∧
      ∀ n, s.completeUrls (some (url ++ String.ofList (List.replicate n '/'))) json =
        s.completeUrls (some url) json := by
  have stripped : IsStem url (Text.dropEndSlashes url) := Text.dropEndSlashes_eq_iff.mp rfl
  obtain ⟨stemFilled, stemAbsolute⟩ := stripped.absolute known absolute
  refine ⟨_, stripped, ?_⟩
  by_cases object : ∃ entries, json = some (.mapping entries)
  · obtain ⟨entries, rfl⟩ := object
    refine ⟨?_, fun other => absurd rfl (other entries), ?_, fun other same => ?_, fun n => ?_⟩
    · rintro _ ⟨⟩
      exact ⟨_, completeUrls_mapping known absolute stripped, forall₂_completeEach _ _ _⟩
    · rw [completeUrls_mapping known absolute stripped, completeUrls_mapping known absolute stripped,
        completeEach_idempotent stemFilled stemAbsolute]
    · rw [completeUrls_mapping known absolute stripped, completeUrls_mapping known absolute stripped,
        completeEach_congr same]
    · have longer : url ++ String.ofList (List.replicate n '/') ≠ "" :=
        fun none => known (String.append_eq_empty_iff.mp none).1
      rw [completeUrls_mapping known absolute stripped,
        completeUrls_mapping longer (not_isPath_append known absolute)
          (EndpointContext.isStem_append_slashes stripped n)]
  · have other : ∀ entries, json ≠ some (.mapping entries) :=
      fun entries same => object ⟨entries, same⟩
    have kept : ∀ (t : Step) (address : String), t.completeUrls (some address) json = json :=
      fun _ _ => completeUrls_eq_self other
    refine ⟨fun entries same => absurd same (other entries), fun _ => kept s url, ?_,
      fun t _ => ?_, fun n => ?_⟩
    · rw [kept, kept]
    · rw [kept, kept]
    · rw [kept, kept]

/-- A name comes twice, one is that of an own `__proto__`, one of no entry and one of a number. -/
theorem completeUrls_of_repeated_names :
    let step (names : List String) : Step := ⟨"device", "device", "", [], names, [], none, []⟩
    let s := step ["uri", "toString", "uri", "__proto__", "expires"]
    let body (uri proto : String) : Option Value := some (.mapping [("uri", .text uri),
      ("other", .text "/kept"), ("__proto__", .text proto), ("expires", .number (.ofInt 5))])
    let done := body "http://as/device" "http://as/"
    s.completeUrls (some "http://as") (body "/device" "/") = done ∧
      s.completeUrls (some "http://as") done = done ∧
      (step ["__proto__", "expires", "toString", "uri"]).completeUrls (some "http://as")
        (body "/device" "/") = done ∧
      s.completeUrls (some "http://as//") (body "/device" "/") = done := by
  intro step s body done
  have once : s.completeUrls (some "http://as") (body "/device" "/") = done := by rfl
  obtain ⟨stem, -, -, -, twice, reordered, longer⟩ := completeUrls_exactly s (body "/device" "/")
    (show "http://as" ≠ "" by decide) (by unfold IsPath; decide)
  refine ⟨once, ?_, ?_, (longer 2).trans once⟩
  · rwa [once] at twice
  · refine (reordered (step ["__proto__", "expires", "toString", "uri"]) fun name => ?_).trans once
    simp only [step, s, List.mem_cons, List.not_mem_nil, or_false]
    tauto

end Step

end Walkthrough
