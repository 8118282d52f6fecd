import Walkthrough.Session.Render
import Walkthrough.Proofs.Text

/-!
# Where the value of an endpoint comes from

An endpoint is looked up in three places: among the endpoints that the server named, among the
defaults and among the session variables. `EndpointContext.Gives` says which of them gives the value,
and `EndpointContext.endpoint?` finds it.
-/

namespace Walkthrough

theorem Session.filled?_eq_some_iff {x : Option String} {v : String} :
    Session.filled? x = some v ↔ x = some v ∧ v ≠ "" := by
  unfold filled?
  split
  · constructor
    · intro h
      cases h
    · rintro ⟨same, filled⟩
      cases same
      exact absurd rfl filled
  next other =>
    constructor
    · rintro rfl
      refine ⟨rfl, ?_⟩
      rintro rfl
      exact other rfl
    · exact And.left

theorem Session.filled?_eq_none_iff {x : Option String} :
    Session.filled? x = none ↔ ∀ v, x = some v → v = "" := by
  rw [Option.eq_none_iff_forall_ne_some]
  constructor
  · intro h v same
    by_contra filled
    exact h v (filled?_eq_some_iff.mpr ⟨same, filled⟩)
  · intro h v found
    obtain ⟨same, filled⟩ := filled?_eq_some_iff.mp found
    exact filled (h v same)

namespace EndpointContext

variable {c : EndpointContext} {name v d : String}

def IsPath (s : String) : Prop :=
  s.toList.head? = some '/'

/-- The second text is the first one without the slashes at its end. -/
def IsStem (base stem : String) : Prop :=
  (∃ n, base.toList = stem.toList ++ List.replicate n '/') ∧ stem.toList.getLast? ≠ some '/'

/-- The server has not named the endpoint. -/
def Unnamed (c : EndpointContext) (name : String) : Prop :=
  ∀ v, c.discovered.get? name = some v → v = ""

/-- The value that the default for an endpoint comes to. A path needs an address. -/
inductive Defaults (c : EndpointContext) (name : String) : String → Prop
  | whole {d : String} (given : c.defaults.get? name = some d) (filled : d ≠ "") (whole : ¬IsPath d) :
      Defaults c name d
  | path {d base stem : String} (given : c.defaults.get? name = some d) (path : IsPath d)
      (address : c.baseUrl = some base) (known : base ≠ "") (stem_base : IsStem base stem) :
      Defaults c name (stem ++ d)

/-- The value of an endpoint. -/
inductive Gives (c : EndpointContext) (name : String) : String → Prop
  | discovered {v : String} (found : c.discovered.get? name = some v) (filled : v ≠ "") :
      Gives c name v
  | default {v : String} (unnamed : c.Unnamed name) (given : c.Defaults name v) : Gives c name v
  | setting {v : String} (unnamed : c.Unnamed name) (undefaulted : ∀ d, ¬c.Defaults name d)
      (set : c.vars.get? name = some v) : Gives c name v

theorem startsWith_slash_iff : Text.startsWith d "/" = true ↔ IsPath d :=
  Text.startsWith_iff_head? (by decide)

theorem default?_eq_some_iff : c.default? name = some v ↔ c.Defaults name v := by
  unfold default?
  constructor
  · intro h
    split at h
    · cases h
    next d given =>
      obtain ⟨given, filled⟩ := Session.filled?_eq_some_iff.mp given
      split at h
      next whole =>
        cases h
        refine .whole given filled ?_
        rw [← startsWith_slash_iff]
        simpa using whole
      next path =>
        obtain ⟨base, address, rfl⟩ := Option.map_eq_some_iff.mp h
        obtain ⟨address, known⟩ := Session.filled?_eq_some_iff.mp address
        refine .path given ?_ address known (Text.dropEndSlashes_eq_iff.mp rfl)
        rw [← startsWith_slash_iff]
        simpa using path
  · rintro (⟨given, filled, whole⟩ | @⟨d, _, _, given, path, address, known, stem⟩)
    · rw [← startsWith_slash_iff, Bool.not_eq_true] at whole
      simp [Session.filled?_eq_some_iff.mpr ⟨given, filled⟩, whole]
    · have filled : d ≠ "" := by
        rintro rfl
        cases path
      rw [← startsWith_slash_iff] at path
      simp [Session.filled?_eq_some_iff.mpr ⟨given, filled⟩, path,
        Session.filled?_eq_some_iff.mpr ⟨address, known⟩, Text.dropEndSlashes_eq_iff.mpr stem]

theorem endpoint?_eq_some_iff : c.endpoint? name = some v ↔ c.Gives name v := by
  unfold endpoint?
  rw [Option.or_eq_some_iff, Option.or_eq_some_iff, Session.filled?_eq_some_iff,
    Session.filled?_eq_none_iff, default?_eq_some_iff, Option.eq_none_iff_forall_ne_some]
  simp only [ne_eq, default?_eq_some_iff]
  constructor
  · rintro (⟨found, filled⟩ | ⟨unnamed, given | ⟨undefaulted, set⟩⟩)
    · exact .discovered found filled
    · exact .default unnamed given
    · exact .setting unnamed undefaulted set
  · rintro (⟨found, filled⟩ | ⟨unnamed, given⟩ | ⟨unnamed, undefaulted, set⟩)
    · exact Or.inl ⟨found, filled⟩
    · exact Or.inr ⟨unnamed, Or.inl given⟩
    · exact Or.inr ⟨unnamed, Or.inr ⟨undefaulted, set⟩⟩

end EndpointContext

end Walkthrough
