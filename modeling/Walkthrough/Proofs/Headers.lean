import Walkthrough.Proofs.Base64
import Walkthrough.Request

/-!
# Headers that are added

The headers of a request go out as they are given, and behind them what is missing: a header for the
credentials, from which the user name and the password can be read again, and one for a body. A header
that is given under the name, in any letter case, is not missing
(`Request.wireHeaders_adds_missing`).
-/

namespace Walkthrough

namespace Text

/-! ## Letter case -/

/-- The Kelvin sign apart, a character has the lower case of ASCII or stays as it is. -/
theorem lowerLatin_eq_toLower {c : Char} (plain : c ≠ '\u212A') : lowerLatin c = c.toLower := by
  have same : (decide ('A' ≤ c) && decide (c ≤ 'Z')) =
      decide (c.val ≥ 'A'.val ∧ c.val ≤ 'Z'.val) := (Bool.decide_and _ _).symm
  unfold lowerLatin Char.toLower
  rw [same]
  by_cases upper : c.val ≥ 'A'.val ∧ c.val ≤ 'Z'.val
  · have low : 65 ≤ c.toNat := UInt32.le_iff_toNat_le.mp upper.1
    have high : c.toNat ≤ 90 := UInt32.le_iff_toNat_le.mp upper.2
    -- The two definitions count up in different types.
    have number : (Char.ofNat (c.toNat + 32)).toNat = c.toNat + 32 :=
      toNat_ofNat (Or.inl (by omega))
    have sum : (c.val + ('a'.val - 'A'.val)).toNat = c.toNat + 32 := by
      have shift : ('a'.val - 'A'.val).toNat = 32 := by decide
      have small : c.val.toNat ≤ 90 := high
      rw [UInt32.toNat_add, shift, Nat.mod_eq_of_lt (by omega)]
      rfl
    rw [if_pos (by simpa only [decide_eq_true_eq] using upper), dif_pos upper]
    exact Char.ext (UInt32.toNat_inj.mp (number.trans sum.symm))
  · rw [if_neg (by simpa only [decide_eq_true_eq] using upper), dif_neg upper,
      if_neg (by simpa using plain)]

theorem lowerLatin_eq_iff {c d : Char} (ordinary : d ≠ 'k' ∧ d ≠ '\u212A') :
    lowerLatin c = d ↔ c.toLower = d := by
  by_cases kelvin : c = '\u212A'
  · subst kelvin
    exact iff_of_false (Ne.symm ordinary.1) (Ne.symm ordinary.2)
  · rw [lowerLatin_eq_toLower kelvin]

/-- A word without a `k` is another text in its lower case exactly when it is in that of ASCII. -/
theorem sameWord_iff {word s : String}
    (ordinary : (word.toList.all fun d => d != 'k' && d != '\u212A') = true) :
    sameWord word s = true ↔ s.toLower = word := by
  simp only [List.all_eq_true, Bool.and_eq_true, bne_iff_ne] at ordinary
  rw [sameWord, beq_iff_eq, ← String.toList_inj, show s.toLower = s.map Char.toLower from rfl,
    String.toList_map]
  generalize word.toList = ds at ordinary
  generalize s.toList = cs
  induction cs generalizing ds with
  | nil => rfl
  | cons c cs ih =>
    cases ds with
    | nil => simp
    | cons d ds =>
      obtain ⟨first, others⟩ := List.forall_mem_cons.mp ordinary
      rw [List.map_cons, List.map_cons, List.cons.injEq, List.cons.injEq, lowerLatin_eq_iff first,
        ih ds others]

end Text

namespace Request

variable {headers : List Header} {name : String} {r : Request} {h : Header} {c : Credentials}

/-! ## What is missing -/

/-- A header is given under the name, in some letter case. -/
def Named (headers : List Header) (name : String) : Prop :=
  ∃ h ∈ headers, h.1.toLower = name

/-- The header tells who sends the request: the bytes of the user name, a colon and the password stand
in it in base64. -/
def Identifies (h : Header) (c : Credentials) : Prop :=
  h.1 = "Authorization" ∧ ∃ code : String, h.2 = "Basic " ++ code ∧
    Text.Base64.decode? code.toList = some (Text.utf8 (c.username ++ ":" ++ c.password))

theorem hasHeader_iff (ordinary : (name.toList.all fun d => d != 'k' && d != '\u212A') = true) :
    hasHeader headers name = true ↔ Named headers name := by
  simp only [hasHeader, List.any_eq_true, Text.sameWord_iff ordinary, Named]

theorem authorization_named :
    hasHeader headers "authorization" = true ↔ Named headers "authorization" :=
  hasHeader_iff (by decide)

theorem contentType_named :
    hasHeader headers "content-type" = true ↔ Named headers "content-type" :=
  hasHeader_iff (by decide)

theorem identifies_authorization (c : Credentials) : Identifies (authorization c) c := by
  refine ⟨rfl, _, rfl, ?_⟩
  rw [Text.Base64.encode, String.toList_ofList]
  exact Text.Base64.decode?_encodeBytes _

/-- The header for the credentials, where it is missing. -/
def missingCredentials (r : Request) : Option Header :=
  if hasHeader r.headers "authorization" then none else r.credentials.map authorization

/-- The header for the body, where it is missing. -/
def missingContent (r : Request) : Option Header :=
  if r.body.isSome && !hasHeader r.headers "content-type" then some formContent else none

theorem missingCredentials_isSome_iff :
    r.missingCredentials.isSome ↔ r.credentials.isSome ∧ ¬Named r.headers "authorization" := by
  rw [missingCredentials, ← authorization_named]
  split
  next given => simp [given]
  next missing => simp [missing]

theorem identifies_of_missingCredentials (missing : h ∈ r.missingCredentials)
    (given : c ∈ r.credentials) : Identifies h c := by
  rw [missingCredentials, given] at missing
  split at missing
  next => cases missing
  next =>
    obtain rfl : authorization c = h := Option.some.inj missing
    exact identifies_authorization c

theorem missingContent_isSome_iff :
    r.missingContent.isSome ↔ r.body.isSome ∧ ¬Named r.headers "content-type" := by
  rw [missingContent, ← contentType_named]
  split
  next missing => simpa using missing
  next given => simpa using given

theorem eq_formContent_of_missingContent (missing : h ∈ r.missingContent) : h = formContent := by
  rw [missingContent] at missing
  split at missing
  next => exact (Option.some.inj missing).symm
  next => cases missing

/-! ## What is sent -/

theorem hasHeader_append (front back : List Header) :
    hasHeader (front ++ back) name = (hasHeader front name || hasHeader back name) :=
  List.any_append

theorem withAuthorization_eq (r : Request) :
    withAuthorization r.headers r.credentials = r.headers ++ r.missingCredentials.toList := by
  rw [missingCredentials]
  cases r.credentials with
  | none => simp [withAuthorization]
  | some c =>
    simp only [withAuthorization]
    split
    next given => simp
    next missing => simp

/-- The header for the credentials does not stand in for the one for the body. -/
theorem hasHeader_missingCredentials (r : Request) :
    hasHeader r.missingCredentials.toList "content-type" = false := by
  have other : Text.sameWord "content-type" "Authorization" = false := by decide
  rw [missingCredentials]
  split
  next => rfl
  next =>
    cases r.credentials with
    | none => rfl
    | some c => simp [hasHeader, authorization, other]

theorem wireHeaders_eq (r : Request) :
    r.wireHeaders = r.headers ++ r.missingCredentials.toList ++ r.missingContent.toList := by
  rw [wireHeaders, withAuthorization_eq, withContentType, hasHeader_append,
    hasHeader_missingCredentials, Bool.or_false, missingContent]
  split
  next => rfl
  next => rw [Option.toList_none, List.append_nil]

theorem Named.wireHeaders (given : Named r.headers name) : Named r.wireHeaders name := by
  obtain ⟨h, mem, same⟩ := given
  refine ⟨h, ?_, same⟩
  rw [wireHeaders_eq, List.append_assoc]
  exact List.mem_append_left _ mem

theorem authorization_sent (given : r.credentials.isSome) : Named r.wireHeaders "authorization" := by
  by_cases named : Named r.headers "authorization"
  · exact named.wireHeaders
  · obtain ⟨c, held⟩ := Option.isSome_iff_exists.mp given
    obtain ⟨h, added⟩ :=
      Option.isSome_iff_exists.mp (missingCredentials_isSome_iff.mpr ⟨given, named⟩)
    refine ⟨h, by simp [wireHeaders_eq, added], ?_⟩
    rw [(identifies_of_missingCredentials added held).1, ← Text.sameWord_iff (by decide)]
    decide

theorem contentType_sent (given : r.body.isSome) : Named r.wireHeaders "content-type" := by
  by_cases named : Named r.headers "content-type"
  · exact named.wireHeaders
  · obtain ⟨h, added⟩ := Option.isSome_iff_exists.mp (missingContent_isSome_iff.mpr ⟨given, named⟩)
    refine ⟨h, by simp [wireHeaders_eq, added], ?_⟩
    rw [eq_formContent_of_missingContent added, ← Text.sameWord_iff (by decide)]
    decide

/-- With the headers that are sent nothing is missing: what was missing is among them now. -/
theorem wireHeaders_idempotent (r : Request) :
    ({ r with headers := r.wireHeaders } : Request).wireHeaders = r.wireHeaders := by
  have credentials : ({ r with headers := r.wireHeaders } : Request).missingCredentials = none := by
    rw [← Option.not_isSome_iff_eq_none, missingCredentials_isSome_iff]
    exact fun missing => missing.2 (authorization_sent missing.1)
  have content : ({ r with headers := r.wireHeaders } : Request).missingContent = none := by
    rw [← Option.not_isSome_iff_eq_none, missingContent_isSome_iff]
    exact fun missing => missing.2 (contentType_sent missing.1)
  rw [wireHeaders_eq { r with headers := r.wireHeaders }, credentials, content, Option.toList_none,
    List.append_nil, List.append_nil]

/-- The headers of a request go out as they are given, and behind them at most two more: one that
tells the credentials, exactly when there are some and no header is called `Authorization` in any
letter case, and one for the content, exactly when there is a body and no header is called
`Content-Type`. Headers that went out are not added to again. The bytes of a user name and a password
from outside are those of their UTF-8. -/
theorem wireHeaders_adds_missing (r : Request) :
    (∃ credentials content : Option Header,
      r.wireHeaders = r.headers ++ credentials.toList ++ content.toList ∧
      (credentials.isSome ↔ r.credentials.isSome ∧ ¬Named r.headers "authorization") ∧
      (∀ h ∈ credentials, ∀ c ∈ r.credentials, Identifies h c) ∧
      (content.isSome ↔ r.body.isSome ∧ ¬Named r.headers "content-type") ∧
      ∀ h ∈ content, h = ("Content-Type", "application/x-www-form-urlencoded")) ∧
    ({ r with headers := r.wireHeaders } : Request).wireHeaders = r.wireHeaders ∧
    ∀ user word : String, Text.utf8 (Text.receive user ++ ":" ++ Text.receive word) =
      (user ++ ":" ++ word).toUTF8.toList := by
  refine ⟨⟨r.missingCredentials, r.missingContent, wireHeaders_eq r, missingCredentials_isSome_iff,
    fun h missing c => identifies_of_missingCredentials missing, missingContent_isSome_iff,
    fun h => eq_formContent_of_missingContent⟩, wireHeaders_idempotent r, fun user word => ?_⟩
  have whole : Text.receive (user ++ ":" ++ word) = Text.receive user ++ ":" ++ Text.receive word := by
    rw [Text.receive_append, Text.receive_append]
    rfl
  rw [← whole, Text.utf8_receive]

/-- A header for the content is there in another letter case, so only the credentials are added. -/
theorem wireHeaders_of_form :
    let given : List Header := [("CONTENT-type", "text/plain")]
    let r : Request := { method := "POST", url := "/token", headers := given, body := some "",
                         credentials := some ⟨"é", "p:w"⟩ }
    (∃ code : String, r.wireHeaders = given ++ [("Authorization", "Basic " ++ code)] ∧
      Text.Base64.decode? code.toList = some [0xC3, 0xA9, 0x3A, 0x70, 0x3A, 0x77]) ∧
    ({ r with headers := r.wireHeaders } : Request).wireHeaders = r.wireHeaders := by
  intro given r
  have other : ¬Named given "authorization" := by
    rw [← authorization_named]
    decide
  have same : Named given "content-type" := by
    rw [← contentType_named]
    decide
  obtain ⟨⟨credentials, content, sent, added, identified, kept, -⟩, again, -⟩ :=
    wireHeaders_adds_missing r
  obtain ⟨⟨name, value⟩, rfl⟩ := Option.isSome_iff_exists.mp (added.mpr ⟨rfl, other⟩)
  obtain ⟨rfl, code, rfl, written⟩ := identified _ rfl _ rfl
  obtain rfl : content = none := by
    cases content with
    | none => rfl
    | some h => exact absurd same (kept.mp rfl).2
  have bytes : Text.utf8 ("é" ++ ":" ++ "p:w") = [0xC3, 0xA9, 0x3A, 0x70, 0x3A, 0x77] := by
    decide +kernel
  exact ⟨⟨code, by simpa using sent, written.trans (congrArg some bytes)⟩, again⟩

end Request

end Walkthrough
