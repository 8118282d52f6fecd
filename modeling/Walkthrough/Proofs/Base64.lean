import Walkthrough.Proofs.Bytes
import Walkthrough.Text.Base64

/-!
# Base64 and back

`Base64.decode?` reads base64 by the rules of the alphabet and of the padding alone: each character
stands for six bits, four of them make three bytes, and only the last group can be filled up. It gives
back the bytes that were written (`Base64.decode?_encodeBytes`). For a text that came in from outside
these are its bytes in UTF-8 (`Text.utf8_receive`).
-/

namespace Walkthrough.Text

namespace Base64

/-! ## Reading -/

/-- The six bits that a character stands for. -/
def value? (c : Char) : Option Nat :=
  if 'A' ≤ c && c ≤ 'Z' then some (c.toNat - 65)
  else if 'a' ≤ c && c ≤ 'z' then some (c.toNat - 97 + 26)
  else if isDigit c then some (c.toNat - 48 + 52)
  else if c = '+' then some 62
  else if c = '/' then some 63
  else none

/-- The bytes of a group of four characters, of which the last one or two can be filling. -/
def group? (a b c d : Char) : Option (List UInt8) :=
  match value? a, value? b, value? c, value? d with
  | some x, some y, some z, some w =>
    some [.ofNat (x * 4 + y / 16), .ofNat (y % 16 * 16 + z / 4), .ofNat (z % 4 * 64 + w)]
  | some x, some y, some z, none =>
    if d = '=' then some [.ofNat (x * 4 + y / 16), .ofNat (y % 16 * 16 + z / 4)] else none
  | some x, some y, none, none =>
    if c = '=' ∧ d = '=' then some [.ofNat (x * 4 + y / 16)] else none
  | _, _, _, _ => none

/-- The bytes that a text in base64 writes. Nothing comes after a group that is filled up. -/
def decode? : List Char → Option (List UInt8)
  | [] => some []
  | a :: b :: c :: d :: rest =>
    (group? a b c d).bind fun bytes =>
      if bytes.length = 3 ∨ rest = [] then (decode? rest).map (bytes ++ ·) else none
  | _ => none

/-! ## What was written -/

theorem value?_digit : ∀ n < 64, value? (digit n) = some n := by decide

theorem value?_filling : value? '=' = none := by decide

theorem group?_of_three (a b c : UInt8) :
    let n := (a.toNat * 256 + b.toNat) * 256 + c.toNat
    group? (digit (n / 262144)) (digit (n / 4096 % 64)) (digit (n / 64 % 64)) (digit (n % 64)) =
      some [a, b, c] := by
  intro n
  have first := a.toNat_lt
  have second := b.toNat_lt
  have third := c.toNat_lt
  rw [group?, value?_digit _ (by omega), value?_digit _ (by omega), value?_digit _ (by omega),
    value?_digit _ (by omega)]
  simp only [Option.some.injEq, List.cons.injEq, and_true, ← UInt8.toNat_inj, UInt8.toNat_ofNat']
  omega

theorem group?_of_two (a b : UInt8) :
    let n := (a.toNat * 256 + b.toNat) * 4
    group? (digit (n / 4096)) (digit (n / 64 % 64)) (digit (n % 64)) '=' = some [a, b] := by
  intro n
  have first := a.toNat_lt
  have second := b.toNat_lt
  rw [group?, value?_digit _ (by omega), value?_digit _ (by omega), value?_digit _ (by omega),
    value?_filling]
  simp only [if_true, Option.some.injEq, List.cons.injEq, and_true, ← UInt8.toNat_inj,
    UInt8.toNat_ofNat']
  omega

theorem group?_of_one (a : UInt8) :
    let n := a.toNat * 16
    group? (digit (n / 64)) (digit (n % 64)) '=' '=' = some [a] := by
  intro n
  have first := a.toNat_lt
  rw [group?, value?_digit _ (by omega), value?_digit _ (by omega), value?_filling]
  simp only [and_self, if_true, Option.some.injEq, List.cons.injEq, and_true, ← UInt8.toNat_inj,
    UInt8.toNat_ofNat']
  omega

/-- The induction goes by groups of three bytes, as the writing does. -/
theorem decode?_encodeBytes (bytes : List UInt8) : decode? (encodeBytes bytes) = some bytes := by
  induction bytes using encodeBytes.induct with
  | case1 => rfl
  | case2 a => simp [encodeBytes, decode?, group?_of_one]
  | case3 a b => simp [encodeBytes, decode?, group?_of_two]
  | case4 a b c rest ih => simp [encodeBytes, decode?, group?_of_three, ih]

end Base64

/-! ## Texts from outside -/

variable {c : Char} {unit : Nat}

/-- The bytes of a text in UTF-8. -/
def utf8 (s : String) : List UInt8 :=
  (scrub s).toUTF8.toList

theorem halfUnit_half (low : 0xD800 ≤ unit) (high : unit < 0xE000) :
    isHalf (half unit) = true ∧ halfUnit (half unit) = unit := by
  have number : (half unit).toNat = firstHalf + (unit - 0xD800) :=
    toNat_ofNat (Or.inr (by unfold firstHalf; omega))
  simp only [isHalf, halfUnit, number, halfCount, Bool.and_eq_true, decide_eq_true_eq]
  omega

/-- A first and a second half that meet are visited together. -/
theorem visit_meeting {α : Type} (pair : Char → Char → List α) (single : Char → List α)
    {lead trail : Nat} (first : 0xD800 ≤ lead ∧ lead < 0xDC00) (second : 0xDC00 ≤ trail ∧ trail < 0xE000)
    (rest : List Char) : visit pair single (half lead :: half trail :: rest) =
      pair (half lead) (half trail) ++ visit pair single rest := by
  obtain ⟨leadHalf, leadUnit⟩ := halfUnit_half first.1 (by omega)
  obtain ⟨trailHalf, trailUnit⟩ := halfUnit_half (by omega) second.2
  have meet : (isLead (half lead) && isTrail (half trail)) = true := by
    simp [isLead, isTrail, leadHalf, leadUnit, trailHalf, trailUnit, first.2, second.1]
  rw [visit, if_pos meet]

/-- A character that is held as its halves goes out as it was. -/
theorem visit_halves (single : Char → List Char) (split : isHalf c = true) (rest : List Char) :
    visit (fun lead trail => [joinHalves lead trail]) single (halves c ++ rest) =
      c :: visit (fun lead trail => [joinHalves lead trail]) single rest := by
  obtain ⟨low, high⟩ : firstHalf ≤ c.toNat ∧ c.toNat < firstHalf + halfCount := by
    simpa only [isHalf, Bool.and_eq_true, decide_eq_true_eq] using split
  unfold firstHalf at low high
  unfold halfCount at high
  have quotient : (c.toNat - 0x10000) / 0x400 < 0x400 := by omega
  have remainder : (c.toNat - 0x10000) % 0x400 < 0x400 := by omega
  have whole := Nat.div_add_mod (c.toNat - 0x10000) 0x400
  -- From here on the two halves are numbers of their own, below 0x400.
  unfold halves
  dsimp only
  generalize (c.toNat - 0x10000) / 0x400 = q at *
  generalize (c.toNat - 0x10000) % 0x400 = r at *
  have joined : joinHalves (half (0xD800 + q)) (half (0xDC00 + r)) = c := by
    rw [joinHalves, (halfUnit_half (by omega) (by omega)).2, (halfUnit_half (by omega) (by omega)).2,
      show 0x10000 + (0xD800 + q - 0xD800) * 0x400 + (0xDC00 + r - 0xDC00) = c.toNat by omega,
      Char.ofNat_toNat]
  rw [List.cons_append, List.singleton_append,
    visit_meeting _ _ ⟨by omega, by omega⟩ ⟨by omega, by omega⟩, joined]
  rfl

/-- What has come in from outside goes out as it was. -/
theorem scrub_receive (s : String) : scrub (receive s) = s := by
  rw [← String.toList_inj, scrub, receive, String.toList_ofList, String.toList_ofList]
  generalize s.toList = cs
  induction cs with
  | nil => rfl
  | cons c cs ih =>
    rw [List.flatMap_cons, held]
    split
    next split => rw [visit_halves _ split, ih]
    next whole =>
      rw [Bool.not_eq_true] at whole
      -- A whole character does not meet what comes behind it.
      rw [List.singleton_append, ← List.nil_append (c :: _), visit_append _ _ whole, ih]
      simp [visit, whole]

theorem receive_append (first second : String) :
    receive (first ++ second) = receive first ++ receive second := by
  simp [receive]

theorem utf8_receive (s : String) : utf8 (receive s) = s.toUTF8.toList := by
  rw [utf8, scrub_receive]

end Walkthrough.Text
