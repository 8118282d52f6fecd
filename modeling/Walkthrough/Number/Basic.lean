/-!
# Binary floating numbers, held exactly

Numbers of documents and answers are double precision numbers. They are held exactly, as an odd
mantissa times a power of two, so that equal numbers are equal values and every conversion is
integer arithmetic. Zero has no sign here: nothing that is written or compared depends on it.

`Number.ofRatio` rounds a fraction to the nearest double, ties to the even mantissa.
-/

namespace Walkthrough

/-- A double precision number: `mantissa · 2 ^ exponent`, an infinity, or no number. The mantissa is
odd, or both parts are zero. -/
inductive Number
  | finite (mantissa : Int) (exponent : Int)
  | infinite (negative : Bool)
  | notANumber
  deriving DecidableEq, Inhabited

namespace Number

/-! ## Building numbers -/

/-- Halves an even mantissa as long as `fuel` lasts, counting the halvings in the exponent. -/
def halve : Nat → Nat → Int → Nat × Int
  | 0, m, e => (m, e)
  | fuel + 1, m, e => if m % 2 = 0 then halve fuel (m / 2) (e + 1) else (m, e)

/-- The number `± m · 2 ^ e`, which must be representable. -/
def ofParts (negative : Bool) (m : Nat) (e : Int) : Number :=
  if m = 0 then finite 0 0
  else
    let (odd, e) := halve (m.log2 + 1) m e
    finite (if negative then -(odd : Int) else odd) e

def ofInt (n : Int) : Number :=
  ofParts (n < 0) n.natAbs 0

/-- The whole number nearest to `num / den`; a tie goes to the even one. -/
def roundDiv (num den : Nat) : Nat :=
  let q := num / den
  let r := num % den
  if 2 * r < den then q
  else if den < 2 * r then q + 1
  else if q % 2 = 0 then q else q + 1

/-- `num · 2 ^ e` as a fraction of whole numbers. -/
def scaled (num den : Nat) (e : Int) : Nat × Nat :=
  if 0 ≤ e then (num * Nat.pow 2 e.toNat, den) else (num, den * Nat.pow 2 (-e).toNat)

/-- The exponent of the leading bit of a positive fraction. -/
def leadingExponent (num den : Nat) : Int :=
  let guess : Int := (num.log2 : Int) - den.log2
  let (n, d) := scaled num den (-guess)
  if d ≤ n then guess else guess - 1

/-- The double nearest to the fraction; a tie goes to the even mantissa, and a value that rounds to
`2 ^ 1024` or more is infinite. -/
def ofRatio (negative : Bool) (num den : Nat) : Number :=
  if num = 0 then finite 0 0
  else
    let unit : Int := max (leadingExponent num den - 52) (-1074)
    let (n, d) := scaled num den (-unit)
    let m := roundDiv n d
    if m ≠ 0 && 1024 ≤ (m.log2 : Int) + unit then infinite negative
    else ofParts negative m unit

/-! ## Questions -/

def isFinite : Number → Bool
  | finite _ _ => true
  | _ => false

def isPositive : Number → Bool
  | finite m _ => 0 < m
  | _ => false

def toInt? : Number → Option Int
  | finite m e => if 0 ≤ e then some (m * Int.pow 2 e.toNat) else none
  | _ => none

/-- Equality as comparison defines it: the missing number differs from itself. -/
def sameAs (a b : Number) : Bool :=
  a != notANumber && a == b

/-- The nearest whole number; a half goes up. -/
def round : Number → Number
  | finite m e =>
    if 0 ≤ e then finite m e
    else
      let half := Int.pow 2 ((-e).toNat - 1)
      ofInt ((m + half) / (2 * half))
  | other => other

end Number

end Walkthrough
