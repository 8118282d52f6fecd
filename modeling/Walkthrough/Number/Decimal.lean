import Walkthrough.Number.Basic
import Walkthrough.Text.Blank

/-!
# Decimal text of numbers

Reading takes a decimal, or a whole number in base 2, 8 or 16, to the nearest double. Writing gives
the fewest decimal digits that read back as the number, and of those the nearest ones
(`shortestDigits`). `Layout` says where the decimal point stands and from which size on an exponent
is written.
-/

namespace Walkthrough.Number

/-! ## Reading -/

def digitValue (c : Char) : Nat :=
  if Text.isDigit c then c.toNat - 48
  else if 'a' ≤ c && c ≤ 'f' then c.toNat - 87
  else if 'A' ≤ c && c ≤ 'F' then c.toNat - 55
  else 16

def wholeOf (base : Nat) (digits : List Char) : Nat :=
  digits.foldl (fun n c => n * base + digitValue c) 0

/-- The double nearest to `± digits · 10 ^ exponent`. Sizes beyond the range of doubles are settled
by the position of the leading digit, without computing the power. -/
def ofDecimal (negative : Bool) (digits : List Char) (exponent : Int) : Number :=
  let digits := digits.dropWhile (· == '0')
  let size : Int := digits.length + exponent
  if digits.isEmpty || size < -400 then finite 0 0
  else if 400 < size then infinite negative
  else if 0 ≤ exponent then ofRatio negative (wholeOf 10 digits * Nat.pow 10 exponent.toNat) 1
  else ofRatio negative (wholeOf 10 digits) (Nat.pow 10 (-exponent).toNat)

def signOf : List Char → Bool × List Char
  | '-' :: rest => (true, rest)
  | '+' :: rest => (false, rest)
  | rest => (false, rest)

/-- The exponent that the characters write after the letter `e`: a sign and at least one digit. -/
def exponentOf (cs : List Char) : Option Int :=
  let (negative, digits) := signOf cs
  if digits.isEmpty || !digits.all Text.isDigit then none
  else
    let n : Int := wholeOf 10 digits
    some (if negative then -n else n)

/-- The parts of an unsigned decimal: digits, an optional point with digits after it, and an
optional exponent. At least one digit must stand on one side of the point. -/
def decimalParts? (cs : List Char) : Option (List Char × List Char × Option Int) :=
  let whole := cs.takeWhile Text.isDigit
  let rest := cs.dropWhile Text.isDigit
  let (part, rest) := match rest with
    | '.' :: r => (r.takeWhile Text.isDigit, r.dropWhile Text.isDigit)
    | r => ([], r)
  if whole.isEmpty && part.isEmpty then none
  else
    match rest with
    | [] => some (whole, part, none)
    | c :: r =>
      if c == 'e' || c == 'E' then (exponentOf r).map fun e => (whole, part, some e) else none

def unsigned? (negative : Bool) (cs : List Char) : Option Number :=
  (decimalParts? cs).map fun (whole, part, e) =>
    ofDecimal negative (whole ++ part) (e.getD 0 - part.length)

/-- A whole number in the base that a letter after a leading zero names. -/
def based? (base : Nat) (digits : List Char) : Option Number :=
  if digits.isEmpty || !digits.all (fun c => digitValue c < base) then none
  else some (ofRatio false (wholeOf base digits) 1)

/-- The number that a text writes: a decimal with an optional sign, `Infinity` with an optional
sign, or a whole number marked `0x`, `0o` or `0b`. -/
def ofText? (s : String) : Option Number :=
  match s.toList with
  | '0' :: 'x' :: r => based? 16 r
  | '0' :: 'X' :: r => based? 16 r
  | '0' :: 'o' :: r => based? 8 r
  | '0' :: 'O' :: r => based? 8 r
  | '0' :: 'b' :: r => based? 2 r
  | '0' :: 'B' :: r => based? 2 r
  | cs =>
    let (negative, rest) := signOf cs
    if rest == "Infinity".toList then some (infinite negative) else unsigned? negative rest

/-! ## The fewest digits -/

/-- The values that round to one double: `low` and `high` are the ends, `value` the double itself,
all in quarters of the unit `2 ^ unit`, and `closed` says whether the ends belong to it. -/
structure Interval where
  low : Nat
  value : Nat
  high : Nat
  unit : Int
  closed : Bool

/-- The interval of a positive double. Below a power of two the next double is only half as far. -/
def interval (m : Nat) (e : Int) : Interval :=
  let unit : Int := max (e - (52 - (m.log2 : Int))) (-1074)
  let full := m * Nat.pow 2 (e - unit).toNat
  let below := if full = Nat.pow 2 52 && -1074 < unit then 1 else 2
  { low := 4 * full - below, value := 4 * full, high := 4 * full + 2, unit := unit - 2,
    closed := full % 2 == 0 }

/-- `a · 2 ^ unit` and `b · 10 ^ power` as whole numbers over one denominator. -/
def aligned (a : Nat) (unit : Int) (b : Nat) (power : Int) : Nat × Nat :=
  let (an, ad) := scaled a 1 unit
  let (bn, bd) :=
    if 0 ≤ power then (b * Nat.pow 10 power.toNat, 1) else (b, Nat.pow 10 (-power).toNat)
  (an * bd, bn * ad)

namespace Interval

def holds (i : Interval) (s : Nat) (power : Int) : Bool :=
  let (low, x) := aligned i.low i.unit s power
  let (high, y) := aligned i.high i.unit s power
  if i.closed then low ≤ x && y ≤ high else low < x && y < high

def quotient (i : Interval) (power : Int) : Nat :=
  let (v, one) := aligned i.value i.unit 1 power
  v / one

def reaches (i : Interval) (power : Int) : Bool :=
  let (v, one) := aligned i.value i.unit 1 power
  one ≤ v

/-- True when `s · 10 ^ power` is nearer to the double than the next multiple; a tie goes to the
even multiplier. -/
def lowerIsNearer (i : Interval) (s : Nat) (power : Int) : Bool :=
  let (v, x) := aligned i.value i.unit s power
  let (_, y) := aligned i.value i.unit (s + 1) power
  if v - x = y - v then s % 2 == 0 else v - x < y - v

/-- The number of digits before the decimal point; zero or less counts the zeros after it. -/
def pointPosition (i : Interval) : Int :=
  let guess : Int := (((i.value.log2 : Int) + i.unit) * 30103) / 100000
  if i.reaches (guess + 1) then guess + 2
  else if i.reaches guess then guess + 1
  else guess

/-- The multiplier of `10 ^ power` that rounds to the double, if one of the two neighbours of the
double on that grid does. -/
def onGrid? (i : Interval) (power : Int) : Option Nat :=
  let s := i.quotient power
  match i.holds s power, i.holds (s + 1) power with
  | true, true => some (if i.lowerIsNearer s power then s else s + 1)
  | true, false => some s
  | false, true => some (s + 1)
  | false, false => none

/-- The first grid of `count`, `count + 1`, … digits, at most `more` further ones, with a point in
the interval: the multiplier and the power of its unit. -/
def firstOnGrid (i : Interval) (point : Int) : Nat → Nat → Nat × Int
  | 0, count => (i.quotient (point - count), point - count)
  | more + 1, count =>
    match i.onGrid? (point - count) with
    | some s => (s, point - count)
    | none => firstOnGrid i point more (count + 1)

end Interval

def significant (n : Nat) : List Char :=
  ((Nat.toDigits 10 n).reverse.dropWhile (· == '0')).reverse

/-- The fewest digits that read back as the positive double `m · 2 ^ e`, and the number of digits
before the decimal point. -/
def shortestDigits (m : Nat) (e : Int) : List Char × Int :=
  let i := interval m e
  let (s, power) := i.firstOnGrid i.pointPosition 17 1
  (significant s, (Nat.toDigits 10 s).length + power)

/-! ## Writing -/

structure Layout where
  /-- A number with at most this many digits before the point is written without exponent. -/
  longest : Nat
  /-- A number with at most this many zeros after the point is written without exponent. -/
  zeros : Nat

/-- Up to 21 digits stand before the point and up to five zeros right after it; all other sizes
are written with an exponent. -/
def layout : Layout := ⟨21, 5⟩

def withExponent (digits : List Char) (point : Int) : List Char :=
  let e := point - 1
  let mark := if 0 ≤ e then ['e', '+'] else ['e', '-']
  let power := mark ++ Nat.toDigits 10 e.natAbs
  match digits with
  | [d] => d :: power
  | d :: rest => d :: '.' :: rest ++ power
  | [] => []

def arrange (style : Layout) (digits : List Char) (point : Int) : List Char :=
  let count : Int := digits.length
  if count ≤ point && point ≤ style.longest then
    digits ++ List.replicate (point - count).toNat '0'
  else if 0 < point && point ≤ style.longest then
    digits.take point.toNat ++ '.' :: digits.drop point.toNat
  else if point ≤ 0 && -point ≤ style.zeros then
    '0' :: '.' :: List.replicate (-point).toNat '0' ++ digits
  else withExponent digits point

def text : Number → String
  | finite m e =>
    if m = 0 then "0"
    else
      let (digits, point) := shortestDigits m.natAbs e
      let body := arrange layout digits point
      String.ofList (if m < 0 then '-' :: body else body)
  | infinite negative => if negative then "-Infinity" else "Infinity"
  | notANumber => "NaN"

def scientific (n : Number) : String :=
  match n with
  | finite m e =>
    let (digits, point) := if m = 0 then (['0'], 1) else shortestDigits m.natAbs e
    let body := withExponent digits point
    String.ofList (if m < 0 then '-' :: body else body)
  | n => n.text

/-- Characters in reverse with an underscore after each three, as long as more follow. -/
def groupThrees : List Char → List Char
  | a :: b :: c :: d :: rest => a :: b :: c :: '_' :: groupThrees (d :: rest)
  | cs => cs

/-- The text of a number with its characters in groups of three from the end, the sign apart. -/
def grouped (n : Number) : String :=
  let (sign, body) := match n.text.toList with
    | '-' :: rest => (['-'], rest)
    | cs => ([], cs)
  String.ofList (sign ++ (groupThrees body.reverse).reverse)

end Walkthrough.Number
