/-!
# Sixteen-bit units

The length of a text is counted in sixteen-bit units, of which a character beyond U+FFFF takes two,
its halves. An escape or a cut can leave half of a character without the other half. Such a half is
held as one of 2048 characters of a plane to which no characters are assigned: `half` and `halfUnit`
go to and fro. These 2048 characters themselves are held as their two halves, so every sequence of
units is held in one way. `split` takes characters apart into units, and `join` puts halves that meet
together again.

`receive` is the way in for a text from outside, and `scrub` is the way out: the text as bytes can
express it. `repair` is both, for a text that goes out and comes back.
-/

namespace Walkthrough.Text

/-- The first of the characters that stand for halves. -/
def firstHalf : Nat :=
  0x78000

/-- The number of halves. -/
def halfCount : Nat :=
  0x800

/-- The character that stands for half of a character, given its unit. -/
def half (unit : Nat) : Char :=
  Char.ofNat (firstHalf + (unit - 0xD800))

def isHalf (c : Char) : Bool :=
  firstHalf ≤ c.toNat && c.toNat < firstHalf + halfCount

/-- The unit of a half. -/
def halfUnit (c : Char) : Nat :=
  0xD800 + (c.toNat - firstHalf)

def isLead (c : Char) : Bool :=
  isHalf c && halfUnit c < 0xDC00

def isTrail (c : Char) : Bool :=
  isHalf c && 0xDC00 ≤ halfUnit c

/-- The two halves of a character beyond U+FFFF. -/
def halves (c : Char) : List Char :=
  let n := c.toNat - 0x10000
  [half (0xD800 + n / 0x400), half (0xDC00 + n % 0x400)]

/-- A character as it is held. -/
def held (c : Char) : List Char :=
  if isHalf c then halves c else [c]

/-- The character with a number as it is held; the number may also be the unit of a half. -/
def ofCode (n : Nat) : List Char :=
  if 0xD800 ≤ n && n ≤ 0xDFFF then [half n] else held (Char.ofNat n)

/-! ## Counting -/

def unitsOf (c : Char) : Nat :=
  if c.toNat < 0x10000 || isHalf c then 1 else 2

def units : List Char → Nat
  | [] => 0
  | c :: rest => unitsOf c + units rest

def sumOf {α : Type} (length : α → Nat) (items : List α) : Nat :=
  items.foldr (fun item n => length item + n) 0

/-! ## Taking apart and putting together -/

/-- The characters with those beyond U+FFFF taken apart into their halves. -/
def split : List Char → List Char
  | [] => []
  | c :: rest => if unitsOf c = 1 then c :: split rest else halves c ++ split rest

/-- The character that two halves make. -/
def joinHalves (lead trail : Char) : Char :=
  Char.ofNat (0x10000 + (halfUnit lead - 0xD800) * 0x400 + (halfUnit trail - 0xDC00))

/-- Goes through the characters: two halves that meet go to `pair`, and all others to `single`. -/
def visit {α : Type} (pair : Char → Char → List α) (single : Char → List α) : List Char → List α
  | [] => []
  | [c] => single c
  | a :: b :: rest =>
    if isLead a && isTrail b then pair a b ++ visit pair single rest
    else single a ++ visit pair single (b :: rest)

def join (cs : List Char) : List Char :=
  visit (fun lead trail => held (joinHalves lead trail)) (fun c => [c]) cs

/-- The first `n` units of the characters. -/
def takeUnits (n : Nat) (cs : List Char) : List Char :=
  join ((split cs).take n)

/-- True when there is a half that meets no other half. -/
def hasLoneHalf (cs : List Char) : Bool :=
  !(visit (fun _ _ => []) (fun c => if isHalf c then [c] else []) cs).isEmpty

/-! ## In and out -/

/-- A text from outside as it is held. -/
def receive (s : String) : String :=
  String.ofList (s.toList.flatMap held)

/-- The text as bytes can express it: a half that stays alone becomes U+FFFD. -/
def scrub (s : String) : String :=
  String.ofList <| visit (fun lead trail => [joinHalves lead trail])
    (fun c => [if isHalf c then '\uFFFD' else c]) s.toList

/-- The text after a way through bytes. -/
def repair (s : String) : String :=
  receive (scrub s)

def byteSize (s : String) : Nat :=
  (scrub s).utf8ByteSize

end Walkthrough.Text
