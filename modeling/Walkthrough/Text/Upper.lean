import Walkthrough.Text.UpperTable

/-!
# Letter case

Methods are written in upper case with the full Unicode mapping, in which one character can become
several. Header names, log levels and answers are only ever compared with words of ASCII in lower
case, and besides the letters A to Z the Kelvin sign alone has a lower case in ASCII; `sameWord`
compares on that ground without a table.
-/

namespace Walkthrough.Text

def upperChar (c : Char) : List Char :=
  let n := c.toNat
  if n < 0x80 then
    if 'a' ≤ c && c ≤ 'z' then [Char.ofNat (n - 32)] else [c]
  else
    match upperSequences.lookup n with
    | some codes => codes.map Char.ofNat
    | none =>
      match upperRuns.find? fun r => r.first ≤ n && n ≤ r.last && (n - r.first) % r.stride == 0 with
      | some r => [Char.ofNat (Int.toNat ((n : Int) + r.distance))]
      | none => [c]

def upper (s : String) : String :=
  String.ofList (s.toList.flatMap upperChar)

/-- The lower case of a character where it is one of ASCII; any other character stays as it is. -/
def lowerLatin (c : Char) : Char :=
  if 'A' ≤ c && c ≤ 'Z' then Char.ofNat (c.toNat + 32)
  else if c == '\u212A' then 'k'
  else c

/-- True when the text, in any letter case, is the given word of lower case ASCII. -/
def sameWord (word s : String) : Bool :=
  s.toList.map lowerLatin == word.toList

end Walkthrough.Text
