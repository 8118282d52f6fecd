import Walkthrough.Text.Units

/-!
# Base64

The text form of a byte sequence in the standard alphabet: three bytes make four characters, and
the last group is filled up with equals signs.
-/

namespace Walkthrough.Text.Base64

def digit (n : Nat) : Char :=
  if n < 26 then Char.ofNat (65 + n)
  else if n < 52 then Char.ofNat (97 + (n - 26))
  else if n < 62 then Char.ofNat (48 + (n - 52))
  else if n = 62 then '+'
  else '/'

def encodeBytes : List UInt8 → List Char
  | [] => []
  | [a] =>
    let n := a.toNat * 16
    [digit (n / 64), digit (n % 64), '=', '=']
  | [a, b] =>
    let n := (a.toNat * 256 + b.toNat) * 4
    [digit (n / 4096), digit (n / 64 % 64), digit (n % 64), '=']
  | a :: b :: c :: rest =>
    let n := (a.toNat * 256 + b.toNat) * 256 + c.toNat
    digit (n / 262144) :: digit (n / 4096 % 64) :: digit (n / 64 % 64) :: digit (n % 64) ::
      encodeBytes rest

/-- The base64 form of the UTF-8 bytes of a text. -/
def encode (s : String) : String :=
  String.ofList (encodeBytes (scrub s).toUTF8.toList)

end Walkthrough.Text.Base64
