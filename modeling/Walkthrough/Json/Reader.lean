import Walkthrough.Text.Units
import Walkthrough.Value

/-!
# Reading JSON

`Json.read?` accepts exactly the texts of the JSON grammar: one value with white space around it.
Escapes for the two halves of a character make that character. A name that is repeated in an object
keeps its first place and takes its last value.
-/

namespace Walkthrough.Json

/-! ## Characters -/

/-- The four characters that may stand between the parts of a text. -/
def isSpace (c : Char) : Bool :=
  c == ' ' || c == '\n' || c == '\r' || c == '\t'

def skipSpace (cs : List Char) : List Char :=
  cs.dropWhile isSpace

def unitOf? (a b c d : Char) : Option Nat :=
  let digits := [a, b, c, d]
  if digits.all fun x => Number.digitValue x < 16 then some (Number.wholeOf 16 digits) else none

def shortEscape? : Char → Option Char
  | '\x22' => some '\x22'
  | '\\' => some '\\'
  | '/' => some '/'
  | 'b' => some '\x08'
  | 'f' => some '\x0c'
  | 'n' => some '\n'
  | 'r' => some '\r'
  | 't' => some '\t'
  | _ => none

/-! ## Strings and numbers -/

/-- The rest of a string after its opening quote: the characters after those of `acc`, which is held
in reverse, and what follows the closing quote. -/
def stringRest (acc : List Char) : List Char → Option (String × List Char)
  | [] => none
  | '\x22' :: rest => some (String.ofList (Text.join acc.reverse), rest)
  | '\\' :: 'u' :: a :: b :: c :: d :: rest =>
    match unitOf? a b c d with
    | none => none
    | some n => stringRest ((Text.ofCode n).reverse ++ acc) rest
  | '\\' :: c :: rest =>
    match shortEscape? c with
    | none => none
    | some x => stringRest (x :: acc) rest
  | c :: rest => if c.toNat < 0x20 then none else stringRest (c :: acc) rest

def digits? (cs : List Char) : Option (List Char × List Char) :=
  let digits := cs.takeWhile Text.isDigit
  if digits.isEmpty then none else some (digits, cs.dropWhile Text.isDigit)

def fraction? : List Char → Option (List Char × List Char)
  | '.' :: rest => digits? rest
  | rest => some ([], rest)

def exponent? : List Char → Option (Int × List Char)
  | c :: rest =>
    if c == 'e' || c == 'E' then
      let (negative, rest) := Number.signOf rest
      (digits? rest).map fun (digits, rest) =>
        let n : Int := Number.wholeOf 10 digits
        (if negative then -n else n, rest)
    else some (0, c :: rest)
  | [] => some (0, [])

/-- The number in front. A whole part of several digits does not begin with a zero. -/
def number? (cs : List Char) : Option (Number × List Char) := do
  let (negative, cs) := match cs with
    | '-' :: rest => (true, rest)
    | rest => (false, rest)
  let (whole, cs) ← match cs with
    | '0' :: rest => some (['0'], rest)
    | rest => digits? rest
  let (part, cs) ← fraction? cs
  let (e, cs) ← exponent? cs
  return (Number.ofDecimal negative (whole ++ part) (e - part.length), cs)

def afterWord? (word : String) (cs : List Char) : Option (List Char) :=
  if word.toList.isPrefixOf cs then some (cs.drop word.length) else none

/-! ## Values

`depth` bounds the nesting of calls; twice the number of characters is always enough. -/

mutual

def value? (depth : Nat) (cs : List Char) : Option (Value × List Char) :=
  match depth with
  | 0 => none
  | depth + 1 =>
    match skipSpace cs with
    | '{' :: rest =>
      match skipSpace rest with
      | '}' :: rest => some (.mapping [], rest)
      | _ => members? depth [] rest
    | '[' :: rest =>
      match skipSpace rest with
      | ']' :: rest => some (.list [], rest)
      | _ => items? depth [] rest
    | '\x22' :: rest => (stringRest [] rest).map fun (s, rest) => (.text s, rest)
    | 't' :: rest => (afterWord? "rue" rest).map fun rest => (.bool true, rest)
    | 'f' :: rest => (afterWord? "alse" rest).map fun rest => (.bool false, rest)
    | 'n' :: rest => (afterWord? "ull" rest).map fun rest => (.null, rest)
    | cs => (number? cs).map fun (n, rest) => (.number n, rest)

/-- The items of a list up to its end, after those of `acc`, which are held in reverse. -/
def items? (depth : Nat) (acc : List Value) (cs : List Char) : Option (Value × List Char) :=
  match depth with
  | 0 => none
  | depth + 1 =>
    match value? depth cs with
    | none => none
    | some (v, rest) =>
      match skipSpace rest with
      | ',' :: rest => items? depth (v :: acc) rest
      | ']' :: rest => some (.list (v :: acc).reverse, rest)
      | _ => none

/-- The entries of a mapping up to its end, added to those of `acc`. -/
def members? (depth : Nat) (acc : Record Value) (cs : List Char) : Option (Value × List Char) :=
  match depth with
  | 0 => none
  | depth + 1 =>
    match skipSpace cs with
    | '\x22' :: rest =>
      match stringRest [] rest with
      | none => none
      | some (name, rest) =>
        match skipSpace rest with
        | ':' :: rest =>
          match value? depth rest with
          | none => none
          | some (v, rest) =>
            match skipSpace rest with
            | ',' :: rest => members? depth (acc.put name v) rest
            | '}' :: rest => some (.mapping (acc.put name v), rest)
            | _ => none
        | _ => none
    | _ => none

end

def read? (s : String) : Option Value :=
  let cs := s.toList
  match value? (2 * cs.length + 2) cs with
  | some (v, rest) => if (skipSpace rest).isEmpty then some v else none
  | none => none

end Walkthrough.Json
