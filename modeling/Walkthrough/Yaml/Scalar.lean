import Walkthrough.Yaml.Tree

/-!
# Scalars of documents

How the text of a scalar is decoded. A line break in a plain or quoted scalar is folded: it counts
as a space, and each further one as a line break. A plain scalar is then resolved: some texts write
`null`, a truth value or a number, and all others stand for themselves.
-/

namespace Walkthrough.Yaml

/-! ## Lines -/

/-- The lines of a text. A carriage return before the end of a line belongs to it. -/
def linesOf : List Char → List (List Char)
  | [] => [[]]
  | c :: rest =>
    if c = '\n' then [] :: linesOf rest
    else
      match linesOf rest with
      | [] => [[c]]
      | line :: others => (c :: line) :: others

def dropReturn (line : List Char) : List Char :=
  match line.reverse with
  | '\r' :: rest => rest.reverse
  | _ => line

def trimEnd (line : List Char) : List Char :=
  (line.reverse.dropWhile isSpaceOrTab).reverse

/-- Folds the lines after the first one; `gap` is what separates the next line with text from the
text before it. The last line keeps the white space at its end. -/
def foldRest (gap : List Char) : List (List Char) → List Char
  | [] => []
  | [last] => gap ++ last.dropWhile isSpaceOrTab
  | line :: rest =>
    let text := trimEnd ((dropReturn line).dropWhile isSpaceOrTab)
    if text.isEmpty then
      if gap == ['\n'] then '\n' :: foldRest gap rest else foldRest ['\n'] rest
    else gap ++ text ++ foldRest [' '] rest

def fold (cs : List Char) : List Char :=
  match linesOf cs with
  | [] => []
  | [line] => line
  | first :: rest => trimEnd (dropReturn first) ++ foldRest [' '] rest

/-! ## Quoted scalars -/

def halveQuotes : List Char → List Char
  | '\x27' :: '\x27' :: rest => '\x27' :: halveQuotes rest
  | c :: rest => c :: halveQuotes rest
  | [] => []

def shortEscape? : Char → Option Char
  | '0' => some '\x00'
  | 'a' => some '\x07'
  | 'b' => some '\x08'
  | 'e' => some '\x1b'
  | 'f' => some '\x0c'
  | 'n' => some '\n'
  | 'r' => some '\r'
  | 't' => some '\t'
  | 'v' => some '\x0b'
  | 'N' => some '\u0085'
  | '_' => some '\u00a0'
  | 'L' => some '\u2028'
  | 'P' => some '\u2029'
  | ' ' => some ' '
  | '\x22' => some '\x22'
  | '/' => some '/'
  | '\\' => some '\\'
  | '\t' => some '\t'
  | _ => none

def escapeLength? : Char → Option Nat
  | 'x' => some 2
  | 'u' => some 4
  | 'U' => some 8
  | _ => none

/-- Skips white space and line ends: the number of line ends, and what follows. -/
def skipFolded : List Char → Nat × List Char
  | '\r' :: '\n' :: rest => let (n, r) := skipFolded rest; (n + 1, r)
  | c :: rest =>
    if c = '\n' then let (n, r) := skipFolded rest; (n + 1, r)
    else if isSpaceOrTab c then skipFolded rest
    else (0, c :: rest)
  | [] => (0, [])

/-- What a folded run of line ends stands for, given how many follow the first one. -/
def foldedBreak (more : Nat) : List Char :=
  if more = 0 then [' '] else List.replicate more '\n'

def longEscape? (n : Nat) (digits : List Char) : Option (List Char) :=
  let code := Number.wholeOf 16 digits
  if digits.length = n && digits.all (fun d => Number.digitValue d < 16) && code ≤ 0x10FFFF then
    some (Text.ofCode code)
  else none

/-- Decodes the inside of double quotes. The last character is not decoded: it is the closing quote,
unless an escape has taken it. `acc` holds the characters decoded so far in reverse. Of an escape
that stands for nothing, its source and the number of units from it to the end are given. -/
def unescape (fuel : Nat) (acc : List Char) (cs : List Char) :
    Except (List Char × Nat) (List Char) :=
  match fuel with
  | 0 => .ok acc.reverse
  | fuel + 1 =>
    match cs with
    | [] => .ok acc.reverse
    | [_] => .ok acc.reverse
    | '\r' :: '\n' :: rest => unescape fuel acc ('\n' :: rest)
    | '\n' :: rest =>
      let (more, rest) := skipFolded rest
      unescape fuel ((foldedBreak more).reverse ++ acc) rest
    | '\\' :: '\n' :: rest => unescape fuel acc (rest.dropWhile isSpaceOrTab)
    | '\\' :: '\r' :: '\n' :: rest => unescape fuel acc (rest.dropWhile isSpaceOrTab)
    | '\\' :: c :: rest =>
      match shortEscape? c, escapeLength? c with
      | some x, _ => unescape fuel (x :: acc) rest
      | none, some n =>
        match longEscape? n (rest.take n) with
        | some written => unescape fuel (written.reverse ++ acc) (rest.drop n)
        | none => .error (Text.takeUnits (n + 2) cs, Text.units cs)
      | none, none => .error (Text.takeUnits 2 cs, Text.units cs)
    | c :: rest =>
      if isSpaceOrTab c then
        let blanks := c :: rest.takeWhile isSpaceOrTab
        let rest := rest.dropWhile isSpaceOrTab
        if (afterBreak? rest).isSome then unescape fuel acc rest
        else unescape fuel (blanks.reverse ++ acc) rest
      else unescape fuel (c :: acc) rest

def isClosed (source : List Char) : Bool :=
  1 < source.length && source.getLast? == source.head?

def decodeDouble (p : Piece) : Except Complaint (List Char) :=
  match unescape (2 * p.source.length) [] (p.source.drop 1) with
  | .error (source, left) => .error ((Flaw.badEscape (String.ofList source)).at (p.stop - left))
  | .ok cs =>
    if isClosed p.source then .ok (Text.join cs) else .error (Flaw.openDoubleQuote.at p.stop)

def decodeSingle (p : Piece) : Except Complaint (List Char) :=
  if isClosed p.source then .ok (halveQuotes (fold (p.source.drop 1).dropLast))
  else .error (Flaw.openSingleQuote.at p.stop)

/-! ## Plain scalars -/

/-- What a character is with which a plain scalar cannot begin. -/
def badStart? : Char → Option String
  | '\t' => some "a tab character"
  | ',' => some "flow indicator character ,"
  | '%' => some "directive indicator character %"
  | '|' => some "block scalar indicator |"
  | '>' => some "block scalar indicator >"
  | '@' => some "reserved character @"
  | '\x60' => some "reserved character \x60"
  | _ => none

def decodePlain (p : Piece) : Except Complaint (List Char) :=
  match p.source.head?.bind badStart? with
  | some what => .error ((Flaw.plainStart what).at p.offset)
  | none => .ok (fold p.source)

/-! ## Plain texts with a meaning -/

inductive Spelling
  | whole
  | octal
  | hexadecimal
  /-- With a point, and without an exponent. -/
  | fraction
  | scientific
  /-- An infinity or the missing number. -/
  | word
  deriving DecidableEq, Inhabited

def isNull (s : String) : Bool :=
  ["", "~", "null", "Null", "NULL"].contains s

def truth? (s : String) : Option Bool :=
  [("true", true), ("True", true), ("TRUE", true), ("false", false), ("False", false),
    ("FALSE", false)].lookup s

/-- The texts that write an infinity or the missing number. -/
def numberWords : List (String × Number) :=
  [(".inf", .infinite false), (".Inf", .infinite false), (".INF", .infinite false),
    ("+.inf", .infinite false), ("+.Inf", .infinite false), ("+.INF", .infinite false),
    ("-.inf", .infinite true), ("-.Inf", .infinite true), ("-.INF", .infinite true),
    (".nan", .notANumber), (".NaN", .notANumber), (".NAN", .notANumber)]

def number? (s : String) : Option (Number × Spelling) :=
  match numberWords.lookup s with
  | some n => some (n, .word)
  | none =>
    match s.toList with
    | '0' :: 'o' :: r => (Number.based? 8 r).map (·, .octal)
    | '0' :: 'x' :: r => (Number.based? 16 r).map (·, .hexadecimal)
    | cs =>
      let (negative, rest) := Number.signOf cs
      (Number.unsigned? negative rest).map fun n =>
        (n, if rest.all Text.isDigit then .whole
            else if rest.contains 'e' || rest.contains 'E' then .scientific
            else .fraction)

def resolve (s : String) : Value :=
  if isNull s then .null
  else
    match truth? s, number? s with
    | some b, _ => .bool b
    | none, some (n, _) => .number n
    | none, none => .text s

end Walkthrough.Yaml
