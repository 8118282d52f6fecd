/-!
# Blank characters

Which characters separate words, how a text is freed of them at both ends, and how a line falls
into words. Command lines, shell words, header values and settings all use this one class.

The class is the white space of Unicode together with the byte order mark, less the next-line
control character: 25 characters in all.
-/

namespace Walkthrough.Text

/-- The 25 characters that separate words. -/
def isBlank (c : Char) : Bool :=
  let n := c.toNat
  (9 ≤ n && n ≤ 13) || n == 0x20 || n == 0xA0 || n == 0x1680 || (0x2000 ≤ n && n ≤ 0x200A) ||
    n == 0x2028 || n == 0x2029 || n == 0x202F || n == 0x205F || n == 0x3000 || n == 0xFEFF

/-- The four characters that end a line. -/
def isLineEnd (c : Char) : Bool :=
  c == '\n' || c == '\r' || c == '\u2028' || c == '\u2029'

def isDigit (c : Char) : Bool :=
  '0' ≤ c && c ≤ '9'

def isLetter (c : Char) : Bool :=
  ('a' ≤ c && c ≤ 'z') || ('A' ≤ c && c ≤ 'Z')

def isWordChar (c : Char) : Bool :=
  isLetter c || isDigit c || c == '_'

/-! ## Trimming -/

def trimChars (cs : List Char) : List Char :=
  ((cs.dropWhile isBlank).reverse.dropWhile isBlank).reverse

def trim (s : String) : String :=
  String.ofList (trimChars s.toList)

/-- True of a text of blank characters only, the empty one included. -/
def allBlank (s : String) : Bool :=
  s.toList.all isBlank

/-! ## Words -/

/-- The word read so far, if there is one, comes before the words that follow it. -/
def closeWord : List Char → List String → List String
  | [], rest => rest
  | word, rest => String.ofList word.reverse :: rest

/-- The words of the characters still to be read, the first one continuing `word`, which is held
in reverse. -/
def wordsFrom (word : List Char) : List Char → List String
  | [] => closeWord word []
  | c :: rest => if isBlank c then closeWord word (wordsFrom [] rest) else wordsFrom (c :: word) rest

/-- The maximal runs of characters that are not blank. -/
def words (line : String) : List String :=
  wordsFrom [] line.toList

end Walkthrough.Text
