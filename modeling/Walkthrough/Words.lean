import Walkthrough.Text.Blank

/-!
# Shell words

A command is written as words in the manner of a shell. Blank characters separate words; a part in
single quotes stands as it is; in double quotes a backslash escapes a double quote, a backslash, a
dollar sign and a back quote, and any other backslash stands; outside quotes a backslash escapes
every character. A backslash at the end of a line joins it to the next one; outside quotes the line
may also end with a carriage return and a line feed.

`Words.split` reads words in one pass, one character at a time, and `Words.quote` writes a word so
that it is read as one.
-/

namespace Walkthrough.Words

open Walkthrough.Text (isBlank isWordChar)

/-! ## Reading -/

inductive Quotation
  | single
  | double
  deriving DecidableEq

/-- Where the reader stands between two characters. -/
inductive Mode
  /-- Outside quotes. -/
  | bare
  /-- After a backslash outside quotes. -/
  | escape
  /-- After a backslash and a carriage return outside quotes. -/
  | escapeReturn
  /-- In single quotes. -/
  | single
  /-- In double quotes. -/
  | double
  /-- After a backslash in double quotes. -/
  | doubleEscape
  deriving DecidableEq

/-- The word that is being read, in reverse, if there is one. -/
abbrev Partial := Option (List Char)

def finished : Partial → List String
  | none => []
  | some word => [String.ofList word.reverse]

def extend (word : Partial) (c : Char) : Partial :=
  some (c :: word.getD [])

def begun (word : Partial) : Partial :=
  some (word.getD [])

/-- True of the characters that a backslash escapes in double quotes. -/
def isEscapedInDouble (c : Char) : Bool :=
  c == '\x22' || c == '\\' || c == '$' || c == '\x60'

/-- One character outside quotes: the words that it ends, and where the reader stands after it. -/
def bareStep (word : Partial) (c : Char) : List String × Mode × Partial :=
  if c = '\x27' then ([], .single, begun word)
  else if c = '\x22' then ([], .double, begun word)
  else if c = '\\' then ([], .escape, word)
  else if isBlank c then (finished word, .bare, none)
  else ([], .bare, extend word c)

def step (mode : Mode) (word : Partial) (c : Char) : List String × Mode × Partial :=
  match mode with
  | .bare => bareStep word c
  | .escape =>
    -- The command goes on in the next line.
    if c = '\n' then ([], .bare, word)
    else if c = '\r' then ([], .escapeReturn, word)
    else ([], .bare, extend word c)
  | .escapeReturn => if c = '\n' then ([], .bare, word) else bareStep (extend word '\r') c
  | .single => if c = '\x27' then ([], .bare, word) else ([], .single, extend word c)
  | .double =>
    if c = '\x22' then ([], .bare, word)
    else if c = '\\' then ([], .doubleEscape, word)
    else ([], .double, extend word c)
  | .doubleEscape =>
    if c = '\n' then ([], .double, word)
    else if isEscapedInDouble c then ([], .double, extend word c)
    -- A backslash that escapes nothing stays.
    else ([], .double, extend (extend word '\\') c)

/-- The words that the end of the command ends, or the quotation that is never closed. A backslash
at the very end is dropped. -/
def atEnd (mode : Mode) (word : Partial) : Except Quotation (List String) :=
  match mode with
  | .bare => .ok (finished word)
  | .escape => .ok (finished word)
  | .escapeReturn => .ok (finished (extend word '\r'))
  | .single => .error .single
  | .double => .error .double
  | .doubleEscape => .error .double

def scan (mode : Mode) (word : Partial) : List Char → Except Quotation (List String)
  | [] => atEnd mode word
  | c :: rest =>
    let (ended, mode, word) := step mode word c
    (scan mode word rest).map (ended ++ ·)

def split (command : String) : Except Quotation (List String) :=
  scan .bare none command.toList

/-! ## Writing -/

def isPlain (c : Char) : Bool :=
  isWordChar c || c == '@' || c == '%' || c == '+' || c == '=' || c == ':' || c == ',' ||
    c == '.' || c == '/' || c == '-'

/-- A character in single quotes. A single quote closes them, stands escaped, and opens them
again. -/
def quoteChar (c : Char) : List Char :=
  if c = '\x27' then ['\x27', '\\', '\x27', '\x27'] else [c]

def quoteChars (cs : List Char) : List Char :=
  if !cs.isEmpty && cs.all isPlain then cs else '\x27' :: cs.flatMap quoteChar ++ ['\x27']

/-- A word as it is written: plain where that is possible, else in single quotes. -/
def quote (word : String) : String :=
  String.ofList (quoteChars word.toList)

end Walkthrough.Words
