import Walkthrough.Path
import Walkthrough.Record
import Walkthrough.Talk

/-!
# Environment files

Before the program itself begins, its environment is completed from a file; what the environment has
already is kept. The format of the file belongs to a package. What stands here is the reader that the
program is run with.

A variable is set by its name, by an equals sign or by a colon and a blank character, and by a value.
A value between quotes may go over several lines, others end with the line or with `#`, which begins
a comment. What is no such setting is passed over.
-/

namespace Walkthrough.EnvironmentFile

/-! ## Values -/

def quotes : List Char :=
  ['\x22', '\x27', '\x60']

/-- The ways to end a quoted text: what it encloses, last character first, and what comes after it.
Quotes behind a backslash end it only where no later quote does. -/
def closings (quote : Char) (before : List Char) : List Char → List (List Char × List Char)
  | [] => []
  | '\\' :: c :: rest =>
    if c = quote then
      closings quote (c :: '\\' :: before) rest ++ [('\\' :: before, rest)]
    else closings quote ('\\' :: before) (c :: rest)
  | c :: rest => if c = quote then [(before, rest)] else closings quote (c :: before) rest

/-- True of what may follow a quoted text: nothing else on its line but a comment. -/
def endsLine (cs : List Char) : Bool :=
  match cs.dropWhile fun c => Text.isBlank c && !Text.isLineEnd c with
  | [] => true
  | c :: _ => Text.isLineEnd c || c == '#'

def quotedPart? (cs : List Char) : Option (List Char × List Char) :=
  match cs.dropWhile Text.isBlank with
  | [] => none
  | quote :: rest =>
    if quotes.contains quote then
      ((closings quote [] rest).find? fun e => endsLine e.2).map fun (inner, rest) =>
        (quote :: inner.reverse ++ [quote], rest)
    else none

def valuePart (cs : List Char) : List Char × List Char :=
  (quotedPart? cs).getD (cs.span fun c => c != '#' && c != '\n')

/-- The value without the quotes around it. Double quotes allow `\n` and `\r` for ends of lines. -/
def valueOf (written : List Char) : String :=
  let cs := Text.trimChars written
  let inner := match cs with
    | [] => []
    | quote :: rest =>
      if quotes.contains quote && rest.getLast? == some quote then rest.dropLast else cs
  let s := String.ofList inner
  if cs.head? == some '\x22' then (s.replace "\\n" "\n").replace "\\r" "\r" else s

/-! ## Variables -/

def isNameChar (c : Char) : Bool :=
  Text.isWordChar c || c == '.' || c == '-'

def afterSeparator? (cs : List Char) : Option (List Char) :=
  match cs.dropWhile Text.isBlank, cs with
  | '=' :: rest, _ => some rest
  | _, ':' :: c :: rest => if Text.isBlank c then some rest else none
  | _, _ => none

def setting? (cs : List Char) : Option ((String × String) × List Char) :=
  let (name, after) := (cs.dropWhile Text.isBlank).span isNameChar
  if name.isEmpty then none
  else
    (afterSeparator? after).map fun cs =>
      let (value, rest) := valuePart cs
      ((String.ofList name, valueOf value), rest)

def exported? (cs : List Char) : Option (List Char) :=
  (Text.after? "export" (String.ofList (cs.dropWhile Text.isBlank))).bind fun s =>
    match s.toList with
    | c :: rest => if Text.isBlank c then some rest else none
    | [] => none

def dropLine (cs : List Char) : List Char :=
  (cs.dropWhile (· != '\n')).drop 1

/-- The variables that a text sets, at most `fuel` of its lines being looked at. -/
def entriesFrom : Nat → List Char → List (String × String)
  | 0, _ => []
  | _ + 1, [] => []
  | fuel + 1, cs =>
    match ((exported? cs).bind setting?) <|> setting? cs with
    | some (entry, rest) => entry :: entriesFrom fuel (dropLine rest)
    | none => entriesFrom fuel (dropLine cs)

/-- A carriage return ends a line, alone or in front of a line feed. -/
def withLineFeeds : List Char → List Char
  | [] => []
  | '\r' :: '\n' :: rest => '\n' :: withLineFeeds rest
  | c :: rest => (if c = '\r' then '\n' else c) :: withLineFeeds rest

def entriesOf (text : String) : Record String :=
  let cs := withLineFeeds text.toList
  Record.ofList (entriesFrom cs.length cs)

/-! ## Completing the environment -/

def locationName : String :=
  "DOTENV_CONFIG_PATH"

/-- The file as a word of the command line names it, or else the environment. -/
def location (words : List String) (env : Record String) : String :=
  let named := words.filterMap (Text.after? "dotenv_config_path=")
  (((named.getLast?.or (env.get? locationName)).filter (!·.isEmpty))).getD ".env"

def complete (directory : String) (words : List String) (env : Record String) :
    Talk (Record String) :=
  .read (Path.resolve directory (location words env)) fun
    | .ok text => .done ((entriesOf text).overlay env)
    | .error _ => .done env

end Walkthrough.EnvironmentFile
