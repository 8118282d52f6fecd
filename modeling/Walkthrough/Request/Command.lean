import Walkthrough.Report
import Walkthrough.Request
import Walkthrough.Words
import Walkthrough.Text.Split

/-!
# Requests as curl commands

`Command.read` takes a request from a curl command, and `Command.write` gives the command for a
request, one option a line.

An option takes its value from the next word, from the text after an equals sign (`--data=x`) or,
for the four short options, from the rest of its own word (`-dx`). Placeholders are plain text to
the reader.
-/

namespace Walkthrough.Command

/-! ## Faults -/

inductive Fault
  | unclosed (q : Words.Quotation)
  | notCurl
  | missingValue (flag : String)
  | malformedHeader (name : String)
  | unsupported (flag : String)
  | secondUrl (first second : String)
  | noUrl
  deriving DecidableEq

namespace Fault

def message : Fault → String
  | unclosed .single => "unterminated single quote"
  | unclosed .double => "unterminated double quote"
  | notCurl => "command must start with 'curl'"
  | missingValue flag => flag ++ " needs a value"
  | malformedHeader name => "malformed header '" ++ name ++ "'"
  | unsupported flag => "unsupported curl option '" ++ flag ++ "'"
  | secondUrl first second => "more than one URL ('" ++ first ++ "', '" ++ second ++ "')"
  | noUrl => "no URL given"

/-- The report of a fault; `label` says where the command stands. -/
def report (label : String) (f : Fault) : Report :=
  { family := .config, kind := "InvalidDocument", message := label ++ ": " ++ f.message }

end Fault

/-! ## Options -/

inductive Setting
  | method
  | header
  | data
  | user
  deriving DecidableEq

def setting? (flag : String) : Option Setting :=
  if flag == "-X" || flag == "--request" then some .method
  else if flag == "-H" || flag == "--header" then some .header
  else if flag == "-d" || flag == "--data" || flag == "--data-raw" || flag == "--data-binary" then
    some .data
  else if flag == "-u" || flag == "--user" then some .user
  else none

def isIgnored (flag : String) : Bool :=
  flag == "-s" || flag == "--silent" || flag == "-S" || flag == "--show-error" ||
    flag == "--compressed" || flag == "-i" || flag == "--include"

def isShortLetter (c : Char) : Bool :=
  c == 'X' || c == 'H' || c == 'd' || c == 'u'

/-- A word as a flag and the value that is attached to it. A value is not attached to a short
option when it begins with the end of a line. -/
def flagOf (word : String) : String × Option String :=
  match word.toList with
  | '-' :: '-' :: rest =>
    if rest.contains '=' then Text.cut '=' word else (word, none)
  | '-' :: letter :: c :: rest =>
    if isShortLetter letter && !Text.isLineEnd c then
      (String.ofList ['-', letter], some (String.ofList (c :: rest)))
    else (word, none)
  | _ => (word, none)

/-! ## Reading -/

/-- What the words read so far say about the request. -/
structure Draft where
  method : Option String := none
  url : Option String := none
  headers : List Header := []
  data : List String := []
  credentials : Option Credentials := none
  deriving DecidableEq, Inhabited

namespace Draft

def set (d : Draft) (s : Setting) (value : String) : Except Fault Draft :=
  match s with
  | .method => .ok { d with method := some (Text.upper value) }
  | .header =>
    match Text.cut ':' value with
    | (name, none) => .error (.malformedHeader name)
    | (name, some rest) => .ok { d with headers := d.headers ++ [(Text.trim name, Text.trim rest)] }
  | .data => .ok { d with data := d.data ++ [value] }
  | .user =>
    let (username, password) := Text.cut ':' value
    .ok { d with credentials := some ⟨username, password.getD ""⟩ }

/-- The draft after a word that is neither a known option nor a value. -/
def word (d : Draft) (flag : String) : Except Fault Draft :=
  if isIgnored flag then .ok d
  else if Text.startsWith flag "-" then .error (.unsupported flag)
  else
    match d.url with
    | some first => .error (.secondUrl first flag)
    | none => .ok { d with url := some flag }

/-- The request that the draft describes. A body makes it a POST unless it names its method. -/
def request (d : Draft) : Except Fault Request :=
  match d.url with
  | none => .error .noUrl
  | some url =>
    let body := if d.data.isEmpty then none else some (Text.joinWith "&" d.data)
    .ok
      { method := d.method.getD (if body.isSome then "POST" else "GET"), url, headers := d.headers,
        body, credentials := d.credentials }

end Draft

def readWords (d : Draft) : List String → Except Fault Draft
  | [] => .ok d
  | w :: rest =>
    match setting? (flagOf w).1 with
    | none => (d.word (flagOf w).1).bind fun d => readWords d rest
    | some s =>
      match (flagOf w).2, rest with
      | some value, rest => (d.set s value).bind fun d => readWords d rest
      -- The next word is the value, even if it looks like an option.
      | none, value :: rest => (d.set s value).bind fun d => readWords d rest
      | none, [] => .error (.missingValue (flagOf w).1)

def read (command : String) : Except Fault Request :=
  match Words.split command with
  | .error q => .error (.unclosed q)
  | .ok ("curl" :: words) => (readWords {} words).bind Draft.request
  | .ok _ => .error .notCurl

/-! ## Writing -/

def options (r : Request) : List String :=
  r.headers.map (fun h => "-H " ++ Words.quote (h.1 ++ ": " ++ h.2))
    ++ (r.credentials.map fun c => "-u " ++ Words.quote (c.username ++ ":" ++ c.password)).toList
    ++ (r.body.map fun b => "-d " ++ Words.quote b).toList

/-- The command for a request, each option on a line of its own. -/
def write (r : Request) : String :=
  Text.joinWith " \\\n  " (("curl -X " ++ r.method ++ " " ++ Words.quote r.url) :: options r)

end Walkthrough.Command
