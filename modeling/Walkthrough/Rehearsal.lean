import Walkthrough.FileTree
import Walkthrough.Prompter
import Walkthrough.Talk

/-!
# Rehearsals

A rehearsal runs a program without a network, a disk or a user: the outcomes of its requests are
given in order, its files are a `FileTree`, and its user follows a script. What the program sends,
says and asks is kept. Files and pipes hold bytes, so texts and paths are repaired on the way to
them.

A user either has an answer ready for every question, or types lines into a pipe. Lines that are
typed come in batches: a batch arrives when the program has to wait for a line, and the question is
put only then.
-/

namespace Walkthrough

inductive User
  /-- Answers each question with the next text, and with a blank one after the last; to confirmations
  nothing is answered. -/
  | prepared (answers : List String)
  /-- Types lines that arrive in batches. -/
  | typing (p : Prompter) (batches : List (List Prompter.Event))
  deriving Inhabited

namespace User

/-! ## Typed lines -/

/-- The lines of a text that are complete, and the characters after them. A line ends in a line
feed, a carriage return, both, or one of the two separators of Unicode. `line` holds the characters
of the line so far in reverse. -/
def linesFrom (line : List Char) : List Char → List String × List Char
  | [] => ([], line.reverse)
  | '\r' :: '\n' :: rest =>
    let (lines, last) := linesFrom [] rest
    (String.ofList line.reverse :: lines, last)
  | c :: rest =>
    if Text.isLineEnd c then
      let (lines, last) := linesFrom [] rest
      (String.ofList line.reverse :: lines, last)
    else linesFrom (c :: line) rest

/-- The batches of a text that is in the pipe at once: its complete lines, and then the end of the
input with what stands after the last of them. -/
def batchesOf (text : String) : List (List Prompter.Event) :=
  let (lines, last) := linesFrom [] text.toList
  let last := if last.isEmpty then [] else [Prompter.Event.line (String.ofList last)]
  [lines.map .line, last ++ [.close]]

/-- The user whose input is the given text, which a pipe brings as bytes. -/
def piped (text : String) : User :=
  typing {} (batchesOf (Text.repair text))

def delivered? (reader : Nat) (effects : List Prompter.Effect) : Option (Option String) :=
  effects.findSome? fun
    | .deliver r line => if r = reader then some line else none
    | .asked _ => none

/-- Lets batches arrive until the reader is given something. -/
def await (reader : Nat) (p : Prompter) :
    List (List Prompter.Event) → Option String × Prompter × List (List Prompter.Event)
  | [] => (none, p, [])
  | batch :: rest =>
    let (p, effects) := p.run batch
    match delivered? reader effects with
    | some line => (line, p, rest)
    | none => await reader p rest

end User

inductive Written
  /-- A line on one of the streams. -/
  | line (stream : Stream) (s : String)
  /-- A question, after which the line goes on. -/
  | question (s : String)
  deriving DecidableEq, Inhabited

structure Rehearsal where
  /-- The outcomes of the requests to come. -/
  outcomes : List Outcome := []
  user : User := .prepared []
  tree : FileTree := {}
  /-- The directory of the program. -/
  directory : String := "/"
  /-- The least level that is shown. -/
  floor : Level := .info
  /-- What has been sent. -/
  sent : List Wire := []
  /-- What has been asked. -/
  asked : List Question := []
  written : List Written := []
  deriving Inhabited

namespace Rehearsal

/-- What a request without an outcome ends in. -/
def exhausted : Outcome :=
  .failed (.error "TypeError" "no scripted response" none)

/-! ## Replies -/

def send (request : Wire) (r : Rehearsal) : Outcome × Rehearsal :=
  let r := { r with sent := r.sent ++ [request] }
  match r.outcomes with
  | [] => (exhausted, r)
  | o :: rest => (o, { r with outcomes := rest })

def askPrepared (q : Question) (answers : List String) (r : Rehearsal) :
    Option String × Rehearsal :=
  match q, answers with
  | .confirm _ _, _ => (none, r)
  | _, [] => (some "", r)
  | _, a :: rest => (some a, { r with user := .prepared rest })

def askTyping (q : Question) (p : Prompter) (batches : List (List Prompter.Event))
    (r : Rehearsal) : Option String × Rehearsal :=
  let reader := p.next
  let (p, effects) := p.read
  match User.delivered? reader effects with
  | some line => (line, { r with user := .typing p batches })
  | none =>
    let (line, p, batches) := User.await reader p batches
    (line, { r with user := .typing p batches, written := r.written ++ [.question q.text] })

def ask (q : Question) (r : Rehearsal) : Option String × Rehearsal :=
  let r := { r with asked := r.asked ++ [q] }
  match r.user with
  | .prepared answers => askPrepared q answers r
  | .typing p batches => askTyping q p batches r

def note (n : Note) (r : Rehearsal) : Rehearsal :=
  match n.shown? r.floor with
  | some (stream, s) => { r with written := r.written ++ [.line stream s] }
  | none => r

def pathOf (r : Rehearsal) (file : String) : String :=
  Text.repair (Path.resolve r.directory file)

def read (file : String) (r : Rehearsal) : Except ReadFault String × Rehearsal :=
  (r.tree.read (r.pathOf file), r)

def save (directory file text : String) (r : Rehearsal) : Option String × Rehearsal :=
  let (tree, done) :=
    r.tree.save (r.pathOf directory) (r.pathOf file) (Text.repair text)
  (if done then none else some "the file cannot be written", { r with tree })

def host : Talk.Host (StateM Rehearsal) where
  send request := modifyGet (send request)
  ask q := modifyGet (ask q)
  note n := modify (note n)
  floor level := modify fun r => { r with floor := level }
  read file := modifyGet (read file)
  save directory file text := modifyGet (save directory file text)

/-- Rehearses a program: its value, and the rehearsal after it. -/
def run {α : Type} (t : Talk α) (r : Rehearsal) : α × Rehearsal :=
  (t.run host : StateM Rehearsal α) r

/-! ## What has been written -/

/-- The text of what has been written to the output and not to the error stream. -/
def output (r : Rehearsal) : String :=
  Text.repair <| String.join <| r.written.map fun
    | .line .log s => s ++ "\n"
    | .line _ _ => ""
    | .question s => s

def errors (r : Rehearsal) : String :=
  Text.repair <| String.join <| r.written.map fun
    | .line .log _ => ""
    | .line _ s => s ++ "\n"
    | .question _ => ""

def lines (r : Rehearsal) : List (Stream × String) :=
  r.written.filterMap fun
    | .line stream s => some (stream, s)
    | .question _ => none

end Rehearsal

end Walkthrough
