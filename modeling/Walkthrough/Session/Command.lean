import Walkthrough.Assignments
import Walkthrough.Request.Command
import Walkthrough.Session.Walk

/-!
# Commands

A session is led by commands, one a line. The first word is the command and the second, for most of
them, a step. `Session.command` carries out a line and says whether the session goes on.

Before a step is run or completed, `Session.whyNotRunnable` and `Session.whyNotCompletable` give the
reason against it, if there is one, so that the user sees a sentence and not an error.
-/

namespace Walkthrough.Session

/-! ## Showing -/

def statusLine (s : Session) (e : Standing) : String :=
  let d := (s.flow.step? e.id).getD default
  let label := e.id ++ ") " ++ d.title ++ (if d.manual then " [manual]" else "")
  match e.view with
  | .completed => Colour.green "●" ++ " " ++ label
  | .eligible => Colour.yellow "●" ++ " " ++ label
  | .running => Colour.cyan "●" ++ " " ++ label ++ " " ++ Colour.gray "running"
  | .failed =>
    let why := (((s.result? e.id).bind (·.failure)).bind Failure.describe?).getD "failed"
    Colour.red "✗" ++ " " ++ label ++ " " ++ Colour.gray why
  | .blocked =>
    Colour.red "●" ++ " " ++ label ++ " "
      ++ Colour.gray ("waiting on " ++ Text.commaList e.waitingOn)

def overview (s : Session) : Except Misuse (List Note) :=
  s.classify.map fun standings => standings.map fun e => .line (s.statusLine e)

/-- The most units of a body that are shown. -/
def shownUnits : Nat :=
  2000

/-- The body of a response as it is shown: as data if it is JSON, else up to a limit. -/
def bodyLayout (r : Response) : Json.Layout :=
  match r.json with
  | none => .leaf (Json.quoteUpTo shownUnits r.body)
  | some .null => .leaf (Json.quoteUpTo shownUnits r.body)
  | some v => Json.layout v

def responseLayout (r : Response) : Json.Layout :=
  .mapping [("status", Json.layout (.number (.ofInt r.status))), ("body", bodyLayout r)]

def resultLayout (r : StepResult) : Json.Layout :=
  .mapping <|
    [("status", .leaf (Json.quote r.status.name)), ("fields", Json.layout (.ofFields r.fields))]
      ++ ((r.failure.bind Failure.describe?).map fun why => ("error", .leaf (Json.quote why))).toList
      ++ (r.request.map fun q => ("request", Json.Layout.leaf (Json.quote q.title))).toList
      ++ (r.response.map fun p => ("response", responseLayout p)).toList

def shown (s : Session) (id : String) : List Note :=
  match s.flow.step? id with
  | none => [.line ("No step '" ++ id ++ "'.")]
  | some d =>
    [.line (Colour.cyan d.id ++ " " ++ d.title)]
      ++ (if d.description.isEmpty then [] else [.line (Colour.gray d.description)])
      ++ match s.result? id with
        | none => [.line (Colour.gray "not run yet")]
        | some r => [.line (Json.write (resultLayout r))]

/-- The request of a step as a command, or why it has none yet. -/
def preview (s : Session) (id : String) : Except Misuse Note :=
  match s.flow.step? id with
  | none => .ok (.line ("No step '" ++ id ++ "'."))
  | some d =>
    if d.manual then .ok (.line ("Step '" ++ id ++ "' is manual; it sends no request."))
    else
      (s.render id).map fun
        | .ok r => .line (Command.write r)
        | .error f => .line (Colour.red f.report.describe)

def summaryNotes (m : Summary) : List Note :=
  let completed := Text.commaList m.completed
  [.line ("completed: " ++ (if completed == "" then "-" else completed))]
    ++ (if m.failed.isEmpty then [] else [.line ("failed:    " ++ Text.commaList m.failed)])
    ++ (if m.waiting.isEmpty then [] else
      [.line ("waiting:   " ++ Text.commaList m.waiting ++ " (manual)")])
    ++ (if m.blocked.isEmpty then [] else [.line ("blocked:   " ++ Text.commaList m.blocked)])

def help : String :=
  Text.joinWith "\n"
    ["status                 show every step",
      "run <id>               execute an eligible step",
      "retry <id>             restart a step (and its dependents), then run it",
      "complete <id> [k=v]... mark a manual step completed",
      "restart <id>           clear a step and everything downstream of it",
      "show <id>              print a step result",
      "preview <id>           print the request a step would send, as curl",
      "auto                   run all eligible automatic steps",
      "quit"]

/-! ## Reasons against -/

def whyBlocked (s : Session) (id : String) : Except Misuse (Option String) :=
  s.eligible.map fun eligible =>
    if eligible.contains id then none
    else some ("Step '" ++ id ++ "' is waiting on " ++ Text.commaList (s.missing id) ++ ".")

def whyNotRunnable (s : Session) (id : String) : Except Misuse (Option String) :=
  match s.flow.step? id with
  | none => .ok (some ("No step '" ++ id ++ "'."))
  | some d =>
    if d.manual then .ok (some ("Step '" ++ id ++ "' is manual; use 'complete " ++ id ++ "'."))
    else if s.isCompleted id then
      .ok (some ("Step '" ++ id ++ "' already completed; use 'retry " ++ id ++ "'."))
    else s.whyBlocked id

def whyNotCompletable (s : Session) (id : String) : Except Misuse (Option String) :=
  match s.flow.step? id with
  | none => .ok (some ("No step '" ++ id ++ "'."))
  | some d =>
    if !d.manual then .ok (some ("Step '" ++ id ++ "' is not manual; use 'run " ++ id ++ "'."))
    else if s.isCompleted id then .ok (some ("Step '" ++ id ++ "' already completed."))
    else s.whyBlocked id

/-! ## Asking -/

/-- Asks for the fields that are not given yet. A blank answer gives no field. -/
def askFields (step : String) (given : Fields) : List String → Talk Fields
  | [] => .done given
  | name :: rest =>
    if (given.get? name).isSome then askFields step given rest
    else
      .ask (.field step name) fun answer =>
        let answer := Text.trim (answer.getD "")
        askFields step (if answer.isEmpty then given else given.assign name (.text answer)) rest

def offerStep (d : Step) : Talk (Option Fields) :=
  .ask (.confirm d.id d.title) fun answer =>
    let answer := Text.trim (answer.getD "")
    if Text.sameWord "y" answer || Text.sameWord "yes" answer then
      (askFields d.id [] d.extract).bind fun fields => .done (some fields)
    else .done none

/-! ## Carrying out -/

/-- What a command leads to: the session after it, and whether it goes on. -/
abbrev Turn := Session × Except Misuse Bool

def said (s : Session) (notes : List Note) : Talk Turn :=
  (Talk.sayAll notes).bind fun _ => .done (s, .ok true)

/-- Runs a step unless there is a reason against it. -/
def runOrSay (s : Session) (id : String) (why : Except Misuse (Option String))
    (opts : RunOptions) : Talk Turn :=
  match why with
  | .error m => .done (s, .error m)
  | .ok (some reason) => s.said [.line (Colour.yellow reason)]
  | .ok none =>
    (s.attempt id opts).bind fun
      | .error m => .done (s, .error m)
      | .ok (s, _) => .done (s, .ok true)

def restartAnd (s : Session) (id : String) (again : Bool) (opts : RunOptions) : Talk Turn :=
  match s.restart id with
  | .error m => .done (s, .error m)
  | .ok (s, gone) =>
    let notes :=
      if gone.isEmpty then [] else [Note.line (Colour.gray ("cleared: " ++ Text.commaList gone))]
    (Talk.sayAll notes).bind fun _ =>
      if again then s.runOrSay id (s.whyNotRunnable id) opts else .done (s, .ok true)

/-- Completes a manual step with the given fields and those that the user is asked for. -/
def completeAsking (s : Session) (id : String) (given : Fields) : Talk Turn :=
  match s.whyNotCompletable id with
  | .error m => .done (s, .error m)
  | .ok (some reason) => s.said [.line (Colour.yellow reason)]
  | .ok none =>
    -- Without such a step there would have been a reason.
    let d := (s.flow.step? id).getD default
    (askFields id given d.extract).bind fun fields =>
      match s.completeManual id fields with
      | .error m => .done (s, .error m)
      | .ok s => s.said [.line (manualDone id)]

def walkAndSay (s : Session) (opts : RunOptions) : Talk Turn :=
  (s.walk opts).bind fun
    | (s, .error m) => .done (s, .error m)
    | (s, .ok summary) => s.said (summaryNotes summary)

def stepCommand (s : Session) (name : String) (id : Option String) (rest : List String)
    (opts : RunOptions) : Talk Turn :=
  match name, id with
  | "show", some id => s.said (s.shown id)
  | "show", none => s.said [.line "usage: show <id>"]
  | "preview", some id =>
    match s.preview id with
    | .error m => .done (s, .error m)
    | .ok n => s.said [n]
  | "preview", none => s.said [.line "usage: preview <id>"]
  | "run", some id => s.runOrSay id (s.whyNotRunnable id) opts
  | "run", none => s.said [.line (Colour.yellow "usage: run <id>")]
  | "complete", some id => s.completeAsking id (Assignments.fields rest)
  | "complete", none => s.said [.line (Colour.yellow "usage: complete <id> [key=value]...")]
  | _, some id =>
    if (s.flow.step? id).isSome then s.restartAnd id (name == "retry") opts
    else s.said [.line ("usage: " ++ name ++ " <id>")]
  | _, none => s.said [.line ("usage: " ++ name ++ " <id>")]

def isStepCommand (name : String) : Bool :=
  ["show", "preview", "run", "retry", "restart", "complete"].contains name

/-- Carries out a line: the session after it, and whether it goes on. -/
def command (s : Session) (line : String) (opts : RunOptions) : Talk Turn :=
  match Text.words line with
  | [] => .done (s, .ok true)
  | name :: rest =>
    if name == "quit" || name == "exit" then .done (s, .ok false)
    else if name == "status" then
      match s.overview with
      | .error m => .done (s, .error m)
      | .ok notes => s.said notes
    else if name == "auto" then s.walkAndSay opts
    else if isStepCommand name then s.stepCommand name rest.head? (rest.drop 1) opts
    else s.said [.line help]

end Walkthrough.Session
