import Walkthrough.Flow.Fields
import Walkthrough.Json.Printer
import Walkthrough.Path
import Walkthrough.Session.Eligible
import Walkthrough.Session.Render
import Walkthrough.Talk

/-!
# Attempts

`Session.attempt` runs an automatic step once: it renders the request, sends it, and stores the
result. A step fails when its request cannot be rendered, when no answer arrives, and when the
answer has a status that is no success. Only a forbidden call is an error of the attempt itself, and
then nothing is stored.

With an `Archive`, the request and the response are also written to files. A file that cannot be
written leads to a warning and to nothing else.
-/

namespace Walkthrough

/-- Where requests and responses are kept: `<directory>/<run>/<step>/`. -/
structure Archive where
  run : String
  directory : String := "runs"
  deriving DecidableEq, Inhabited

namespace Archive

def folder (a : Archive) (id : String) : String :=
  Path.join [a.directory, a.run, id]

def file (a : Archive) (id name : String) : String :=
  Path.join [a.folder id, name]

def save (a : Archive) (id name : String) (v : Value) : Talk Unit :=
  .save (a.folder id) (a.file id name) (Json.print v) fun
    | none => .done ()
    | some reason =>
      .say (.leveled .warn ("could not write " ++ a.file id name ++ ": " ++ reason))

end Archive

structure RunOptions where
  /-- How many milliseconds to wait for an answer. -/
  limit : Number
  /-- The address that completes addresses in responses. -/
  serverUrl : Option String := none
  archive : Option Archive := none
  /-- Offers a manual step to the user, who gives its fields or leaves it. -/
  onManual : Option (Step → Talk (Option Fields)) := none

/-- A duration in whole milliseconds; a half counts as a whole one. -/
def durationText (ms : Number) : String :=
  ms.round.text ++ "ms"

/-- The duration that is shown. The program has no clock, so every duration is zero. -/
def noTime : String :=
  "(" ++ durationText (.ofInt 0) ++ ")"

/-! ## Requests -/

/-- Sends a request and reads the response. A time limit that cannot be set is a failure of the
transport. -/
def exchange (request : Request) (limit : Number) : Talk (Except TransportFault Response) :=
  match Exchange.limitComplaint? limit with
  | some complaint => .done (.error (.failed request.title complaint))
  | none => .send request.wire fun o => .done (Exchange.receive request.title limit o)

namespace Step

def conclude (d : Step) (serverUrl : Option String) (request : Request)
    (r : Except TransportFault Response) : StepResult :=
  match r with
  | .error f =>
    { status := .failed, origin := .http, request := some request, failure := some (.transport f) }
  | .ok response =>
    if Response.isSuccess response.status then
      let json := d.completeUrls serverUrl response.json
      { status := .completed, origin := .http, fields := d.fieldsOf json, request := some request
        response := some { response with json } }
    else
      { status := .failed, origin := .http, request := some request, response := some response
        failure := some (.status response.status response.statusText) }

def execute (d : Step) (request : Request) (opts : RunOptions) : Talk StepResult :=
  (exchange request opts.limit).bind fun r => .done (d.conclude opts.serverUrl request r)

end Step

namespace Session

/-! ## What is said -/

def announcement (d : Step) : Note :=
  .leveled .info ("\n" ++ Colour.cyan "▶ step" ++ " " ++ d.id ++ " " ++ Colour.gray d.title)

def renderNote (id : String) (f : Failure) : Note :=
  .leveled .info (Colour.red "✗ failed" ++ " " ++ id ++ " " ++ Colour.gray f.describe)

def resultNote (id : String) (r : StepResult) : Note :=
  let took := Colour.gray noTime
  if r.status = .completed then
    let names := r.fields.names
    let kept :=
      if names.isEmpty then "" else " " ++ Colour.gray ("fields: " ++ Text.commaList names)
    .leveled .info (Colour.green "✓ done" ++ " " ++ id ++ " " ++ took ++ kept)
  else
    let why := (r.failure.map Failure.describe).getD ""
    .leveled .info (Colour.red "✗ failed" ++ " " ++ id ++ " " ++ took ++ " " ++ Colour.gray why)

def keep (archive : Option Archive) (id : String) (request : Request) (r : StepResult) :
    Talk Unit :=
  match archive with
  | none => .done ()
  | some a =>
    (a.save id "request.json" request.toValue).bind fun _ =>
      match r.response with
      -- What an earlier attempt has received stays in its file.
      | none => .done ()
      | some response => a.save id "response.json" response.toValue

/-! ## One attempt -/

def requireRunnable (s : Session) (id : String) : Except Misuse Step := do
  let d ← s.step id
  if d.manual then throw (.manualRun id)
  if s.isCompleted id then throw (.completedBefore id)
  let eligible ← s.eligible
  if !eligible.contains id then throw (.notEligible id)
  return d

def unrendered (f : RenderFault) : StepResult :=
  { status := .failed, origin := .http, failure := some (.render f) }

/-- Sends the request of a step that is marked as running, and stores the result. -/
def settle (running : Session) (d : Step) (request : Request) (opts : RunOptions) :
    Talk (Except Misuse (Session × StepResult)) :=
  (d.execute request opts).bind fun r =>
    match running.record d.id r with
    | .error m => .done (.error m)
    | .ok s =>
      (keep opts.archive d.id request r).bind fun _ =>
        .note (resultNote d.id r) (.done (.ok (s, r)))

/-- Renders, sends and stores a step that has been admitted. -/
def perform (s : Session) (d : Step) (opts : RunOptions) :
    Talk (Except Misuse (Session × StepResult)) :=
  match s.render d.id with
  | .error m => .done (.error m)
  | .ok (.error f) =>
    match s.record d.id (unrendered f) with
    | .error m => .done (.error m)
    | .ok s => .note (renderNote d.id (.render f)) (.done (.ok (s, unrendered f)))
  | .ok (.ok request) =>
    .note (.leveled .debug request.title) <|
      match s.markRunning d.id request with
      | .error m => .done (.error m)
      | .ok running => settle running d request opts

/-- Runs an automatic step once: the session after it and the result. -/
def attempt (s : Session) (id : String) (opts : RunOptions) :
    Talk (Except Misuse (Session × StepResult)) :=
  match s.requireRunnable id with
  | .error m => .done (.error m)
  | .ok d => .note (announcement d) (perform s d opts)

end Session

end Walkthrough
