import Walkthrough.Exchange
import Walkthrough.Spread
import Walkthrough.Template

/-!
# Sessions

A session is one walk through a flow: the results of its steps so far, the server's address, the
endpoints that the server named, and the session variables. Results are written in three ways.
`Session.markRunning` and `Session.record` are for requests, `Session.completeManual` is for manual
steps, and `Session.restart` is the only way back: it clears a step with all steps that consume it.

Each write checks its conditions first and either gives the session after it or says which rule
forbids it (`Misuse`).
-/

namespace Walkthrough

/-! ## Results -/

inductive Status
  | pending
  | running
  | completed
  | failed
  deriving DecidableEq, Inhabited

namespace Status

def name : Status → String
  | pending => "pending"
  | running => "running"
  | completed => "completed"
  | failed => "failed"

end Status

inductive Origin
  | http
  | manual
  deriving DecidableEq, Inhabited

namespace Origin

def name : Origin → String
  | http => "http"
  | manual => "manual"

end Origin

inductive Failure
  | render (f : RenderFault)
  | transport (f : TransportFault)
  | status (code : Int) (reason : String)
  /-- A failure that was found outside and reported. -/
  | reported (r : Report)
  /-- Anything else that was raised outside. -/
  | raised (v : Value)
  deriving Inhabited

namespace Failure

def report : Failure → Report
  | render f => f.report
  | transport f => f.report
  | status code reason => .ofStatus (.ofInt code) reason
  | reported r => r
  | raised v => { family := .plain, kind := "", message := Thrown.valueText v }

def describe (f : Failure) : String :=
  f.report.describe

/-- A failure in one line, unless it is a value that counts as none. -/
def describe? : Failure → Option String
  | raised .null => none
  | raised (.bool false) => none
  | raised (.number n) => if n.isFinite && n.toInt? == some 0 then none else some n.text
  | raised (.text s) => if s.isEmpty then none else some s
  | f => some f.describe

end Failure

structure StepResult where
  status : Status
  origin : Origin
  fields : Fields := []
  request : Option Request := none
  response : Option Response := none
  failure : Option Failure := none
  deriving Inhabited

/-! ## Forbidden calls -/

inductive Misuse
  | unknownStep (id : String)
  | waiting (id : String) (missing : List String)
  | manualRequest (id : String)
  | completedBefore (id : String)
  | alreadyRunning (id : String)
  | resultExists (id : String)
  | notManual (id : String)
  | manualCompletedBefore (id : String)
  | brokenPrerequisite (id prerequisite : String)
  | noTemplate (id : String)
  | manualRun (id : String)
  | notEligible (id : String)
  /-- A flow that is not the session's own has no such step, and what it holds under the name is no
  list of prerequisites. -/
  | foreignStep (id : String)
  deriving DecidableEq, Inhabited

namespace Misuse

def message : Misuse → String
  | unknownStep id => "Unknown step '" ++ id ++ "'"
  | waiting id missing =>
    "Step '" ++ id ++ "' is not eligible: waiting on " ++ Text.commaList missing
  | manualRequest id => "Manual step '" ++ id ++ "' cannot run over HTTP"
  | completedBefore id => "Step '" ++ id ++ "' already completed; restart it first"
  | alreadyRunning id => "Step '" ++ id ++ "' is already running"
  | resultExists id => "Step '" ++ id ++ "' already has a completed result"
  | notManual id => "Step '" ++ id ++ "' is not a manual step"
  | manualCompletedBefore id => "Manual step '" ++ id ++ "' is already completed"
  | brokenPrerequisite id prerequisite =>
    "Step '" ++ id ++ "' is completed but its dependency '" ++ prerequisite ++ "' is not"
  | noTemplate id => "Step '" ++ id ++ "' has no request template"
  | manualRun id => "Step '" ++ id ++ "' is manual; complete it instead of running it"
  | notEligible id => "Step '" ++ id ++ "' is not eligible yet"
  | foreignStep id => "Step '" ++ id ++ "' has no list of prerequisites"

def report (m : Misuse) : Report :=
  { family := .invariant, kind := "InvariantError", message := m.message }

end Misuse

/-! ## The session -/

/-- One walk through a flow. -/
structure Session where
  flow : Flow
  serverUrl : Option String := none
  discovered : Record String := []
  /-- The session variables. -/
  vars : Record String := []
  /-- The results in the order in which they first came. -/
  results : Ledger StepResult := []
  deriving Inhabited

namespace Session

def result? (s : Session) (id : String) : Option StepResult :=
  s.results.get? id

def status (s : Session) (id : String) : Status :=
  ((s.result? id).map (·.status)).getD .pending

def isCompleted (s : Session) (id : String) : Bool :=
  s.status id == .completed

/-- The completed steps in the order of their results. -/
def completed (s : Session) : List String :=
  (s.results.filter fun e => e.2.status == .completed).map (·.1)

def field? (s : Session) (id name : String) : Option Scalar :=
  match s.result? id with
  | some r => if r.status = .completed then r.fields.get? name else none
  | none => none

/-- The prerequisites of a step that are not completed. -/
def missing (s : Session) (id : String) : List String :=
  (s.flow.prerequisites id).filter fun p => !s.isCompleted p

/-! ## Writing results -/

def store (s : Session) (id : String) (r : StepResult) : Session :=
  { s with results := s.results.put id r }

def step (s : Session) (id : String) : Except Misuse Step :=
  match s.flow.step? id with
  | some d => .ok d
  | none => .error (.unknownStep id)

def requirePrerequisites (s : Session) (id : String) : Except Misuse Unit :=
  if (s.missing id).isEmpty then .ok () else .error (.waiting id (s.missing id))

def markRunning (s : Session) (id : String) (request : Request) : Except Misuse Session := do
  let d ← s.step id
  if d.manual then throw (.manualRequest id)
  if s.isCompleted id then throw (.completedBefore id)
  if s.status id == .running then throw (.alreadyRunning id)
  s.requirePrerequisites id
  return s.store id { status := .running, origin := .http, request := some request }

/-- Stores the result of a step that is not completed. -/
def record (s : Session) (id : String) (r : StepResult) : Except Misuse Session := do
  let _ ← s.step id
  if s.isCompleted id then throw (.resultExists id)
  -- Only a result that completes the step has to wait for the prerequisites.
  if r.status == .completed then s.requirePrerequisites id
  return s.store id r

def manualResult (fields : Fields) : StepResult :=
  { status := .completed, origin := .manual, fields }

def completeManual (s : Session) (id : String) (fields : Fields) : Except Misuse Session := do
  let d ← s.step id
  if !d.manual then throw (.notManual id)
  if s.isCompleted id then throw (.manualCompletedBefore id)
  s.requirePrerequisites id
  return s.store id (manualResult fields)

/-! ## Restarting -/

/-- The steps that consume a step: those that have it as a prerequisite or read from it. -/
def consumers (f : Flow) (id : String) : List String :=
  (f.steps.filter fun d => d.prerequisites.contains id || d.sources.contains id).map (·.id)

/-- A step with all that consume it, directly or through others. -/
def affected (f : Flow) (id : String) : List String :=
  spread (consumers f) f.steps.length [id] [id]

/-- The steps that a restart clears, in declared order. -/
def cleared (s : Session) (id : String) : List String :=
  s.flow.order.filter fun x => (affected s.flow id).contains x && s.results.has x

/-- Clears the results of a step and of all that consume it: the session after that, and the steps
cleared. -/
def restart (s : Session) (id : String) : Except Misuse (Session × List String) := do
  let _ ← s.step id
  let gone := s.cleared id
  return ({ s with results := gone.foldl Ledger.erase s.results }, gone)

end Session

end Walkthrough
