import Walkthrough.Session.Basic

/-!
# Eligible steps

A step is eligible when all its prerequisites are completed and it is not completed itself. Manual
steps are counted in. `Session.classify` says of every step how it stands.

Both refuse a session in which a completed step has a prerequisite that is not completed. A flow
other than the session's own need not have all completed steps; such a step has no prerequisites
there, but if it has one of the innate names of records it is refused.
-/

namespace Walkthrough

inductive View
  | completed
  | running
  | failed
  | eligible
  | blocked
  deriving DecidableEq, Inhabited

namespace View

def name : View → String
  | completed => "completed"
  | running => "running"
  | failed => "failed"
  | eligible => "eligible"
  | blocked => "blocked"

end View

/-- A step with its view; a blocked step with the prerequisites that it waits for. -/
structure Standing where
  id : String
  view : View
  waitingOn : List String
  deriving DecidableEq, Inhabited

namespace Session

/-- What is wrong with a completed step. -/
def flaw? (f : Flow) (done : List String) (id : String) : Option Misuse :=
  -- A flow that is not the session's own may lack the step.
  if !f.order.contains id && Record.innate.contains id then some (.foreignStep id)
  else ((f.prerequisites id).find? fun p => !done.contains p).map fun p => .brokenPrerequisite id p

def eligibleAmong (f : Flow) (done : List String) : List String :=
  f.order.filter fun id => !done.contains id && (f.prerequisites id).all fun p => done.contains p

/-- The eligible steps of a flow in declared order; the flow need not be the session's own. -/
def eligibleIn (f : Flow) (s : Session) : Except Misuse (List String) :=
  match s.completed.findSome? (flaw? f s.completed) with
  | some m => .error m
  | none => .ok (eligibleAmong f s.completed)

def eligible (s : Session) : Except Misuse (List String) :=
  eligibleIn s.flow s

/-- How one step stands, given the eligible ones. -/
def standing (f : Flow) (s : Session) (eligible : List String) (id : String) : Standing :=
  match s.status id with
  | .completed => ⟨id, .completed, []⟩
  | .running => ⟨id, .running, []⟩
  | .failed => ⟨id, .failed, []⟩
  | .pending =>
    if eligible.contains id then ⟨id, .eligible, []⟩
    else ⟨id, .blocked, (f.prerequisites id).filter fun p => !s.isCompleted p⟩

/-- How every step of a flow stands, in declared order. -/
def classifyIn (f : Flow) (s : Session) : Except Misuse (List Standing) :=
  (eligibleIn f s).map fun eligible => f.order.map (standing f s eligible)

def classify (s : Session) : Except Misuse (List Standing) :=
  classifyIn s.flow s

end Session

end Walkthrough
