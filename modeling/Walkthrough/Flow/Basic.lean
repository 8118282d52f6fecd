import Walkthrough.Request

/-!
# Flows

A flow is a list of steps in declared order. A step depends on other steps, its prerequisites. An
automatic step has a request template, whose placeholders are filled by rules from the fields of
earlier steps and from session variables; a manual step has none and is completed by the user.
-/

namespace Walkthrough

inductive Scope
  | url
  | headers
  | data
  | auth
  deriving DecidableEq, Inhabited

namespace Scope

def name : Scope → String
  | url => "url"
  | headers => "headers"
  | data => "data"
  | auth => "auth"

def ofName? (name : String) : Option Scope :=
  if name == "url" then some url
  else if name == "headers" then some headers
  else if name == "data" then some data
  else if name == "auth" then some auth
  else none

end Scope

inductive Reference
  /-- A field of a completed step. -/
  | field (step name : String)
  /-- A session variable. -/
  | setting (name : String)
  deriving DecidableEq, Inhabited

/-- A rule puts the value of its reference in the place of its token. -/
structure Rule where
  token : String
  reference : Reference
  /-- The reference as the document writes it. -/
  source : String
  /-- The part of the request that the rule is limited to; no limit means every part. -/
  scope : Option Scope
  deriving DecidableEq, Inhabited

structure Step where
  id : String
  title : String
  description : String
  /-- The paths of the fields to keep of a response; for a manual step the fields to ask for. -/
  extract : List String
  /-- The response fields that hold URLs to be completed with the server's address. -/
  urlFields : List String
  /-- The steps that must be completed before this one. -/
  prerequisites : List String
  /-- The request that the step sends; a manual step has none. -/
  template : Option Request
  rules : List Rule
  deriving DecidableEq, Inhabited

namespace Step

/-- True of the steps that send no request. -/
def manual (s : Step) : Bool :=
  s.template.isNone

/-- The steps that the rules of the step read from. -/
def sources (s : Step) : List String :=
  s.rules.filterMap fun r =>
    match r.reference with
    | .field step _ => some step
    | .setting _ => none

end Step

/-- A flow that has been checked. -/
structure Flow where
  /-- The steps in declared order. -/
  steps : List Step
  /-- The endpoints to use where the server names none. -/
  endpointDefaults : Record String
  /-- The steps in an order in which each follows its prerequisites. -/
  schedule : List String
  warnings : List String
  deriving DecidableEq, Inhabited

namespace Flow

def order (f : Flow) : List String :=
  f.steps.map (·.id)

def step? (f : Flow) (id : String) : Option Step :=
  f.steps.find? (·.id == id)

def prerequisites (f : Flow) (id : String) : List String :=
  ((f.step? id).map (·.prerequisites)).getD []

def isManual (f : Flow) (id : String) : Bool :=
  ((f.step? id).map (·.manual)).getD false

end Flow

end Walkthrough
