import Walkthrough.Session.Basic

/-!
# Requests of a session

The request template of a step is filled from a session and an endpoint context. An endpoint is the
one that the server named, else the default of the flow, else a session variable. A default that
begins with a slash counts only when the server's address is known, and is appended to it.
-/

namespace Walkthrough

namespace Session

/-- The text, unless it is missing or empty. -/
def filled? (s : Option String) : Option String :=
  match s with
  | some "" => none
  | other => other

end Session

structure EndpointContext where
  discovered : Record String
  defaults : Record String
  /-- The address to which a default that is a path is appended. -/
  baseUrl : Option String
  vars : Record String
  deriving DecidableEq, Inhabited

namespace EndpointContext

/-- The default for an endpoint, completed with the server's address. -/
def default? (c : EndpointContext) (name : String) : Option String :=
  match Session.filled? (c.defaults.get? name) with
  | none => none
  | some d =>
    if !Text.startsWith d "/" then some d
    else (Session.filled? c.baseUrl).map fun base => Text.dropEndSlashes base ++ d

def endpoint? (c : EndpointContext) (name : String) : Option String :=
  -- A discovered endpoint counts more than a default, and a default more than a variable.
  (Session.filled? (c.discovered.get? name)).or <| (c.default? name).or (c.vars.get? name)

end EndpointContext

namespace Session

def endpointContext (s : Session) : EndpointContext :=
  { discovered := s.discovered, defaults := s.flow.endpointDefaults, baseUrl := s.serverUrl
    vars := s.vars }

def resolve (s : Session) (c : EndpointContext) (r : Rule) : Except RenderFault String :=
  match r.reference with
  | .setting name =>
    match c.vars.get? name with
    | some v => .ok v
    | none => .error (.unsetVariable r.token name)
  | .field step name =>
    if !s.isCompleted step then .error (.incompleteStep r.token step)
    else
      match s.field? step name with
      | some v => .ok v.toText
      | none => .error (.missingField r.token step name)

/-- The request of a step of a flow with the results of a session. -/
def renderRequest (f : Flow) (s : Session) (c : EndpointContext) (id : String) :
    Except Misuse (Except RenderFault Request) :=
  match f.step? id with
  | none => .error (.noTemplate id)
  | some d =>
    match d.template with
    | none => .error (.noTemplate id)
    | some template => .ok (Template.render c.endpoint? (s.resolve c) template d.rules)

def render (s : Session) (id : String) : Except Misuse (Except RenderFault Request) :=
  renderRequest s.flow s s.endpointContext id

end Session

end Walkthrough
