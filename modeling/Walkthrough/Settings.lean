import Walkthrough.Console

/-!
# Settings

Settings come from the environment. A value that is blank counts as missing, and blank characters
around a value do not count. The time limit must be a positive number; it may be written in any
form that `Number.ofText?` reads.
-/

namespace Walkthrough

structure Settings where
  flowPath : String
  serverUrl : Option String := none
  apiKey : Option String := none
  /-- How many milliseconds to wait for an answer. -/
  limit : Number
  runId : Option String := none
  level : Option Level := none
  deriving DecidableEq, Inhabited

namespace Settings

def defaultFlow : String :=
  "flows/token-exchange.yaml"

def defaultLimit : Number :=
  .ofInt 10000

def names : List String :=
  ["FLOW_CONFIG", "OAUTH_SERVER_URL", "API_KEY", "HTTP_TIMEOUT_MS", "RUN_ID", "LOG_LEVEL", "QUIET"]

/-- A variable without the blank characters around it, unless it is blank. -/
def variableOf (env : Record String) (name : String) : Option String :=
  match (env.get? name).map Text.trim with
  | some "" => none
  | other => other

/-- The time limit that a text sets; the text itself when it is no positive number. -/
def limitOf (s : String) : Except String Number :=
  match Number.ofText? s with
  | some n => if n.isPositive then .ok n else .error s
  | none => .error s

def limitComplaint (s : String) : String :=
  "HTTP_TIMEOUT_MS must be a positive number, got '" ++ s ++ "'"

/-- The settings of an environment; the text of the time limit when it is none. -/
def ofEnvironment (env : Record String) : Except String Settings := do
  let limit ← match variableOf env "HTTP_TIMEOUT_MS" with
    | none => .ok defaultLimit
    | some s => limitOf s
  return { flowPath := (variableOf env "FLOW_CONFIG").getD defaultFlow
           serverUrl := variableOf env "OAUTH_SERVER_URL"
           apiKey := variableOf env "API_KEY"
           limit
           runId := variableOf env "RUN_ID"
           level := (variableOf env "LOG_LEVEL").bind Level.ofText? }

end Settings

end Walkthrough
