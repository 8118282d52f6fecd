import Walkthrough.Number.Decimal
import Walkthrough.Text.Split

/-!
# Reports of errors

Every error of the program has one outward form: the family it belongs to, its kind within the
family, and its message. Some carry more, such as the placeholder that could not be filled.
`Report.describe` is the one line by which an error is shown.
-/

namespace Walkthrough

inductive Family
  /-- A flow document that cannot be used. -/
  | config
  /-- A request whose placeholders cannot be filled. -/
  | substitution
  /-- A request that got no answer. -/
  | transport
  /-- An answer with a status that is no success. -/
  | http
  /-- A call that the rules of a session forbid. -/
  | invariant
  /-- A server whose metadata cannot be had. -/
  | discovery
  /-- Any other error. -/
  | plain
  deriving DecidableEq, Inhabited

namespace Family

def name : Family → String
  | config => "ConfigError"
  | substitution => "SubstitutionError"
  | transport => "TransportError"
  | http => "HttpError"
  | invariant => "InvariantError"
  | discovery => "DiscoveryError"
  | plain => "Error"

end Family

/-- The outward form of an error. -/
structure Report where
  family : Family
  kind : String
  message : String
  /-- The placeholder or endpoint that could not be filled. -/
  token : Option String := none
  /-- The status of the answer. -/
  status : Option Number := none
  /-- The steps of a dependency cycle. -/
  cycle : Option (List String) := none
  deriving DecidableEq, Inhabited

namespace Report

def describe (r : Report) : String :=
  match r.family with
  | .plain => r.message
  | family => family.name ++ "(" ++ r.kind ++ "): " ++ r.message

def ofStatus (status : Number) (statusText : String) : Report :=
  { family := .http, kind := "HttpError", status := some status
    message := "HTTP " ++ status.text ++ (if statusText.isEmpty then "" else " " ++ statusText) }

end Report

end Walkthrough
