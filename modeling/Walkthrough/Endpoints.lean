import Walkthrough.Template

/-!
# Endpoints in use

Which endpoints the URLs of a flow name, by which steps, and whether the server named them.
-/

namespace Walkthrough.Endpoints

/-- Adds a step to those that use an endpoint, once. -/
def addUse (uses : Ledger (List String)) (step name : String) : Ledger (List String) :=
  let steps := (uses.get? name).getD []
  uses.put name (if steps.contains step then steps else steps ++ [step])

def addStep (uses : Ledger (List String)) (d : Step) : Ledger (List String) :=
  match d.template with
  | none => uses
  | some t => (Template.slots Template.endpointForm t.url).foldl (addUse · d.id ·) uses

/-- The steps that use each endpoint, in the order of first use. -/
def uses (f : Flow) : Ledger (List String) :=
  f.steps.foldl addStep []

def usageLine (discovered : Record String) (e : String × List String) : String :=
  let found := ((discovered.get? e.1).getD "") != ""
  "  " ++ e.1 ++ ": " ++ (if found then "discovered" else "default") ++ " (used by steps: "
    ++ Text.commaList e.2 ++ ")"

def usage (f : Flow) (discovered : Record String) : List String :=
  (uses f).map (usageLine discovered)

end Walkthrough.Endpoints
