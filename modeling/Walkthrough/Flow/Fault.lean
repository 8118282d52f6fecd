import Walkthrough.Flow.Basic
import Walkthrough.Report
import Walkthrough.Request.Command

/-!
# Faults of flow documents

Every way in which a document fails to be a flow is a constructor of `Flow.Fault`. A fault belongs
to one of six kinds, and its message names the document and the place in it.
-/

namespace Walkthrough.Flow

inductive Place
  /-- An entry of one of the sections that are keyed by steps. -/
  | entry (part id : String)
  /-- A rule of a step. -/
  | rule (step : String) (scope : Option Scope) (token : String)
  deriving DecidableEq, Inhabited

namespace Place

/-- The place in words. Rules are named together with the document. -/
def text (source : String) : Place → String
  | entry part id => part ++ "." ++ id
  | rule step scope token =>
    let limit := match scope with
      | some s => "." ++ s.name
      | none => ""
    source ++ ": substitution_rules." ++ step ++ limit ++ "['" ++ token ++ "']"

end Place

inductive Fault
  /-- The text is not in the format of documents. -/
  | unreadable (problem : String)
  | notMapping
  | noSteps
  | stepNotMapping (index : Nat)
  | stepWithoutId (index : Nat)
  | repeatedStep (id : String)
  | manualNotBoolean (id : String)
  /-- A part of the document that must be a list of texts. -/
  | notTexts (what : String)
  /-- A part of the document that must be a mapping. -/
  | partNotMapping (what : String)
  /-- An entry that must be a text. -/
  | notText (what name : String)
  | unknownStep (place : Place) (id : String)
  | badCommand (id : String) (fault : Command.Fault)
  | twoTemplates (id : String)
  | requestNotMapping (id : String)
  /-- The body of a request holds itself. -/
  | endlessBody
  | requestWithoutUrl (id : String)
  | headerNotText (id name : String)
  | headersNotMapping (id : String)
  | credentialsWithoutUser (id : String)
  | manualWithTemplate (id : String)
  | noTemplate (id : String)
  | ruleNotText (place : Place)
  | emptyToken (place : Place)
  | badReference (place : Place) (reference : String)
  | cycle (steps : List String)
  deriving DecidableEq, Inhabited

namespace Fault

def kind : Fault → String
  | repeatedStep _ => "DuplicateStepId"
  | unknownStep _ _ => "UnknownStepReference"
  | noTemplate _ => "MissingTemplate"
  | badReference _ _ => "InvalidReference"
  | cycle _ => "CyclicDependency"
  | _ => "InvalidDocument"

def badReferenceMessage (place reference : String) : String :=
  place ++ ": '" ++ reference ++ "' is not of the form step.<id>.<field> or var.<name>"

/-- A fault in words; `source` is the name of the document. -/
def message (source : String) : Fault → String
  | unreadable problem => source ++ ": " ++ problem
  | notMapping => source ++ ": document must be a mapping"
  | noSteps => source ++ ": 'steps' must be a non-empty list"
  | stepNotMapping i => source ++ ": steps[" ++ toString i ++ "] must be a mapping"
  | stepWithoutId i => source ++ ": steps[" ++ toString i ++ "] needs a string 'id'"
  | repeatedStep id => source ++ ": step '" ++ id ++ "' is declared twice"
  | manualNotBoolean id => source ++ ": step '" ++ id ++ "': 'manual' must be a boolean"
  | notTexts what => source ++ ": " ++ what ++ " must be a list of strings"
  | partNotMapping what => source ++ ": " ++ what ++ " must be a mapping"
  | notText what name => source ++ ": " ++ what ++ "." ++ name ++ " must be a string"
  | unknownStep place id =>
    source ++ ": " ++ place.text source ++ " references unknown step '" ++ id ++ "'"
  | badCommand id fault => source ++ ": curl_templates." ++ id ++ ": " ++ fault.message
  | twoTemplates id => source ++ ": step '" ++ id ++ "' has both a curl template and a request"
  | endlessBody => "Converting circular structure to JSON"
  | requestNotMapping id => source ++ ": requests." ++ id ++ " must be a mapping"
  | requestWithoutUrl id => source ++ ": requests." ++ id ++ " needs a 'url'"
  | headerNotText id name =>
    source ++ ": requests." ++ id ++ " header '" ++ name ++ "' must be a string"
  | headersNotMapping id => source ++ ": requests." ++ id ++ " headers must be a mapping"
  | credentialsWithoutUser id => source ++ ": requests." ++ id ++ " auth needs a 'username'"
  | manualWithTemplate id =>
    source ++ ": manual step '" ++ id ++ "' cannot have a request template"
  | noTemplate id => source ++ ": step '" ++ id ++ "' has no request template"
  | ruleNotText place => place.text source ++ " must be a string reference"
  | emptyToken place => place.text source ++ ": empty placeholder token"
  | badReference place reference => badReferenceMessage (place.text source) reference
  | cycle steps => "Dependency cycle: " ++ Text.joinWith " -> " steps

def report (source : String) (f : Fault) : Report :=
  { family := .config, kind := f.kind, message := f.message source
    cycle := match f with
      | cycle steps => some steps
      | _ => none }

end Fault

end Walkthrough.Flow
