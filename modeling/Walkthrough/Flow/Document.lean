import Walkthrough.Flow.Fault
import Walkthrough.Flow.Order
import Walkthrough.Flow.Reference
import Walkthrough.Json.Printer
import Walkthrough.Spread

/-!
# Flows from documents

`Flow.ofDocument` checks a document and builds its flow. The document declares the steps in a list;
its other sections are keyed by steps: `dependencies`, `curl_templates` and `requests` (one of the
two for each automatic step), and `substitution_rules`. The sections `endpoint_defaults` and
`endpoints` give endpoints, the second over the first.

The checks run in a fixed order, section by section and entry by entry, and the first fault is the
one that is reported. A rule that reads from a step which is no ancestor of its own step is allowed
and leads to a warning.
-/

namespace Walkthrough.Flow

/-! ## Parts of a document -/

def textsOf (what : String) (v : Option Value) : Except Fault (List String) :=
  match v with
  | none => .ok []
  | some .null => .ok []
  | some v =>
    match v.texts? with
    | some items => .ok items
    | none => .error (.notTexts what)

def entriesOf (what : String) (v : Option Value) : Except Fault (Record Value) :=
  match v with
  | none => .ok []
  | some .null => .ok []
  | some v =>
    match v.entries? with
    | some entries => .ok entries
    | none => .error (.partNotMapping what)

def textEntry (what : String) (e : String × Value) : Except Fault (String × String) :=
  match e.2.text? with
  | some s => .ok (e.1, s)
  | none => .error (.notText what e.1)

def textMapOf (what : String) (v : Option Value) : Except Fault (Record String) := do
  let entries ← entriesOf what v
  let texts ← entries.mapM (textEntry what)
  -- Entries are stored one by one, and the reserved name is not taken.
  return texts.filter (·.1 != Record.reserved)

def known (ids : List String) (place : Place) (id : String) : Except Fault Unit :=
  if ids.contains id then .ok () else .error (.unknownStep place id)

/-! ## Steps -/

/-- A step as the list of steps declares it. -/
structure Declaration where
  id : String
  title : String
  description : String
  manual : Bool
  extract : List String
  urlFields : List String
  deriving DecidableEq, Inhabited

def manualOf (id : String) (v : Option Value) : Except Fault Bool :=
  match v with
  | none => .ok false
  | some (.bool b) => .ok b
  | some _ => .error (.manualNotBoolean id)

/-- The declaration at an index; `seen` holds the names of the earlier ones. -/
def declarationOf (seen : List String) (index : Nat) (v : Value) : Except Fault Declaration :=
  match v.entries? with
  | none => .error (.stepNotMapping index)
  | some s =>
    match (s.get? "id").bind Value.text? with
    | none => .error (.stepWithoutId index)
    | some id =>
      if Text.allBlank id then .error (.stepWithoutId index)
      else if seen.contains id then .error (.repeatedStep id)
      else do
        let manual ← manualOf id (s.get? "manual")
        let extract ← textsOf ("step '" ++ id ++ "' extract") (s.get? "extract")
        let urlFields ← textsOf ("step '" ++ id ++ "' url_fields") (s.get? "url_fields")
        return { id
                 title := ((s.get? "title").bind Value.text?).getD id
                 description := ((s.get? "description").bind Value.text?).getD ""
                 manual, extract, urlFields }

def declarationsFrom (seen : List String) (index : Nat) :
    List Value → Except Fault (List Declaration)
  | [] => .ok []
  | v :: rest => do
    let d ← declarationOf seen index v
    let others ← declarationsFrom (seen ++ [d.id]) (index + 1) rest
    return d :: others

def declarationsOf (v : Option Value) : Except Fault (List Declaration) :=
  match v with
  | some (.list (first :: rest)) => declarationsFrom [] 0 (first :: rest)
  | _ => .error .noSteps

/-! ## Dependencies -/

/-- The prerequisites of one step, each once. -/
def linkOf (ids : List String) (e : String × Value) : Except Fault (String × List String) := do
  let place := Place.entry "dependencies" e.1
  known ids place e.1
  let prerequisites ← textsOf ("dependencies." ++ e.1) (some e.2)
  prerequisites.forM (known ids place)
  return (e.1, prerequisites.eraseDups)

def linksOf (ids : List String) (v : Option Value) : Except Fault Order.Links := do
  let entries ← entriesOf "'dependencies'" v
  entries.mapM (linkOf ids)

/-! ## Request templates -/

/-- The template that a curl command gives; a blank command gives none. -/
def commandOf (ids : List String) (e : String × String) :
    Except Fault (Option (String × Request)) := do
  known ids (.entry "curl_templates" e.1) e.1
  if Text.allBlank e.2 then return none
  match Command.read e.2 with
  | .ok r => return some (e.1, r)
  | .error f => throw (.badCommand e.1 f)

def headersOf (id : String) (v : Option Value) : Except Fault (List Header) :=
  match v with
  | none => .ok []
  | some .null => .ok []
  | some (.mapping entries) =>
    entries.mapM fun e =>
      match e.2.text? with
      | some s => .ok (e.1, s)
      | none => .error (.headerNotText id e.1)
  | some _ => .error (.headersNotMapping id)

/-- The body of a request: a text as it stands, any other value as JSON, which cannot express a value
that holds itself. -/
def bodyOf (v : Option Value) : Except Fault (Option String) :=
  match v with
  | none => .ok none
  | some .null => .ok none
  | some (.text s) => .ok (some s)
  | some v => if v.isEndless then .error .endlessBody else .ok (some (Json.print v))

def credentialsOf (id : String) (v : Option Value) : Except Fault (Option Credentials) :=
  match v with
  | none => .ok none
  | some .null => .ok none
  | some (.mapping entries) =>
    match (Record.get? entries "username").bind Value.text? with
    | some username =>
      .ok (some ⟨username, ((Record.get? entries "password").bind Value.text?).getD ""⟩)
    | none => .error (.credentialsWithoutUser id)
  | some _ => .error (.credentialsWithoutUser id)

def requestOf (id : String) (v : Value) : Except Fault Request :=
  match v.entries? with
  | none => .error (.requestNotMapping id)
  | some r =>
    match (r.get? "url").bind Value.text? with
    | none => .error (.requestWithoutUrl id)
    | some url =>
      if url.isEmpty then .error (.requestWithoutUrl id)
      else do
        let headers ← headersOf id (r.get? "headers")
        let body ← bodyOf (r.get? "body")
        let method := match (r.get? "method").bind Value.text? with
          | some m => Text.upper m
          | none => if body.isSome then "POST" else "GET"
        let credentials ← credentialsOf id (r.get? "auth")
        return { method, url, headers, body, credentials }

def addRequest (ids : List String) (templates : Ledger Request) (e : String × Value) :
    Except Fault (Ledger Request) := do
  known ids (.entry "requests" e.1) e.1
  if templates.has e.1 then throw (.twoTemplates e.1)
  let r ← requestOf e.1 e.2
  -- A step with the reserved name is later found to have no template.
  return if e.1 == Record.reserved then templates else templates ++ [(e.1, r)]

def templatesOf (ids : List String) (doc : Record Value) : Except Fault (Ledger Request) := do
  let commands ← textMapOf "curl_templates" (doc.get? "curl_templates")
  let read ← commands.mapM (commandOf ids)
  let entries ← entriesOf "'requests'" (doc.get? "requests")
  entries.foldlM (addRequest ids) (read.filterMap id)

/-- Requires that a step has a template exactly when it is not manual. -/
def checkTemplate (templates : Ledger Request) (d : Declaration) : Except Fault Unit :=
  if d.manual && templates.has d.id then .error (.manualWithTemplate d.id)
  else if !d.manual && !templates.has d.id then .error (.noTemplate d.id)
  else .ok ()

/-! ## Rules -/

def ruleOf (ids : List String) (step : String) (scope : Option Scope) (e : String × Value) :
    Except Fault Rule := do
  let place := Place.rule step scope e.1
  match e.2.text? with
  | none => throw (.ruleNotText place)
  | some source =>
    if e.1.isEmpty then throw (.emptyToken place)
    match Reference.read? source with
    | none => throw (.badReference place source)
    | some reference =>
      match reference with
      | .field id _ => known ids place id
      | .setting _ => pure ()
      return { token := e.1, reference, source, scope }

/-- The rules of an entry: those of a part of the request, or the one of a token. -/
def rulesOfEntry (ids : List String) (step : String) (e : String × Value) :
    Except Fault (List Rule) :=
  match Scope.ofName? e.1, e.2 with
  | some scope, .mapping entries => entries.mapM (ruleOf ids step (some scope))
  | _, _ => (ruleOf ids step none e).map ([·])

def rulesOfStep (ids : List String) (e : String × Value) : Except Fault (String × List Rule) := do
  known ids (.entry "substitution_rules" e.1) e.1
  let entries ← entriesOf ("substitution_rules." ++ e.1) (some e.2)
  let rules ← entries.mapM (rulesOfEntry ids e.1)
  return (e.1, rules.flatten)

def rulesOf (ids : List String) (v : Option Value) :
    Except Fault (List (String × List Rule)) := do
  let entries ← entriesOf "'substitution_rules'" v
  entries.mapM (rulesOfStep ids)

/-! ## The flow -/

def endpointsOf (doc : Record Value) : Except Fault (Record String) := do
  let defaults ← textMapOf "endpoint_defaults" (doc.get? "endpoint_defaults")
  let endpoints ← textMapOf "endpoints" (doc.get? "endpoints")
  -- What both sections name has the value of `endpoints`.
  return Record.overlay defaults endpoints

def stepOf (links : Order.Links) (templates : Ledger Request) (rules : List (String × List Rule))
    (d : Declaration) : Step :=
  { id := d.id, title := d.title, description := d.description, extract := d.extract
    urlFields := d.urlFields, prerequisites := Order.linksOf links d.id
    template := templates.get? d.id, rules := (rules.lookup d.id).getD [] }

/-- The steps that come before a step along the prerequisites. -/
def ancestors (links : Order.Links) (rounds : Nat) (id : String) : List String :=
  spread (Order.linksOf links) rounds [id] []

/-- The warning for a rule of a step that reads from a step which does not come before. -/
def warning? (id : String) (before : List String) (r : Rule) : Option String :=
  match r.reference with
  | .field step _ =>
    if before.contains step then none
    else some ("step '" ++ id ++ "' substitutes " ++ r.token ++ " from '" ++ step ++
      "', which it does not depend on")
  | .setting _ => none

def warningsOf (links : Order.Links) (rounds : Nat) (s : Step) : List String :=
  s.rules.filterMap (warning? s.id (ancestors links rounds s.id))

/-- The flow that a document describes, or its first fault. -/
def ofDocument (doc : Option Value) : Except Fault Flow :=
  match doc.bind Value.entries? with
  | none => .error .notMapping
  | some doc => do
    let declarations ← declarationsOf (doc.get? "steps")
    let ids := declarations.map (·.id)
    let links ← linksOf ids (doc.get? "dependencies")
    let templates ← templatesOf ids doc
    declarations.forM (checkTemplate templates)
    let rules ← rulesOf ids (doc.get? "substitution_rules")
    let endpointDefaults ← endpointsOf doc
    let schedule ← (Order.sort ids links).mapError Fault.cycle
    let steps := declarations.map (stepOf links templates rules)
    return { steps, endpointDefaults, schedule
             warnings := steps.flatMap (warningsOf links ids.length) }

end Walkthrough.Flow
