import Walkthrough.Flow.Basic

/-!
# Fields of a response

A step keeps some values of the response body: those at the paths that it declares, or, if it
declares none, every scalar at the top. Before that, addresses in the body that begin with a slash
are completed with the server's address, for the fields that the step names.
-/

namespace Walkthrough.Step

def addField (json : Option Value) (fields : Fields) (path : String) : Fields :=
  match (Value.at? json path).bind Value.scalar? with
  | some v => fields.assign path v
  | none => fields

def addEntry (fields : Fields) (e : String × Value) : Fields :=
  match e.2.scalar? with
  | some v => fields.assign e.1 v
  | none => fields

/-- The fields that a list of paths keeps; an empty list keeps every scalar at the top. -/
def fieldsAt (paths : List String) (json : Option Value) : Fields :=
  if paths.isEmpty then ((json.bind Value.entries?).getD []).foldl addEntry []
  else paths.foldl (addField json) []

def fieldsOf (s : Step) (json : Option Value) : Fields :=
  fieldsAt s.extract json

/-- A value completed with an address: a text that begins with a slash comes after it. -/
def completeUrl (base : String) (v : Value) : Value :=
  match v with
  | .text s => if Text.startsWith s "/" then .text (base ++ s) else v
  | _ => v

def completeEntry (base : String) (entries : Record Value) (name : String) : Record Value :=
  entries.map fun e => if e.1 == name then (e.1, completeUrl base e.2) else e

def completeUrlsAt (names : List String) (serverUrl : Option String) (json : Option Value) :
    Option Value :=
  match serverUrl, json with
  | some url, some (.mapping entries) =>
    if url.isEmpty then json
    else some (.mapping (names.foldl (completeEntry (Text.dropEndSlashes url)) entries))
  | _, _ => json

def completeUrls (s : Step) (serverUrl : Option String) (json : Option Value) : Option Value :=
  completeUrlsAt s.urlFields serverUrl json

end Walkthrough.Step
