import Walkthrough.Session.Attempt

/-!
# Discovery

A server describes itself in a metadata document under a well known path. Four entries are
required; the endpoints are its issuer, its key set and all entries named `…_endpoint`, as far as
they are texts that are not empty.
-/

namespace Walkthrough

inductive DiscoveryFault
  | transport (f : TransportFault)
  | status (url : String) (code : Int)
  | notMapping (url : String)
  | missing (names : List String)
  deriving DecidableEq, Inhabited

namespace DiscoveryFault

def message : DiscoveryFault → String
  | transport f => "Discovery failed (" ++ f.kind ++ "): " ++ f.message
  | status url code => "Discovery endpoint " ++ url ++ " answered HTTP " ++ toString code
  | notMapping url => "Discovery endpoint " ++ url ++ " did not return a JSON object"
  | missing names => "Missing required endpoints: " ++ Text.commaList names

def report (f : DiscoveryFault) : Report :=
  { family := .discovery, kind := "DiscoveryError", message := f.message }

end DiscoveryFault

/-- What a server says about itself. -/
structure Server where
  endpoints : Record String
  scopes : List String
  responseTypes : List String
  grantTypes : List String
  deriving DecidableEq, Inhabited

namespace Server

def metadataUrl (serverUrl : String) : String :=
  Text.dropEndSlashes serverUrl ++ "/.well-known/openid-configuration"

/-- The entries that the metadata must have. -/
def required : List String :=
  ["issuer", "registration_endpoint", "authorization_endpoint", "token_endpoint"]

def summarized : List String :=
  ["issuer", "registration_endpoint", "device_authorization_endpoint", "token_endpoint",
    "introspection_endpoint", "userinfo_endpoint"]

/-- The text of an entry, unless it is empty. -/
def textAt? (metadata : Record Value) (name : String) : Option String :=
  match (metadata.get? name).bind Value.text? with
  | some "" => none
  | other => other

def isEndpoint (name : String) : Bool :=
  Text.endsWith name "_endpoint" || name == "issuer" || name == "jwks_uri"

def endpoint? (e : String × Value) : Option (String × String) :=
  match e.2.text? with
  | some s => if isEndpoint e.1 && !s.isEmpty then some (e.1, s) else none
  | none => none

/-- The texts in a list; whatever else there is is left out. -/
def textsAt (metadata : Record Value) (name : String) : List String :=
  match metadata.get? name with
  | some (.list items) => items.filterMap Value.text?
  | _ => []

def ofMetadata (metadata : Record Value) : Except DiscoveryFault Server :=
  let missing := required.filter fun name => (textAt? metadata name).isNone
  if missing.isEmpty then
    .ok
      { endpoints := metadata.filterMap endpoint?
        scopes := textsAt metadata "scopes_supported"
        responseTypes := textsAt metadata "response_types_supported"
        grantTypes := textsAt metadata "grant_types_supported" }
  else .error (.missing missing)

def ofResponse (url : String) (r : Except TransportFault Response) : Except DiscoveryFault Server :=
  match r with
  | .error f => .error (.transport f)
  | .ok r =>
    if !Response.isSuccess r.status then .error (.status url r.status)
    else
      match r.json with
      | some (.mapping metadata) => ofMetadata metadata
      | _ => .error (.notMapping url)

def metadataRequest (serverUrl : String) : Request :=
  { method := "GET", url := metadataUrl serverUrl, headers := [("Accept", "application/json")] }

def discover (serverUrl : String) (limit : Number) : Talk (Except DiscoveryFault Server) :=
  (exchange (metadataRequest serverUrl) limit).bind fun r =>
    .done (ofResponse (metadataUrl serverUrl) r)

def listLine (label : String) (items : List String) : List String :=
  if items.isEmpty then [] else ["  " ++ label ++ ": " ++ Text.commaList items]

def describe (s : Server) : List String :=
  summarized.filterMap (fun name =>
      match s.endpoints.get? name with
      | some "" => none
      | some url => some ("  " ++ name ++ ": " ++ url)
      | none => none)
    ++ listLine "scopes" s.scopes ++ listLine "grant types" s.grantTypes
    ++ listLine "response types" s.responseTypes

end Server

end Walkthrough
