import Walkthrough.Value
import Walkthrough.Text.Base64
import Walkthrough.Text.Upper

/-!
# Requests

A request as a step declares it, with placeholders, and as it is sent, without them. `Request.wire`
is what goes out: the credentials become a header, and a body gets a content type, unless the
request has headers of these names.
-/

namespace Walkthrough

structure Credentials where
  username : String
  password : String
  deriving DecidableEq, Inhabited

abbrev Header := String × String

structure Request where
  method : String
  url : String
  headers : List Header
  body : Option String := none
  credentials : Option Credentials := none
  deriving DecidableEq, Inhabited

/-- A request in the form in which it is sent. -/
structure Wire where
  method : String
  url : String
  headers : List Header
  body : Option String
  deriving DecidableEq, Inhabited

namespace Request

/-- True when a header has the given name, which is of lower case ASCII, in any letter case. -/
def hasHeader (headers : List Header) (name : String) : Bool :=
  headers.any fun h => Text.sameWord name h.1

def authorization (c : Credentials) : Header :=
  ("Authorization", "Basic " ++ Text.Base64.encode (c.username ++ ":" ++ c.password))

def formContent : Header :=
  ("Content-Type", "application/x-www-form-urlencoded")

def withAuthorization (headers : List Header) (credentials : Option Credentials) : List Header :=
  match credentials with
  | some c => if hasHeader headers "authorization" then headers else headers ++ [authorization c]
  | none => headers

def withContentType (headers : List Header) (body : Option String) : List Header :=
  if body.isSome && !hasHeader headers "content-type" then headers ++ [formContent] else headers

def wireHeaders (r : Request) : List Header :=
  withContentType (withAuthorization r.headers r.credentials) r.body

def wire (r : Request) : Wire :=
  { method := r.method, url := r.url, headers := r.wireHeaders, body := r.body }

def title (r : Request) : String :=
  r.method ++ " " ++ r.url

/-! ## As data -/

def headerValue (h : Header) : Value :=
  .list [.text h.1, .text h.2]

def credentialsValue (c : Credentials) : Value :=
  .mapping [("username", .text c.username), ("password", .text c.password)]

def toValue (r : Request) : Value :=
  .mapping <|
    [("method", .text r.method), ("url", .text r.url), ("headers", .list (r.headers.map headerValue))]
      ++ (r.body.map fun b => ("body", Value.text b)).toList
      ++ (r.credentials.map fun c => ("auth", credentialsValue c)).toList

end Request

end Walkthrough
