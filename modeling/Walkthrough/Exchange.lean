import Walkthrough.Json.Reader
import Walkthrough.Report
import Walkthrough.Request

/-!
# Exchanges

Sending a request ends in an `Outcome`: it fails, or an answer arrives whose body may still fail to
be read. `Exchange.receive` makes a `Response` of an outcome; any status is a response, and only a
transport that fails or takes too long is an error.
-/

namespace Walkthrough

/-! ## Outcomes -/

inductive Thrown
  /-- An error with its name, its message and the message of the error behind it. -/
  | error (name message : String) (cause : Option String)
  /-- Anything else. -/
  | value (v : Value)
  deriving Inhabited

structure Reply where
  status : Int
  statusText : String
  headers : List Header
  body : Except Thrown String

inductive Outcome
  | failed (t : Thrown)
  | answered (r : Reply)

/-- A response that has been read. `json` is the body as data, if it is JSON. -/
structure Response where
  status : Int
  statusText : String
  headers : Record String
  body : String
  json : Option Value
  deriving Inhabited

namespace Response

def isSuccess (status : Int) : Bool :=
  200 ≤ status && status ≤ 299

def toValue (r : Response) : Value :=
  .mapping <|
    [("status", .number (.ofInt r.status)), ("statusText", .text r.statusText),
      ("headers", .ofTexts r.headers), ("body", .text r.body)]
      ++ (r.json.map fun v => ("json", v)).toList

end Response

/-! ## Failures of the transport -/

/-- Why no answer was had; `title` is the method and URL of the request. -/
inductive TransportFault
  | timedOut (title : String) (limit : Number)
  | failed (title reason : String)
  deriving DecidableEq, Inhabited

namespace TransportFault

def kind : TransportFault → String
  | timedOut _ _ => "timeout"
  | failed _ _ => "network"

def message : TransportFault → String
  | timedOut title limit => title ++ " timed out after " ++ limit.text ++ "ms"
  | failed title reason => title ++ " failed: " ++ reason

def report (f : TransportFault) : Report :=
  { family := .transport, kind := f.kind, message := f.message }

end TransportFault

namespace Thrown

mutual

def valueText : Value → String
  | .null => "null"
  | .bool true => "true"
  | .bool false => "false"
  | .number n => n.text
  | .text s => s
  | .list items => Text.joinWith "," (itemTexts items)
  | .mapping _ => "[object Object]"
  | .loop _ => "[object Object]"

/-- The items of a list in one line each; `null` is left blank. -/
def itemTexts : List Value → List String
  | [] => []
  | .null :: rest => "" :: itemTexts rest
  | v :: rest => valueText v :: itemTexts rest

end

def name : Thrown → String
  | error name _ _ => name
  | value (.mapping entries) => ((Record.get? entries "name").map valueText).getD ""
  | value _ => ""

def reason : Thrown → String
  | error _ message cause => message ++ ((cause.map (": " ++ ·)).getD "")
  | value v => valueText v

def isTimeout (t : Thrown) : Bool :=
  t.name == "TimeoutError" || t.name == "AbortError"

def fault (t : Thrown) (title : String) (limit : Number) : TransportFault :=
  if t.isTimeout then .timedOut title limit else .failed title t.reason

end Thrown

namespace Exchange

/-! ## Receiving -/

/-- The body as data. A blank body is none. -/
def jsonOf (body : String) : Option Value :=
  if Text.allBlank body then none else Json.read? body

/-- The headers by name; of several with one name the last counts. -/
def headersOf (headers : List Header) : Record String :=
  headers.foldl (fun r h => r.assign h.1 h.2) []

def receive (title : String) (limit : Number) : Outcome → Except TransportFault Response
  | .failed t => .error (t.fault title limit)
  | .answered r =>
    match r.body with
    | .error t => .error (t.fault title limit)
    | .ok body =>
      .ok { status := r.status, statusText := r.statusText, headers := headersOf r.headers, body
            json := jsonOf body }

/-- The complaint about a time limit that cannot be set: it must be a whole number of milliseconds
that fits into 32 bits. Whole numbers beyond that size are shown in groups of three characters. -/
def limitComplaint? (limit : Number) : Option String :=
  match limit.toInt? with
  | none =>
    some ("The value of \"delay\" is out of range. It must be an integer. Received " ++ limit.text)
  | some n =>
    if 0 ≤ n && n ≤ 4294967295 then none
    else
      let shown := if 4294967296 < n.natAbs then limit.grouped else limit.text
      some ("The value of \"delay\" is out of range. It must be >= 0 && <= 4294967295. Received "
        ++ shown)

end Exchange

end Walkthrough
