import Walkthrough.Flow.Document
import Walkthrough.Path
import Walkthrough.Talk

/-!
# Flows from texts and files

A flow is read from the text of its document, which is usually the text of a file. Messages name the
file by its full path.

What a text means is not settled here. The format of documents belongs to a package, whose reader is
the parameter `read`: it gives the value of the document, or it fails.
-/

namespace Walkthrough.Flow

inductive TextFault
  /-- The text is not in the format. -/
  | malformed (message : String)
  /-- The reader fails in another way, with an error of the given name. -/
  | raised (name message : String)
  deriving DecidableEq, Inhabited

abbrev TextReader :=
  String → Except TextFault Value

inductive LoadFault
  /-- The file cannot be read. -/
  | file (path : String) (f : ReadFault)
  /-- The reader of documents fails for another reason than the format of the text. -/
  | raised (name message : String)
  /-- The body of a request holds itself. -/
  | endlessBody
  /-- The document with the given name is no flow. -/
  | document (source : String) (f : Fault)
  deriving DecidableEq, Inhabited

namespace LoadFault

/-- The name and the message of a fault that is no fault of a document. -/
def complaint : LoadFault → String × String
  | file path f =>
    let step := match f with
      | .directory => "read"
      | _ => "open '" ++ path ++ "'"
    (f.reason.1, f.reason.1 ++ ": " ++ f.reason.2 ++ ", " ++ step)
  | raised name message => (name, message)
  | endlessBody => ("TypeError", Fault.endlessBody.message "")
  | document source f => (f.kind, f.message source)

def note : LoadFault → Note
  | document source f => .leveled .error (f.report source).describe
  | file path f =>
    let (_, message) := (file path f).complaint
    .fatal ("[fatal] Error: " ++ message)
  | f =>
    let (name, message) := f.complaint
    .fatal ("[fatal] " ++ name ++ ": " ++ message)

end LoadFault

/-- The flow that a text describes; `source` is the name of the document. -/
def ofText (read : TextReader) (source text : String) : Except LoadFault Flow :=
  match read text with
  | .error (.malformed problem) => .error (.document source (.unreadable problem))
  | .error (.raised name message) => .error (.raised name message)
  | .ok doc =>
    match ofDocument (some doc) with
    | .error .endlessBody => .error .endlessBody
    | .error f => .error (.document source f)
    | .ok flow => .ok flow

def load (read : TextReader) (directory path : String) : Talk (Except LoadFault Flow) :=
  let full := Path.resolve directory path
  .read full fun
    | .ok text => .done (ofText read full text)
    | .error f => .done (.error (.file full f))

end Walkthrough.Flow
