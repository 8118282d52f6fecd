import Walkthrough.Flow.Text
import Walkthrough.Yaml.Reader

/-!
# Flow documents in YAML

The reader of documents that the program is run with. A document whose tags ask for bytes, a time, a
set or an ordered mapping has no `Value`, and the reader refuses it.
-/

namespace Walkthrough.Yaml

def Fault.toTextFault : Fault → Flow.TextFault
  | .malformed message => .malformed message
  | .unresolved name =>
    .raised "ReferenceError"
      ("Unresolved alias (the anchor must be set before the alias): " ++ name)
  | .excessive =>
    .raised "ReferenceError" "Excessive alias count indicates a resource exhaustion attack"
  | .foreign tag => .raised "Error" ("No value for the tag " ++ tag)

def readText : Flow.TextReader :=
  fun text => (read? text).mapError Fault.toTextFault

end Walkthrough.Yaml
