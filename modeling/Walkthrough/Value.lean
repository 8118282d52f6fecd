import Walkthrough.Record
import Walkthrough.Text.Split

/-!
# Data values

Flow documents, response bodies and request bodies are trees of these values. A field of a step
is one of the three kinds of scalar. `Value.at?` follows a dot path through a value.
-/

namespace Walkthrough

inductive Value
  | null
  | bool (b : Bool)
  | number (n : Number)
  | text (s : String)
  | list (items : List Value)
  | mapping (entries : List (String × Value))
  /-- A list or a mapping that holds itself, where it occurs again; the number tells which. -/
  | loop (id : Nat)
  deriving Inhabited

/-- A value that can be inserted into a request. -/
inductive Scalar
  | bool (b : Bool)
  | number (n : Number)
  | text (s : String)
  deriving DecidableEq, Inhabited

/-- What a completed step has produced, by name. -/
abbrev Fields := Record Scalar

namespace Scalar

def toText : Scalar → String
  | bool true => "true"
  | bool false => "false"
  | number n => n.text
  | text s => s

def toValue : Scalar → Value
  | bool b => .bool b
  | number n => .number n
  | text s => .text s

end Scalar

namespace Value

def scalar? : Value → Option Scalar
  | bool b => some (.bool b)
  | number n => some (.number n)
  | text s => some (.text s)
  | _ => none

def text? : Value → Option String
  | text s => some s
  | _ => none

def entries? : Value → Option (Record Value)
  | mapping entries => some entries
  | _ => none

/-- The texts of a list that holds nothing else. -/
def texts? : Value → Option (List String)
  | list items => items.mapM text?
  | _ => none

def ofTexts (r : Record String) : Value :=
  mapping (r.map fun e => (e.1, text e.2))

def ofFields (fields : Fields) : Value :=
  mapping (fields.map fun e => (e.1, e.2.toValue))

mutual

/-- True of a value that holds itself somewhere. -/
def isEndless : Value → Bool
  | list items => anyEndless items
  | mapping entries => anyEntryEndless entries
  | loop _ => true
  | _ => false

def anyEndless : List Value → Bool
  | [] => false
  | v :: rest => isEndless v || anyEndless rest

def anyEntryEndless : List (String × Value) → Bool
  | [] => false
  | (_, v) :: rest => isEndless v || anyEntryEndless rest

end

/-! ## Paths -/

/-- The value one step down: the entry of a mapping, or the item of a list at a decimal index. -/
def child? (v : Value) (part : String) : Option Value :=
  match v with
  | mapping entries => Record.get? entries part
  | list items =>
    if !part.toList.isEmpty && part.toList.all Text.isDigit then
      items[Number.wholeOf 10 part.toList]?
    else none
  | _ => none

def follow (v : Option Value) (path : List String) : Option Value :=
  path.foldl (fun v part => v.bind (child? · part)) v

def at? (v : Option Value) (path : String) : Option Value :=
  follow v (Text.parts '.' path)

end Value

end Walkthrough
