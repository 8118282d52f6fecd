import Walkthrough.Yaml.Scalar
import Walkthrough.Yaml.Tag

/-!
# Nodes

A document is a tree of nodes. A node is kept as it has been written, with its properties, comments
and quotes, because a mapping or a list that is used as a name is named by its text.
-/

namespace Walkthrough.Yaml

inductive Style
  | plain
  | single
  | double
  | block
  deriving DecidableEq, Inhabited

structure Notes where
  /-- A blank line comes before. -/
  spaced : Bool := false
  /-- The comment before. -/
  before : List Char := []
  /-- The comment behind. -/
  comment : List Char := []
  anchor : Option String := none
  /-- The full tag. -/
  tag : Option String := none
  deriving DecidableEq, Inhabited

inductive Node
  | reference (notes : Notes) (name : String)
  /-- A scalar: its text, and the value that the text has. -/
  | scalar (notes : Notes) (style : Style) (text : String) (value : Value)
  | list (notes : Notes) (items : List Node)
  /-- A mapping. An entry without a value is a name on its own. -/
  | mapping (notes : Notes) (entries : List (Node × Option Node))
  deriving Inhabited

namespace Node

def notes : Node → Notes
  | reference notes _ => notes
  | scalar notes _ _ _ => notes
  | list notes _ => notes
  | mapping notes _ => notes

def mapNotes (f : Notes → Notes) : Node → Node
  | reference notes name => reference (f notes) name
  | scalar notes style text value => scalar (f notes) style text value
  | list notes items => list (f notes) items
  | mapping notes entries => mapping (f notes) entries

def addComment (n : Node) (cs : List Char) : Node :=
  if cs.isEmpty then n
  else
    n.mapNotes fun notes =>
      let comment := if notes.comment.isEmpty then cs else notes.comment ++ '\n' :: cs
      { notes with comment }

def isCollection : Node → Bool
  | list _ _ => true
  | mapping _ _ => true
  | _ => false

def isScalar : Node → Bool
  | scalar _ _ _ _ => true
  | _ => false

def sameName : Node → Node → Bool
  | scalar _ _ _ a, scalar _ _ _ b =>
    match a, b with
    | .null, .null => true
    | .bool a, .bool b => a == b
    | .number a, .number b => a.sameAs b
    | .text a, .text b => a == b
    | _, _ => false
  | _, _ => false

end Node

/-! ## Values of scalars -/

/-- The value of a scalar without a tag of its own type: a text, unless its tag or, without one, the
lack of quotes makes it something else. A text that does not fit its tag stays a text. -/
def scalarValue (tag : Option String) (isPlain : Bool) (text : String) : Value :=
  let fits (spellings : List Spelling) : Value :=
    match number? text with
    | some (n, spelling) => if spellings.contains spelling then .number n else .text text
    | none => .text text
  match tag with
  | none => if isPlain then resolve text else .text text
  | some tag =>
    if tag == commonTag ++ "null" then if isNull text then .null else .text text
    else if tag == commonTag ++ "bool" then ((truth? text).map Value.bool).getD (.text text)
    else if tag == commonTag ++ "int" then fits [.whole, .octal, .hexadecimal]
    else if tag == commonTag ++ "float" then fits [.word, .scientific, .fraction]
    else .text text

end Walkthrough.Yaml
