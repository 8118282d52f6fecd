import Walkthrough.Text.Units

/-!
# Lexemes of documents

A document falls into lexemes: indicators, white space, comments, properties and scalars. What a
lexeme is can be told from its source, except for plain and block scalars, which may look like
anything.
-/

namespace Walkthrough.Yaml

inductive Mark
  | byteOrder
  /-- Here a document begins. -/
  | documentMode
  /-- Here a flow collection is cut short. -/
  | flowBreak
  | documentStart
  | documentEnd
  | newline
  | dash
  | question
  | colon
  | mappingStart
  | mappingEnd
  | listStart
  | listEnd
  | comma
  | space
  | comment
  | directive
  | reference
  | anchor
  | tag
  | single
  | double
  /-- The header of a block scalar. -/
  | header
  /-- A plain scalar, or the text of a block scalar. -/
  | scalar
  /-- Text that is no lexeme. -/
  | foreign
  deriving DecidableEq, Inhabited

namespace Mark

def name : Mark → String
  | byteOrder => "byte-order-mark"
  | documentMode => "doc-mode"
  | flowBreak => "flow-error-end"
  | documentStart => "doc-start"
  | documentEnd => "doc-end"
  | newline => "newline"
  | dash => "seq-item-ind"
  | question => "explicit-key-ind"
  | colon => "map-value-ind"
  | mappingStart => "flow-map-start"
  | mappingEnd => "flow-map-end"
  | listStart => "flow-seq-start"
  | listEnd => "flow-seq-end"
  | comma => "comma"
  | space => "space"
  | comment => "comment"
  | directive => "directive-line"
  | reference => "alias"
  | anchor => "anchor"
  | tag => "tag"
  | single => "single-quoted-scalar"
  | double => "double-quoted-scalar"
  | header => "block-scalar-header"
  | scalar => "scalar"
  | foreign => "error"

/-- What a lexeme with the given source is, unless it is a scalar without quotes. -/
def ofSource : List Char → Mark
  | [] => newline
  | ['\uFEFF'] => byteOrder
  | ['-', '-', '-'] => documentStart
  | ['.', '.', '.'] => documentEnd
  | ['\n'] => newline
  | ['\r', '\n'] => newline
  | ['-'] => dash
  | ['?'] => question
  | [':'] => colon
  | ['\x7b'] => mappingStart
  | ['\x7d'] => mappingEnd
  | ['['] => listStart
  | [']'] => listEnd
  | [','] => comma
  | c :: _ =>
    match c with
    | ' ' => space
    | '\t' => space
    | '#' => comment
    | '%' => directive
    | '*' => reference
    | '&' => anchor
    | '!' => tag
    | '\x27' => single
    | '\x22' => double
    | '|' => header
    | '>' => header
    | _ => foreign

end Mark

structure Lexeme where
  mark : Mark
  source : List Char
  deriving DecidableEq, Inhabited

namespace Lexeme

def ofSource (source : List Char) : Lexeme :=
  ⟨Mark.ofSource source, source⟩

end Lexeme

/-! ## Characters -/

/-- True of the end of the text and of the characters that end a word. -/
def isGap : Option Char → Bool
  | none => true
  | some c => c == ' ' || c == '\n' || c == '\r' || c == '\t'

def isSpaceOrTab (c : Char) : Bool :=
  c == ' ' || c == '\t'

def isFlowIndicator (c : Char) : Bool :=
  c == ',' || c == '[' || c == ']' || c == '\x7b' || c == '\x7d'

def isAnchorChar (c : Char) : Bool :=
  !isFlowIndicator c && !isGap (some c)

def afterBreak? : List Char → Option (List Char)
  | '\n' :: rest => some rest
  | '\r' :: '\n' :: rest => some rest
  | _ => none

/-- True of a line that begins or ends a document. -/
def isMarker (cs : List Char) : Bool :=
  ("---".toList.isPrefixOf cs || "...".toList.isPrefixOf cs) && isGap cs[3]?

end Walkthrough.Yaml
