import Walkthrough.Yaml.Scalar

/-!
# Block scalars

The text of a block scalar is indented. Its own indentation, that of its first line or the one that
the header gives, is cut off. A literal one keeps its line breaks; in a folded one a line break
between two lines of text counts as a space. What becomes of the line breaks at the end is up to the
header.
-/

namespace Walkthrough.Yaml

/-! ## Headers -/

inductive Chomp
  /-- One of them. -/
  | clip
  | strip
  | keep
  deriving DecidableEq, Inhabited

structure BlockHeader where
  folded : Bool
  chomp : Chomp
  /-- How many columns the text is indented beyond what is around it; zero leaves it to the text. -/
  digit : Nat
  deriving DecidableEq, Inhabited

namespace BlockHeader

def add? (h : BlockHeader) (c : Char) : Option BlockHeader :=
  if c == '-' && h.chomp == .clip then some { h with chomp := .strip }
  else if c == '+' && h.chomp == .clip then some { h with chomp := .keep }
  else if '1' ≤ c && c ≤ '9' && h.digit = 0 then some { h with digit := Number.digitValue c }
  else none

/-- The header with what the characters from the given place on say, of which each has to say
something new. -/
def addAll (whole : List Char) (place : Nat) (h : BlockHeader) :
    List Char → Except Complaint BlockHeader
  | [] => .ok h
  | c :: rest =>
    match h.add? c with
    | some h => addAll whole (place + 1) h rest
    | none => .error ((Flaw.badHeader (String.ofList whole)).at place)

def ofPiece (p : Piece) : Except Complaint BlockHeader :=
  addAll p.source (p.offset + 1) ⟨p.source.head? == some '>', .clip, 0⟩ (p.source.drop 1)

end BlockHeader

/-- Accepts white space and a comment between a header and the end of its line. -/
def checkBeside (spaced : Bool) : List Piece → Except Complaint Unit
  | [] => .ok ()
  | p :: rest =>
    match p.mark with
    | .space => checkBeside true rest
    | .comment => if spaced then checkBeside spaced rest else .error (p.complain .commentTouches)
    | .foreign => .error (p.complain (.foreign (String.ofList p.source)))
    | _ => checkBeside spaced rest

/-! ## Lines -/

/-- A line: the number of spaces in front, and what comes after them. -/
structure BlockLine where
  indent : Nat
  text : List Char
  /-- The line ends in a carriage return, which is not part of the text. -/
  returned : Bool
  deriving DecidableEq, Inhabited

namespace BlockLine

def ofChars (line : List Char) : BlockLine :=
  let text := line.dropWhile (· == ' ')
  ⟨line.length - text.length, dropReturn text, text.getLast? == some '\r'⟩

def isBlank (l : BlockLine) : Bool :=
  l.text.isEmpty

def length (l : BlockLine) : Nat :=
  l.indent + Text.units l.text + (if l.returned then 2 else 1)

def cut (n : Nat) (l : BlockLine) : List Char :=
  List.replicate (l.indent - n) ' ' ++ l.text

end BlockLine

/-! ## Text -/

/-- The number of lines up to the last one that is not blank or is indented beyond `depth`. -/
def contentLength (depth : Nat) (lines : List BlockLine) : Nat :=
  (lines.reverse.dropWhile fun l => l.isBlank && l.indent ≤ depth).length

def literalText (depth : Nat) : List BlockLine → List Char
  | [] => []
  | [l] => l.cut depth
  | l :: rest => l.cut depth ++ '\n' :: literalText depth rest

/-- The text of the lines of a folded block scalar. `gap` is what separates the next line from the
text before it, and `deep` says that this text ends in a line that is indented further. -/
def foldedText (depth : Nat) (gap : List Char) (deep : Bool) : List BlockLine → List Char
  | [] => []
  | l :: rest =>
    if depth < l.indent || l.text.head? == some '\t' then
      let gap :=
        if gap == [' '] then ['\n'] else if !deep && gap == ['\n'] then ['\n', '\n'] else gap
      gap ++ l.cut depth ++ foldedText depth ['\n'] true rest
    else if l.isBlank then
      if gap == ['\n'] then '\n' :: foldedText depth gap deep rest
      else foldedText depth ['\n'] deep rest
    else gap ++ l.text ++ foldedText depth [' '] false rest

def leadingText (depth : Nat) (lines : List BlockLine) : List Char :=
  lines.flatMap fun l => List.replicate (l.indent - depth) ' ' ++ ['\n']

/-- What the end of a block scalar stands for: `text` comes before, and `blanks` are the lines that
are left. -/
def endText (chomp : Chomp) (depth : Nat) (text : List Char) (blanks : List BlockLine) :
    List Char :=
  match chomp with
  | .strip => text
  | .clip => text ++ ['\n']
  | .keep =>
    let text := text ++ blanks.flatMap fun l => '\n' :: List.replicate (l.indent - depth) ' '
    if text.getLast? == some '\n' then text else text ++ ['\n']

/-- The text of a block scalar without any line of text, given the number of its lines. -/
def emptyText (h : BlockHeader) (count : Nat) : List Char :=
  if h.chomp == .keep && 0 < count then List.replicate (max 1 (count - 1)) '\n' else []

/-- Accepts lines of text that are indented enough; `place` is where the first one begins. -/
def checkDepth (explicit : Bool) (depth place : Nat) : List BlockLine → Except Complaint Unit
  | [] => .ok ()
  | l :: rest =>
    if !l.isBlank && l.indent < depth then
      .error ((Flaw.shallowLine explicit).at (place + l.indent))
    else checkDepth explicit depth (place + l.length) rest

/-- The text of a block scalar that begins at `place` and has a line of text. `outer` is the
indentation of what is around it. Blank lines in front must not be indented further than the first
line of text. -/
def blockText (h : BlockHeader) (isRoot : Bool) (outer place : Nat) (lines : List BlockLine) :
    Except Complaint (List Char) := do
  let leading := lines.takeWhile BlockLine.isBlank
  let first := (lines.drop leading.length).headD default
  let start := place + Text.sumOf BlockLine.length leading
  let least := outer + h.digit
  let least := if h.digit = 0 then (leading.map BlockLine.indent).foldl max least else least
  if first.indent < least then throw (Flaw.deepLeadingLine.at (start + first.indent))
  let depth := if h.digit = 0 then first.indent else least
  if depth = 0 && !isRoot then throw (Flaw.blockWithoutIndentation.at start)
  let count := contentLength depth lines
  let body := (lines.take count).drop leading.length
  checkDepth (h.digit != 0) depth start body
  let text := leadingText depth leading
    ++ (if h.folded then foldedText depth [] false body else literalText depth body)
  return endText h.chomp depth text (lines.drop count)

def decodeBlock (isRoot : Bool) (outer : Nat) (header : Piece) (beside : List Piece)
    (text : List Char) : Except Complaint (List Char × Nat) := do
  let h ← BlockHeader.ofPiece header
  checkBeside false beside
  let place := header.stop + Text.sumOf Piece.length beside
  let stop := place + Text.units text
  let lines := if text.isEmpty then [] else (linesOf text).map BlockLine.ofChars
  if lines.all BlockLine.isBlank then return (emptyText h lines.length, stop)
  let cs ← blockText h isRoot outer place lines
  return (cs, stop)

end Walkthrough.Yaml
