import Walkthrough.Json.Printer
import Walkthrough.Yaml.Fold
import Walkthrough.Yaml.Node

/-!
# Nodes as text

A list or a mapping that is used as a name is named by its text, written as a flow collection.
`Node.inline` gives this text. Quotes, comments, blank lines, anchors and tags are kept; spaces,
commas and line breaks are set anew. A collection stands on one line if that line has no more than
eighty columns, and if it needs no line break otherwise; else each entry has a line of its own.
-/

namespace Walkthrough.Yaml

/-! ## Numbers -/

def padFraction (count : Nat) (cs : List Char) : List Char :=
  if count = 0 || cs.contains 'e' then cs
  else
    let cs := if cs.contains '.' then cs else cs ++ ['.']
    let part := (cs.dropWhile (· != '.')).drop 1
    cs ++ List.replicate (count - part.length) '0'

/-- The number of digits behind the point of a text that are kept, because they end in a zero. -/
def keptDigits (text : List Char) : Nat :=
  if text.getLast? == some '0' then ((text.dropWhile (· != '.')).drop 1).length else 0

def numberText (source : String) (n : Number) : String :=
  match n with
  | .infinite negative => if negative then "-.inf" else ".inf"
  | .notANumber => ".nan"
  | n =>
    let negativeZero := n == .ofInt 0 && source.toList.head? == some '-'
    let decimal := if negativeZero then "-0" else n.text
    match ((number? source).map fun e => e.2 : Option Spelling), n.toInt? with
    | some .octal, some i => String.ofList ('0' :: 'o' :: Nat.toDigits 8 i.toNat)
    | some .hexadecimal, some i => String.ofList ('0' :: 'x' :: Nat.toDigits 16 i.toNat)
    | some .scientific, _ => n.scientific
    | some .fraction, _ =>
      String.ofList (padFraction (keptDigits source.toList) decimal.toList)
    | _, _ => decimal

def numberTextOf (s : String) : String :=
  match Number.ofText? (Text.trim s) with
  | some (.infinite negative) => if negative then "-.inf" else ".inf"
  | some _ => Json.quote s
  | none => if (Text.trim s).isEmpty then Json.quote s else ".nan"

/-! ## Texts -/

structure Site where
  /-- The indentation of the lines. -/
  indent : Nat
  /-- It is a name that has to stay on one line. -/
  isName : Bool := false
  /-- The number of columns before the node in its own line, if it is known. -/
  start : Option Nat := none

/-- The text in double quotes with the escapes of this format: `cs` is what JSON writes. Of long
texts the line breaks are written as line breaks; a space beside them is escaped. -/
def reescape (long : Bool) (newline : List Char) : Nat → List Char → List Char
  | 0, cs => cs
  | fuel + 1, cs =>
    match cs with
    | ' ' :: '\\' :: 'n' :: rest => '\\' :: ' ' :: reescape long newline fuel ('\\' :: 'n' :: rest)
    | '\\' :: 'u' :: a :: b :: c :: d :: rest =>
      let escape := match [a, b, c, d] with
        | ['0', '0', '0', '0'] => "\\0".toList
        | ['0', '0', '0', '7'] => "\\a".toList
        | ['0', '0', '0', 'b'] => "\\v".toList
        | ['0', '0', '1', 'b'] => "\\e".toList
        | ['0', '0', c, d] => ['\\', 'x', c, d]
        | digits => '\\' :: 'u' :: digits
      escape ++ reescape long newline fuel rest
    | '\\' :: 'n' :: rest =>
      if !long || rest.head? == some '\x22' then '\\' :: 'n' :: reescape long newline fuel rest
      else
        let n := moreBreaks fuel rest
        let rest := rest.drop (2 * n)
        let space := if rest.head? == some ' ' then ['\\'] else []
        '\n' :: List.replicate n '\n' ++ newline ++ space ++ reescape long newline fuel rest
    | '\\' :: c :: rest => '\\' :: c :: reescape long newline fuel rest
    | c :: rest => c :: reescape long newline fuel rest
    | [] => []
where
  /-- The number of further line breaks that are not at the end of the text. -/
  moreBreaks : Nat → List Char → Nat
    | fuel + 1, '\\' :: 'n' :: rest =>
      if rest.head? == some '\x22' then 0 else 1 + moreBreaks fuel rest
    | _, _ => 0

def Site.newline (at_ : Site) : List Char :=
  '\n' :: List.replicate at_.indent ' '

/-- The least length of a text in double quotes whose line breaks are written as such. -/
def leastLong : Nat :=
  40

def doubleQuoted (at_ : Site) (cs : List Char) : List Char :=
  let json := Text.split (Json.quoteChars cs).toList
  let text := reescape (!at_.isName && leastLong ≤ json.length) at_.newline json.length json
  if at_.isName then text else foldLines true at_.indent at_.start text

/-- A text with a line break, and the indentation of the next line, added to each run of line
breaks. -/
def widenBreaks (newline : List Char) : List Char → List Char
  | [] => []
  | '\n' :: rest =>
    if rest.head? == some '\n' then '\n' :: widenBreaks newline rest
    else '\n' :: newline ++ widenBreaks newline rest
  | c :: rest => c :: widenBreaks newline rest

def hasRaggedBreak : List Char → Bool
  | a :: b :: rest =>
    (isSpaceOrTab a && b == '\n') || (a == '\n' && isSpaceOrTab b) || hasRaggedBreak (b :: rest)
  | _ => false

def singleQuoted (at_ : Site) (cs : List Char) : List Char :=
  if (at_.isName && cs.contains '\n') || hasRaggedBreak cs then doubleQuoted at_ cs
  else
    let doubled := cs.flatMap fun c => if c == '\x27' then ['\x27', '\x27'] else [c]
    let text := '\x27' :: widenBreaks at_.newline doubled ++ ['\x27']
    if at_.isName then text else foldLines false at_.indent at_.start text

def quoted (at_ : Site) (cs : List Char) : List Char :=
  if cs.contains '\x22' && !cs.contains '\x27' then singleQuoted at_ cs else doubleQuoted at_ cs

def isIndicatorStart (c : Char) : Bool :=
  "\n\t ,[]\x7b\x7d#&*!|>'\x22%@\x60".toList.contains c

/-- True when two units that follow each other cannot stand in a text without quotes. -/
def hasIndicator : List Char → Bool
  | a :: b :: rest =>
    ((a == '\n' || a == ':') && isSpaceOrTab b) || (isSpaceOrTab a && b == '\n')
      || ((a == '\n' || isSpaceOrTab a) && b == '#') || hasIndicator (b :: rest)
  | _ => false

def needsQuotes (cs : List Char) : Bool :=
  let badStart := match cs with
    | [] => false
    | [c] => isIndicatorStart c || c == '-' || c == '?'
    | c :: d :: _ => isIndicatorStart c || ((c == '-' || c == '?') && isSpaceOrTab d)
  let badEnd := cs.getLast?.any fun c =>
    c == '\n' || c == '\t' || c == ' ' || c == ':'
  badStart || hasIndicator cs || badEnd

/-- True of a text that is no text when it stands without quotes. -/
def hasMeaning (s : String) : Bool :=
  match resolve s with
  | .text _ => false
  | _ => true

/-- A text without quotes, if it can be written so. `isText` says that it must not be taken for
anything but a text. -/
def unquoted (isText : Bool) (at_ : Site) (cs : List Char) : List Char :=
  if (at_.isName && cs.contains '\n') || cs.any isFlowIndicator || needsQuotes cs then
    quoted at_ cs
  else
    let text := widenBreaks at_.newline cs
    if isText && hasMeaning (String.ofList text) then quoted at_ cs
    else if at_.isName then text
    else foldLines false at_.indent at_.start text

def isControl (c : Char) : Bool :=
  let n := c.toNat
  n ≤ 8 || (0x0B ≤ n && n ≤ 0x1F) || (0x7F ≤ n && n ≤ 0x9F)

/-- A text in the style in which it has been written, as far as that is possible in a flow
collection. -/
def styled (style : Style) (isText : Bool) (at_ : Site) (s : String) : String :=
  let whole := s.toList
  let cs := Text.split whole
  let text :=
    if whole.any isControl || Text.hasLoneHalf whole then doubleQuoted at_ cs
    else
      match style with
      | .double => doubleQuoted at_ cs
      | .single => singleQuoted at_ cs
      | .block => quoted at_ cs
      | .plain => unquoted isText at_ cs
  String.ofList (Text.join text)

/-! ## Scalars and properties -/

/-- The text of a scalar without its properties. Its tag decides how a value is written that does
not fit it. -/
def scalarText (at_ : Site) (style : Style) (tag : Option String) (source : String) :
    Value → String
  | .null => source
  | .bool _ => source
  | .number n => numberText source n
  | .text s =>
    match tag with
    | none => styled style true at_ s
    | some tag =>
      if tag == commonTag ++ "null" then "null"
      else if tag == commonTag ++ "bool" then (if s.isEmpty then "false" else "true")
      else if tag == commonTag ++ "int" || tag == commonTag ++ "float" then numberTextOf s
      else if tag == commonTag ++ "map" || tag == commonTag ++ "seq" then
        styled style false at_ s
      else styled style true at_ s
  | _ => source

/-- What is written for a collection that has the tag of a scalar. -/
def mistaggedText? (tag : Option String) : Option String :=
  tag.bind fun tag =>
    [(commonTag ++ "str", "undefined"), (commonTag ++ "null", "null"),
      (commonTag ++ "bool", "false"), (commonTag ++ "int", ".nan"),
      (commonTag ++ "float", ".nan")].lookup tag

def propertyText (h : Handles) (notes : Notes) : String :=
  let anchor := notes.anchor.toList.map ("&" ++ ·)
  let tag := notes.tag.toList.map h.abbreviate
  Text.joinWith " " (anchor ++ tag)

/-! ## Comments -/

def commentLines : List Char → List (List Char)
  | [] => [[]]
  | c :: rest =>
    if Text.isLineEnd c then [c] :: commentLines rest
    else
      match commentLines rest with
      | [] => [[c]]
      | line :: others => (c :: line) :: others

def lineBody (line : List Char) : List Char :=
  line.takeWhile fun c => !Text.isLineEnd c

def signed (cs : List Char) : List Char :=
  (commentLines cs).flatMap fun line =>
    if (lineBody line).isEmpty then line
    else if lineBody line == [' '] then '#' :: line.drop 1
    else '#' :: line

def indented (indent : Nat) (cs : List Char) : List Char :=
  if !cs.isEmpty && cs.all (· == '\n') then cs.drop 1
  else
    (commentLines cs).flatMap fun line =>
      if (lineBody line).all (· == ' ') then line else List.replicate indent ' ' ++ line

def behind (text : String) (indent : Nat) (comment : List Char) : String :=
  let cs := signed comment
  let ending := text.toList.getLast?
  String.ofList
    (if ending == some '\n' then indented indent cs
     else if cs.contains '\n' then '\n' :: indented indent cs
     else if ending == some ' ' then cs
     else ' ' :: cs)

/-- The lines in front of an entry: a blank one, and a comment. -/
def linesBefore (indent : Nat) (notes : Notes) : List String :=
  (if notes.spaced then [""] else [])
    ++ (if notes.before.isEmpty then []
        else [String.ofList ((indented indent (signed notes.before)).dropWhile Text.isBlank)])

/-! ## Collections -/

/-- The lines of a flow collection, the last one first. -/
structure FlowLines where
  lines : List String := []
  /-- Each entry has to have a line of its own. -/
  broken : Bool := false

def lengthOf (s : String) : Nat :=
  Text.units s.toList

namespace FlowLines

def add (f : FlowLines) (indent : Nat) (before : List String) (text : String)
    (comment : List Char) (isLast : Bool) : FlowLines :=
  let broken := f.broken || !comment.isEmpty || !before.isEmpty || text.toList.contains '\n'
  let text := if isLast then text else text ++ ","
  let text := if comment.isEmpty then text else text ++ behind text indent comment
  { lines := text :: before.reverse ++ f.lines, broken }

def enclose (f : FlowLines) (b : Bracket) (indent : Nat) : String :=
  let opening := match b with
    | .square => "["
    | .curly => "\x7b"
  let lines := f.lines.reverse
  let width := Text.sumOf (fun line => lengthOf line + 2) lines + 2
  let space (n : Nat) : String := String.ofList (List.replicate n ' ')
  if lines.isEmpty then opening ++ b.closingText
  else if f.broken || lineWidth < width then
    let line (s : String) : String := if s.isEmpty then "\n" else "\n" ++ space (indent + 2) ++ s
    opening ++ String.join (lines.map line) ++ "\n" ++ space indent ++ b.closingText
  else opening ++ " " ++ Text.joinWith " " lines ++ " " ++ b.closingText

end FlowLines

/-- True when the first line of a text holds nothing but properties. -/
def hasPropertyLine (text : List Char) : Bool :=
  let first := text.takeWhile (· != '\n')
  let isAnchor := text.head? == some '&'
  let rest := first.dropWhile (· != ' ')
  let rest :=
    if isAnchor && (rest.drop 1).head? == some '!' then (rest.drop 1).dropWhile (· != ' ')
    else rest
  text.contains '\n' && (isAnchor || text.head? == some '!') && rest.isEmpty

def Node.isExplicitName : Node → Bool
  | scalar _ style _ _ => style == .block
  | _ => true

def Site.behind (at_ : Site) (props : String) : Site :=
  if props.isEmpty then at_
  else { at_ with start := some (at_.start.getD 0 + lengthOf props + 1) }

def dressed (at_ : Site) (props body : String) (isScalar : Bool) : String :=
  if props.isEmpty then body
  else if isScalar || body.toList.head? == some '[' || body.toList.head? == some '\x7b' then
    props ++ " " ++ body
  else props ++ String.ofList at_.newline ++ body

def gapBefore (indent : Nat) (explicit : Bool) (nameComment : List Char) (v : Node)
    (text : String) : String :=
  let newline := String.ofList ('\n' :: List.replicate indent ' ')
  let notes := v.notes
  if !nameComment.isEmpty || notes.spaced || !notes.before.isEmpty then
    (if notes.spaced then "\n" else "")
      ++ (if notes.before.isEmpty then ""
          else String.ofList ('\n' :: indented indent (signed notes.before)))
      ++ newline
  else if !explicit && v.isCollection then
    if text.toList.contains '\n' && !hasPropertyLine text.toList then newline else " "
  else if text.isEmpty || text.toList.head? == some '\n' then ""
  else " "

mutual

/-- The text of a node, and the number of columns before what follows at its site. -/
def writeNode (h : Handles) (at_ : Site) : Node → String × Option Nat
  | .reference _ name => ("*" ++ name, at_.start)
  | .scalar notes style text value =>
    let props := propertyText h notes
    let site := at_.behind props
    (dressed at_ props (scalarText site style notes.tag text value) true, site.start)
  | .list notes items =>
    let props := propertyText h notes
    let site := at_.behind props
    let lines := writeItems h site.indent { site with indent := site.indent + 4 } {} items
    let body := (mistaggedText? notes.tag).getD (lines.enclose .square site.indent)
    (dressed at_ props body false, site.start)
  | .mapping notes entries =>
    let props := propertyText h notes
    let site := at_.behind props
    let lines := writeEntries h site (entries.any fun e => e.2.isSome) {} entries
    let body := (mistaggedText? notes.tag).getD (lines.enclose .curly site.indent)
    (dressed at_ props body false, site.start)

/-- The lines of the items of a list, whose lines are indented by `outer` columns less. -/
def writeItems (h : Handles) (outer : Nat) (at_ : Site) (f : FlowLines) : List Node → FlowLines
  | [] => f
  | n :: rest =>
    let (text, start) := writeNode h at_ n
    let f := f.add at_.indent (linesBefore outer n.notes) text n.notes.comment rest.isEmpty
    writeItems h outer { at_ with start } f rest

/-- The lines of the entries of a mapping. `named` says that one of them has a value. -/
def writeEntries (h : Handles) (outer : Site) (named : Bool) (f : FlowLines) :
    List (Node × Option Node) → FlowLines
  | [] => f
  | (name, none) :: rest =>
    let explicit := name.isExplicitName
    let at_ : Site :=
      { indent := outer.indent + 4, isName := !explicit && named, start := outer.start }
    let (text, _) := writeNode h at_ name
    let text := if text.isEmpty then "?" else if explicit then "? " ++ text else text
    let f := f.add (outer.indent + 2) (linesBefore outer.indent name.notes) text
      name.notes.comment rest.isEmpty
    writeEntries h outer named f rest
  | (name, some v) :: rest =>
    let explicit := name.isExplicitName
    let at_ : Site :=
      { indent := outer.indent + 4, isName := !explicit, start := outer.start }
    let (text, start) := writeNode h at_ name
    let nameComment := name.notes.comment
    let noted (s : String) : String :=
      if nameComment.isEmpty then s else s ++ behind s at_.indent nameComment
    let inner := String.ofList (List.replicate (outer.indent + 2) ' ')
    let front :=
      if explicit then "? " ++ noted text ++ "\n" ++ inner ++ ":" else noted (text ++ ":")
    let start :=
      if !explicit && nameComment.isEmpty && v.isScalar then some (lengthOf front + 1) else start
    let (valueText, _) := writeNode h { at_ with isName := false, start } v
    let text := front ++ gapBefore at_.indent explicit nameComment v valueText ++ valueText
    let broken := f.broken || !nameComment.isEmpty || !v.notes.before.isEmpty
    let f := { f with broken }.add (outer.indent + 2) (linesBefore outer.indent name.notes) text
      v.notes.comment rest.isEmpty
    writeEntries h outer named f rest

end

def Node.inline (h : Handles) : Node → String
  | .reference _ name => "*" ++ name
  | .scalar _ _ text _ => text
  | .list _ items => (writeItems h 0 { indent := 4 } {} items).enclose .square 0
  | .mapping _ entries =>
    (writeEntries h { indent := 0 } (entries.any fun e => e.2.isSome) {} entries).enclose .curly 0

end Walkthrough.Yaml
