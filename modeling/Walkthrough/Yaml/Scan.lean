import Walkthrough.Number.Decimal
import Walkthrough.Yaml.Lexeme

/-!
# From text to lexemes

`lexemes` cuts a document into its lexemes. Every character belongs to one of them, so that places
in the text can be computed from their sources.

The indentation of a line counts its spaces and the indicators `-`, `?` and `:` in front with the
white space behind them, so that `- - x` and `- a: x` nest. A scalar or a flow collection goes on
in the next line only when that line is indented by at least `least` columns.
-/

namespace Walkthrough.Yaml

/-! ## Lines -/

def lineOf (cs : List Char) : List Char :=
  let line := cs.takeWhile (· != '\n')
  if line.length < cs.length && line.getLast? == some '\r' then line.dropLast else line

/-- True when nothing but white space and a comment is left of the line. -/
def atLineEnd (cs : List Char) : Bool :=
  let rest := cs.dropWhile isSpaceOrTab
  rest.isEmpty || rest.head? == some '#' || (afterBreak? rest).isSome

/-- True when a scalar or flow collection can go on in a line. -/
def goesOn (least : Nat) (line : List Char) : Bool :=
  let text := line.dropWhile (· == ' ')
  if least = 0 then !isMarker line
  else (afterBreak? text).isSome || least ≤ line.length - text.length

/-! ## Lengths -/

def isTagChar (c : Char) : Bool :=
  Text.isWordChar c || "-#;/?:@&=+$.!~*'()".toList.contains c

def isHexDigit (c : Char) : Bool :=
  Number.digitValue c < 16

def tagNameLength : List Char → Nat
  | '%' :: a :: b :: rest =>
    if isHexDigit a && isHexDigit b then 3 + tagNameLength rest else 0
  | c :: rest => if isTagChar c then 1 + tagNameLength rest else 0
  | [] => 0

def tagLength : List Char → Nat
  | _ :: '<' :: rest =>
    let name := rest.takeWhile fun c => c != '>' && !isGap (some c)
    2 + name.length + (if rest[name.length]? == some '>' then 1 else 0)
  | _ :: rest => 1 + tagNameLength rest
  | [] => 0

def anchorLength (cs : List Char) : Nat :=
  (cs.takeWhile isAnchorChar).length

def newlineLength (cs : List Char) : Nat :=
  match afterBreak? cs with
  | some rest => cs.length - rest.length
  | none => 0

/-- The length of the plain scalar in front. `count` characters have been read, the last one that is
no white space at `best`. -/
def plainLength (inFlow : Bool) (least count best : Nat) : List Char → Nat
  | [] => best
  | c :: rest =>
    let next := rest.head?
    let stops := inFlow && (next.map isFlowIndicator).getD false
    if c == ':' then
      if isGap next || stops then best
      else plainLength inFlow least (count + 1) (count + 1) rest
    else if c == '\r' && next != some '\n' then
      if next == some '#' || stops then count + 1
      else plainLength inFlow least (count + 1) (count + 1) rest
    else if isGap (some c) then
      if next == some '#' || stops then best
      else if c == '\n' && !goesOn least rest then best
      else plainLength inFlow least (count + 1) best rest
    else if inFlow && isFlowIndicator c then best
    else plainLength inFlow least (count + 1) (count + 1) rest

def singleLength : List Char → Option Nat
  | [] => none
  | '\x27' :: '\x27' :: rest => (singleLength rest).map (· + 2)
  | '\x27' :: _ => some 0
  | _ :: rest => (singleLength rest).map (· + 1)

def doubleLength : List Char → Option Nat
  | [] => none
  | '\x22' :: _ => some 0
  | '\\' :: _ :: rest => (doubleLength rest).map (· + 2)
  | _ :: rest => (doubleLength rest).map (· + 1)

/-- The number of characters, among the first `bound`, up to the first line break after which the
scalar does not go on. `returned` says that a carriage return comes right before. -/
def brokenLength (least : Nat) (returned : Bool) : Nat → List Char → Option Nat
  | 0, _ => none
  | _, [] => none
  | bound + 1, c :: rest =>
    if c == '\n' && !goesOn least rest then some (if returned then 0 else 1)
    else (brokenLength least (c == '\r') bound rest).map (· + 1)

/-- The length of the quoted scalar in front. One that is not closed takes all that is left, and one
that is broken by a line with too little indentation ends before that line. -/
def quotedLength (least : Nat) (cs : List Char) : Nat :=
  match cs with
  | [] => 0
  | q :: rest =>
    match if q == '\x27' then singleLength rest else doubleLength rest with
    | none => cs.length
    | some n =>
      match brokenLength least false (n + 1) (q :: rest) with
      | some m => m - 1
      | none => n + 2

/-! ## Block scalars -/

/-- What stands in front of the first line of text: the indentation of that line, and the number of
characters before it. `count` characters have been read, the line begins at `start`. -/
def leadingSpace (start count : Nat) : List Char → Nat × Nat
  | ' ' :: rest => leadingSpace start (count + 1) rest
  | '\n' :: rest => leadingSpace (count + 1) (count + 1) rest
  | '\r' :: '\n' :: rest => leadingSpace (count + 2) (count + 2) rest
  | _ => (count - start, start)

/-- The number of characters up to the end of the last line that goes on with a block scalar. -/
def bodyLength (least : Nat) : Nat → List Char → Nat
  | 0, _ => 0
  | fuel + 1, cs =>
    if goesOn least cs then
      let line := cs.takeWhile (· != '\n')
      if line.length < cs.length then
        line.length + 1 + bodyLength least fuel (cs.drop (line.length + 1))
      else cs.length
    else 0

/-- A text in reverse, which ends before a line break, without the lines at its end that have no
text and are indented by at most `indent` columns. -/
def dropBlankLines (indent : Nat) : Nat → List Char → List Char
  | 0, cs => cs
  | fuel + 1, cs =>
    let line := if cs.head? == some '\r' then cs.drop 1 else cs
    let before := line.dropWhile (· == ' ')
    if before.head? == some '\n' && line.length - before.length ≤ indent then
      dropBlankLines indent fuel (before.drop 1)
    else cs

/-! ## Scanning -/

inductive Stage
  /-- Between documents. -/
  | stream
  | lineStart
  /-- At the indicators in front of a line. -/
  | indicators
  | document
  | flow
  deriving DecidableEq, Inhabited

structure Scan where
  stage : Stage := .stream
  /-- The characters still to be read. -/
  rest : List Char
  /-- The indentation of the line. -/
  indent : Nat := 0
  /-- The least indentation of a line that goes on with a scalar or a flow collection. -/
  least : Nat := 0
  /-- The number of open brackets. -/
  level : Nat := 0
  /-- What comes before can be the name of an entry without white space after its colon. -/
  named : Bool := false
  /-- The lexemes, the last one first. -/
  lexemes : List Lexeme := []
  deriving Inhabited

namespace Scan

/-! ### Steps of all stages -/

def push (n : Nat) (s : Scan) : Scan :=
  if n = 0 then s
  else { s with lexemes := .ofSource (s.rest.take n) :: s.lexemes, rest := s.rest.drop n }

def pushScalar (n : Nat) (s : Scan) : Scan :=
  { s with lexemes := ⟨.scalar, s.rest.take n⟩ :: s.lexemes, rest := s.rest.drop n }

/-- The state after a lexeme without source. -/
def pushSign (m : Mark) (s : Scan) : Scan :=
  { s with lexemes := ⟨m, []⟩ :: s.lexemes }

def pushBlanks (s : Scan) : Scan :=
  s.push (s.rest.takeWhile isSpaceOrTab).length

def pushIndent (s : Scan) : Scan :=
  let n := (s.rest.takeWhile (· == ' ')).length
  { s.push n with indent := n }

def pushNewline (s : Scan) : Scan :=
  s.push (newlineLength s.rest)

def pushProperties : Nat → Scan → Scan
  | 0, s => s
  | fuel + 1, s =>
    match s.rest with
    | '!' :: _ => pushProperties fuel (s.push (tagLength s.rest)).pushBlanks
    | '&' :: rest => pushProperties fuel (s.push (1 + anchorLength rest)).pushBlanks
    | c :: rest =>
      let inFlow := 0 < s.level
      let next := rest.head?
      let ends := isGap next || (inFlow && (next.map isFlowIndicator).getD false)
      if (c == '-' || c == '?' || c == ':') && ends then
        let s := if inFlow then { s with named := false } else { s with least := s.indent + 1 }
        pushProperties fuel (s.push 1).pushBlanks
      else s
    | [] => s

def pushQuoted (s : Scan) : Scan :=
  s.push (quotedLength s.least s.rest)

def pushPlain (s : Scan) : Scan :=
  s.pushScalar (plainLength (0 < s.level) s.least 0 0 s.rest)

/-! ### Between documents -/

/-- The length of the directive in a line, less the white space and the comment behind it. -/
def directiveLength (line : List Char) : Nat :=
  let rec upTo : List Char → List Char
    | a :: '#' :: rest => if isSpaceOrTab a then [] else a :: upTo ('#' :: rest)
    | c :: rest => c :: upTo rest
    | [] => []
  ((upTo line).reverse.dropWhile isSpaceOrTab).length

def stepStream (s : Scan) : Scan :=
  let s := if s.rest.head? == some '\uFEFF' then s.push 1 else s
  let line := lineOf s.rest
  if line.head? == some '%' then
    let s' := (s.push (directiveLength line)).pushBlanks
    s'.push (line.length - (s.rest.length - s'.rest.length))
  else if atLineEnd s.rest then
    let s' := s.pushBlanks
    (s'.push (line.length - (s.rest.length - s'.rest.length))).pushNewline
  else { s.pushSign .documentMode with stage := .lineStart }

/-! ### Block collections -/

def stepLineStart (s : Scan) : Scan :=
  if isMarker s.rest then
    let stage := if s.rest.head? == some '-' then .document else .stream
    { s.push 3 with indent := 0, least := 0, stage }
  else
    let s := s.pushIndent
    let least := if s.indent < s.least && !isGap s.rest[1]? then s.indent else s.least
    { s with least, stage := .indicators }

def stepIndicators (s : Scan) : Scan :=
  match s.rest with
  | c :: rest =>
    if (c == '-' || c == '?' || c == ':') && isGap rest.head? then
      let s' := (s.push 1).pushBlanks
      { s' with least := s.indent + 1, indent := s.indent + (s.rest.length - s'.rest.length) }
    else { s with stage := .document }
  | [] => { s with stage := .document }

/-- The indentation that the header in front asks for, less one. -/
def headerDigit? : List Char → Option Nat → Option Nat
  | c :: rest, d =>
    if c == '+' || c == '-' then headerDigit? rest d
    else if '1' ≤ c && c ≤ '9' then headerDigit? rest (some (Number.digitValue c - 1))
    else d
  | [], d => d

def headerKeeps : List Char → Bool
  | c :: rest =>
    if c == '+' then true
    else if c == '-' || ('1' ≤ c && c ≤ '9') then headerKeeps rest
    else false
  | [] => false

def pushBlock (digit : Option Nat) (keeps : Bool) (s : Scan) : Scan :=
  let (indent, start) := leadingSpace 0 0 s.rest
  let deep := s.least ≤ indent
  let least := if !deep then s.least
    else match digit with
      | none => indent
      | some d => d + max 1 s.least
  let length := if deep then start + bodyLength least s.rest.length (s.rest.drop start) else start
  let after := (s.rest.drop length).dropWhile (· == ' ')
  let length :=
    if after.head? == some '\t' then
      s.rest.length - (after.dropWhile fun c => isGap (some c)).length
    else if keeps then length
    else
      let body := s.rest.take length
      let closed := body.getLast? == some '\n'
      let open_ := (if closed then body.dropLast else body).reverse
      let kept := dropBlankLines indent open_.length open_
      if kept.length < open_.length then kept.length + 1 else length
  { s.pushScalar length with least, stage := .lineStart }

def stepDocument (s : Scan) : Scan :=
  let s := s.pushBlanks
  let line := lineOf s.rest
  let s' := s.pushProperties s.rest.length
  let read := s.rest.length - s'.rest.length
  let s := s'
  if line.length ≤ read then { s.pushNewline with stage := .lineStart }
  else
    match s.rest with
    | '#' :: _ => { (s.push (line.length - read)).pushNewline with stage := .lineStart }
    | '\x7b' :: _ => { s.push 1 with stage := .flow, named := false, level := 1 }
    | '[' :: _ => { s.push 1 with stage := .flow, named := false, level := 1 }
    | '\x7d' :: _ => s.push 1
    | ']' :: _ => s.push 1
    | '*' :: rest => s.push (1 + anchorLength rest)
    | '\x22' :: _ => s.pushQuoted
    | '\x27' :: _ => s.pushQuoted
    | c :: rest =>
      if c == '|' || c == '>' then
        let header := rest.takeWhile fun c => !isGap (some c) && c != '#'
        let s' := (s.push (1 + header.length)).pushBlanks
        let read := read + (s.rest.length - s'.rest.length)
        (s'.push (line.length - read)).pushNewline.pushBlock
          (headerDigit? rest none) (headerKeeps rest)
      else s.pushPlain
    | [] => s

/-! ### Flow collections -/

/-- The state after the white space and line breaks in front, and whether there was a line
break. -/
def pushFlowSpace : Nat → Bool → Scan → Scan × Bool
  | 0, broken, s => (s, broken)
  | fuel + 1, broken, s =>
    let s₁ := s.pushNewline
    let isBroken := s₁.rest.length < s.rest.length
    let s₂ := (if isBroken then s₁.pushIndent else s₁).pushBlanks
    if s₂.rest.length < s.rest.length then pushFlowSpace fuel (broken || isBroken) s₂
    else (s₂, broken)

def pushCommas : Nat → Scan → Scan
  | 0, s => s
  | fuel + 1, s =>
    if s.rest.head? == some ',' then
      pushCommas fuel { (s.push 1).pushBlanks with named := false }
    else s

/-- True when the line is not indented enough for the flow collection; the last closing bracket may
stand at the indentation of what is around it. -/
def fallsShort (s : Scan) : Bool :=
  let closes := s.indent + 1 == s.least && s.level == 1
    && (s.rest.head? == some ']' || s.rest.head? == some '\x7d')
  ((s.indent < s.least && s.rest.head? != some '#') || (s.indent == 0 && isMarker s.rest)) && !closes

def stepFlow (s : Scan) : Scan :=
  let (s, broken) := pushFlowSpace s.rest.length false s
  if broken && s.fallsShort then { s.pushSign .flowBreak with level := 0, stage := .lineStart }
  else
    let line := lineOf s.rest
    let s' := pushCommas s.rest.length s
    let s' := s'.pushProperties s'.rest.length
    let read := s.rest.length - s'.rest.length
    let s := s'
    if line.length ≤ read then s
    else
      match s.rest with
      | '#' :: _ => s.push (line.length - read)
      | '\x7b' :: _ => { s.push 1 with named := false, level := s.level + 1 }
      | '[' :: _ => { s.push 1 with named := false, level := s.level + 1 }
      | '\x7d' :: _ => close s
      | ']' :: _ => close s
      | '*' :: rest => s.push (1 + anchorLength rest)
      | '\x22' :: _ => { s with named := true }.pushQuoted
      | '\x27' :: _ => { s with named := true }.pushQuoted
      | c :: rest =>
        if c == ':' && (s.named || isGap rest.head? || rest.head? == some ',') then
          { (s.push 1).pushBlanks with named := false }
        else { s with named := false }.pushPlain
      | [] => s
where
  /-- The state after a closing bracket. -/
  close (s : Scan) : Scan :=
    { s.push 1 with named := true, level := s.level - 1,
                    stage := if s.level ≤ 1 then .document else .flow }

/-! ### All -/

def step (s : Scan) : Scan :=
  match s.stage with
  | .stream => s.stepStream
  | .lineStart => s.stepLineStart
  | .indicators => s.stepIndicators
  | .document => s.stepDocument
  | .flow => s.stepFlow

def run : Nat → Scan → Scan
  | 0, s => s
  | fuel + 1, s => if s.rest.isEmpty then s else run fuel s.step

end Scan

/-- The lexemes of a document. No more than eight steps are taken for each character. -/
def lexemes (cs : List Char) : List Lexeme :=
  (Scan.run (8 * cs.length + 8) { rest := cs }).lexemes.reverse

end Walkthrough.Yaml
