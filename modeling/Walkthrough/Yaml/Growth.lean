import Walkthrough.Yaml.Scan
import Walkthrough.Yaml.Tree

/-!
# From lexemes to trees

Trees grow lexeme by lexeme. A stack holds the trees that are still open, the innermost first; a
lexeme is added to the first of them, or closes it and is then tried on the next. Block collections
are told apart by the indentation of their first lexeme.

A name is recognised by the colon after it: the scalar or flow collection that has just been read
then becomes the name of the first entry of a new mapping, and the properties that have been read
before it move along.

`outline` gives the documents and what is between them, in order, and the places at which lines
begin.
-/

namespace Walkthrough.Yaml

inductive Part
  | directive (offset : Nat) (source : List Char)
  /-- A piece that has no place in a document. -/
  | stray (c : Complaint)
  | document (offset : Nat) (start : List Piece) (body : Option Tree) (after : List Piece)
  /-- A line that ends a document. -/
  | ending (offset : Nat) (after : List Piece)
  deriving Inhabited

/-- A part of a text that is still open. -/
inductive Frame
  | document (offset : Nat) (start : List Piece) (body : Option Tree) (after : List Piece)
  | ending (offset : Nat) (after : List Piece)
  | tree (t : Tree)
  deriving Inhabited

structure Growth where
  /-- The place of the next lexeme. -/
  offset : Nat := 0
  /-- The indentation of the line so far. -/
  indent : Nat := 0
  /-- Nothing but white space and indicators has been read of the line. -/
  fresh : Bool := true
  /-- The line has the name of an entry. -/
  named : Bool := false
  /-- What is open, the innermost first. -/
  stack : List Frame := []
  /-- The parts that are closed, the last one first. -/
  parts : List Part := []
  /-- The places at which lines begin, the last one first. -/
  lines : List Nat := [0]
  deriving Inhabited

/-! ## Properties in front of a name -/

/-- The pieces in front of a name that do not belong to it, and those that do: no more than stand on
its line after an indicator. -/
def splitNameStart (ps : List Piece) : List Piece × List Piece :=
  let stops (p : Piece) : Bool :=
    p.mark == .documentStart || p.mark == .question || p.mark == .colon || p.mark == .dash
      || p.mark == .newline
  let own := (ps.reverse.takeWhile fun p => !stops p).reverse
  let own := own.dropWhile (·.mark == .space)
  (ps.take (ps.length - own.length), own)

namespace Entry

def takeNameStart (e : Entry Tree) : List Piece × Entry Tree :=
  match e.between with
  | some ps =>
    let (kept, own) := splitNameStart ps
    (own, { e with between := some kept })
  | none =>
    let (kept, own) := splitNameStart e.start
    (own, { e with start := kept })

end Entry

namespace Frame

def takeNameStart : Frame → List Piece × Frame
  | document offset start body after =>
    let (kept, own) := splitNameStart start
    (own, document offset kept body after)
  | tree (.mapping offset indent (e :: entries)) =>
    let (own, e) := e.takeNameStart
    (own, tree (.mapping offset indent (e :: entries)))
  | tree (.list offset indent (e :: entries)) =>
    let (kept, own) := splitNameStart e.start
    (own, tree (.list offset indent ({ e with start := kept } :: entries)))
  | f => ([], f)

def isFlow : Frame → Bool
  | tree (.flow _ _ _ _) => true
  | _ => false

end Frame

namespace Growth

/-! ## Closing -/

def emit (p : Part) (s : Growth) : Growth :=
  { s with parts := p :: s.parts }

def open_ (f : Frame) (s : Growth) : Growth :=
  { s with stack := f :: s.stack }

/-- The entry of a collection that a new tree belongs to, and what else becomes of the entries:
a value if there is a name, else a name. -/
def addNamed (t : Tree) : List (Entry Tree) → List (Entry Tree)
  | [] => [{ name := some t, between := some [] }]
  | e :: entries =>
    if e.value.isSome then { name := some t, between := some [] } :: e :: entries
    else if e.between.isSome then { e with value := some t } :: entries
    else { e with name := some t, between := some [] } :: entries

def trailing (ps : List Piece) : List (Entry Tree) :=
  if ps.isEmpty then [] else [{ start := ps }]

/-- Adds a tree to the innermost collection or document. White space and comments at the end of a
block collection that becomes a value go with it to what is around it. -/
def add (t : Tree) (s : Growth) : Growth :=
  match s.stack with
  | .document offset start _ after :: rest =>
    match (t.within none).splitEnd? with
    | some (ps, t) => { s with stack := .document offset start (some t) ps :: rest }
    | none => { s with stack := .document offset start (some (t.within none)) after :: rest }
  | .tree (.block indent header beside text) :: rest =>
    let p : Piece := ⟨.foreign, t.source, t.offset, 0⟩
    { s with stack := .tree (.block indent header (beside ++ [p]) text) :: rest }
  | .tree (.mapping offset indent (e :: entries)) :: rest =>
    let t := t.within (some indent)
    let put (named : Bool) (entries : List (Entry Tree)) : Growth :=
      { s with named, stack := .tree (.mapping offset indent entries) :: rest }
    if e.value.isSome then put true (addNamed t (e :: entries))
    else if e.between.isNone then put (!e.explicit) (addNamed t (e :: entries))
    else
      let (ps, t) := t.splitEnd?.getD ([], t)
      put s.named (trailing ps ++ addNamed t (e :: entries))
  | .tree (.list offset indent (e :: entries)) :: rest =>
    let (ps, t) := (t.within (some indent)).splitEnd?.getD ([], t.within (some indent))
    let entries :=
      if e.value.isSome then { value := some t } :: e :: entries
      else { e with value := some t } :: entries
    { s with stack := .tree (.list offset indent (trailing ps ++ entries)) :: rest }
  | .tree (.flow indent opening entries after) :: rest =>
    let t := t.within (some indent)
    { s with stack := .tree (.flow indent opening (addNamed t entries) after) :: rest }
  | _ => s

def pop (s : Growth) : Growth :=
  match s.stack with
  | [] => s
  | .document offset start body after :: rest =>
    { s with stack := rest }.emit (.document offset start body after)
  | .ending offset after :: rest => { s with stack := rest }.emit (.ending offset after)
  | .tree t :: rest => { s with stack := rest }.add t

def popAll : Nat → Growth → Growth
  | 0, s => s
  | fuel + 1, s => if s.stack.isEmpty then s else popAll fuel s.pop

def addStray (flaw : Flaw) (source : List Char) (s : Growth) : Growth :=
  let t := Tree.stray flaw s.offset source
  match s.stack with
  | [] => s.emit (.stray (t.complain (.foreignBetween (String.ofList source))))
  | .ending _ _ :: _ =>
    s.pop.emit (.stray (t.complain (.foreignBetween (String.ofList source))))
  | .tree (.scalar _ _) :: _ => s.pop.add t
  | _ => s.add t

/-! ## Lines -/

def breaksOf (offset : Nat) : List Char → List Nat
  | [] => []
  | c :: rest =>
    let next := offset + Text.unitsOf c
    if c == '\n' then next :: breaksOf next rest else breaksOf next rest

def record (x : Piece) (s : Growth) : Growth :=
  { s with lines := (breaksOf x.offset x.source).reverse ++ s.lines }

/-! ## Steps

`next` closes the innermost frame and tries the lexeme on the next one. -/

/-- What a lexeme opens, if it opens anything. The innermost frame gives the start of a name. -/
def opening? (x : Piece) (s : Growth) : Option (Tree × Growth) :=
  let named (first : List Piece → Entry Tree) : Option (Tree × Growth) :=
    match s.stack with
    | [] => none
    | f :: rest =>
      let (own, f) := f.takeNameStart
      some (.mapping x.offset s.indent [first own], { s with named := true, stack := f :: rest })
  match x.mark with
  | .reference | .scalar | .single | .double => some (.scalar x none, s.record x)
  | .header => some (.block s.indent x [] [], s)
  | .mappingStart | .listStart => some (.flow s.indent x [] [], s)
  | .dash => some (.list x.offset s.indent [{ start := [x] }], s)
  | .question => named fun own => { start := own ++ [x], explicit := true }
  | .colon => named fun own => { start := own, between := some [x] }
  | _ => none

def stepBetween (x : Piece) (s : Growth) : Growth :=
  match x.mark with
  | .directive => s.emit (.directive x.offset x.source)
  | .byteOrder | .space | .comment | .newline => s
  | .documentMode => s.open_ (.document x.offset [] none [])
  | .documentStart => s.open_ (.document x.offset [x] none [])
  | m => s.emit (.stray (x.complain (.lexemeBetween m (String.ofList x.source))))

/-- A step after a node; `added` is the state with the piece after the node. -/
def stepAfter (next : Growth → Growth) (x : Piece) (added s : Growth) : Growth :=
  match x.mark with
  | .comma | .documentStart | .documentEnd | .listEnd | .mappingEnd | .colon => next s
  | .newline => { added with named := false }.pop
  | _ => added

def stepDocument (next : Growth → Growth) (x : Piece) (offset : Nat) (start : List Piece)
    (body : Option Tree) (after : List Piece) (rest : List Frame) (s : Growth) : Growth :=
  let started := { s with stack := .document offset (start ++ [x]) body after :: rest }
  if body.isSome then
    stepAfter next x { s with stack := .document offset start body (after ++ [x]) :: rest } s
  else
    match x.mark with
    | .documentStart => if start.all Piece.isBlank then started else next s
    | .anchor | .tag | .space | .comment | .newline => started
    | m =>
      match s.opening? x with
      | some (t, s) => s.open_ (.tree t)
      | none => s.emit (.stray (x.complain (.lexemeInDocument m (String.ofList x.source))))

/-- A step after a scalar. A colon makes it a name. -/
def stepScalar (next : Growth → Growth) (x p : Piece) (after : Option (List Piece))
    (rest : List Frame) (s : Growth) : Growth :=
  match x.mark, rest with
  | .colon, f :: rest =>
    let (own, f) := f.takeNameStart
    let e : Entry Tree :=
      { start := own, name := some (.scalar p none), between := some (after.getD [] ++ [x]) }
    { s with named := true, stack := .tree (.mapping p.offset p.indent [e]) :: f :: rest }
  | _, _ =>
    stepAfter next x
      { s with stack := .tree (.scalar p (some (after.getD [] ++ [x]))) :: rest } s

def stepBlock (next : Growth → Growth) (x : Piece) (indent : Nat) (header : Piece)
    (beside : List Piece) (text : List Char) (rest : List Frame) (s : Growth) : Growth :=
  match x.mark with
  | .space | .comment | .newline =>
    { s with stack := .tree (.block indent header (beside ++ [x]) text) :: rest }
  | .scalar =>
    let s := { s with stack := .tree (.block indent header beside x.source) :: rest }
    { s.record x with fresh := true, indent := 0 }.pop
  | _ => next s

/-- Entries with a blank piece or a comment added that stands on a line of its own: behind the last
value if it is indented further than the collection and that value can take it. -/
def addOwnLine (x : Piece) (indent : Nat) (e : Entry Tree) (entries : List (Entry Tree)) :
    List (Entry Tree) :=
  let further := x.mark == .comment && indent < x.indent
    && e.start.all fun p => p.mark == .newline || p.mark == .space
  match further, entries with
  | true, previous :: more =>
    match previous.value with
    | some v =>
      if v.after?.isSome then
        { previous with value := some (v.append (e.start ++ [x])) } :: more
      else { e with start := e.start ++ [x] } :: entries
    | none => { e with start := e.start ++ [x] } :: entries
  | _, _ => { e with start := e.start ++ [x] } :: entries

/-- Entries with a line break added behind a value, which opens a new entry unless the value ends in
a comment. -/
def addBreak (x : Piece) (e : Entry Tree) (v : Tree) (entries : List (Entry Tree)) :
    List (Entry Tree) :=
  if v.endsInComment then { e with value := some (v.append [x]) } :: entries
  else { start := [x] } :: e :: entries

/-- Splits the pieces in front of an empty value: those from the second line break on, if nothing but
white space and comments with little indentation follows the first one, belong to what comes next. -/
def splitEmpty (indent : Nat) (ps : List Piece) : List Piece × List Piece :=
  let rec breaks (i : Nat) (found : List Nat) : List Piece → List Nat
    | [] => found.reverse
    | p :: rest =>
      match p.mark with
      | .newline => breaks (i + 1) (i :: found) rest
      | .space => breaks (i + 1) found rest
      | .comment => breaks (i + 1) (if indent < p.indent then [] else found) rest
      | _ => breaks (i + 1) [] rest
  match breaks 0 [] ps with
  | _ :: i :: _ => (ps.take i, ps.drop i)
  | _ => (ps, [])

def stepMapping (next : Growth → Growth) (x : Piece) (offset indent : Nat) (e : Entry Tree)
    (entries : List (Entry Tree)) (rest : List Frame) (s : Growth) : Growth :=
  let put (entries : List (Entry Tree)) (s : Growth) : Growth :=
    { s with stack := .tree (.mapping offset indent entries) :: rest }
  match x.mark with
  | .newline =>
    let s := { s with named := false }
    match e.value with
    | some v => put (addBreak x e v entries) s
    | none => put (e.push x :: entries) s
  | .space | .comment =>
    if e.value.isSome then put ({ start := [x] } :: e :: entries) s
    else if e.between.isSome then put (e.push x :: entries) s
    else put (addOwnLine x indent e entries) s
  | m =>
    if s.indent < indent then next s
    else
      let atIndent := !s.named && s.indent == indent
      let atNext := atIndent && (e.between.isSome || e.explicit) && m != .dash
      let (e, start) : Entry Tree × List Piece :=
        match atNext && e.value.isNone, e.between with
        | true, some ps =>
          let (kept, moved) := splitEmpty indent ps
          ({ e with between := some kept }, moved)
        | _, _ => (e, [])
      let follows := atNext || e.value.isSome
      let nested (e' : Entry Tree) (s : Growth) : Growth :=
        s.open_ (.tree (.mapping x.offset s.indent [e']))
      match m with
      | .anchor | .tag =>
        if follows then put ({ start := start ++ [x] } :: e :: entries) { s with named := true }
        else put (e.push x :: entries) s
      | .question =>
        let s := { s with named := true }
        if e.between.isNone && !e.explicit then
          put ({ e with start := e.start ++ [x], explicit := true } :: entries) s
        else if follows then
          put ({ start := start ++ [x], explicit := true } :: e :: entries) s
        else nested { start := [x], explicit := true } (put (e :: entries) s)
      | .colon =>
        let s := { s with named := true }
        match e.explicit, e.between with
        | true, none =>
          if Piece.has .newline e.start then put ({ e with between := some [x] } :: entries) s
          else
            let (kept, own) := splitNameStart e.start
            nested { start := own, between := some [x] }
              (put ({ e with start := kept } :: entries) s)
        | true, some ps =>
          if e.value.isSome then put ({ between := some [x] } :: e :: entries) s
          else if Piece.has .colon ps then
            nested { start, between := some [x] } (put (e :: entries) s)
          else if (e.name.any Tree.isFlow) && !Piece.has .newline ps then
            let (kept, own) := splitNameStart e.start
            nested { start := own, name := e.name, between := some (ps ++ [x]) }
              (put ({ e with start := kept, name := none, between := none } :: entries) s)
          else put ({ e with between := some (ps ++ start ++ [x]) } :: entries) s
        | false, none => put ({ e with between := some [x] } :: entries) s
        | false, some ps =>
          if follows then put ({ start, between := some [x] } :: e :: entries) s
          else if Piece.has .colon ps then nested { between := some [x] } (put (e :: entries) s)
          else put ({ e with between := some (ps ++ [x]) } :: entries) s
      | .reference | .scalar | .single | .double =>
        let s := s.record x
        let t := Tree.scalar x none
        if follows then
          put ({ start, name := some t, between := some [] } :: e :: entries)
            { s with named := true }
        else if e.between.isSome then (put (e :: entries) s).open_ (.tree t)
        else
          put ({ e with name := some t, between := some [] } :: entries) { s with named := true }
      | _ =>
        match (put (e :: entries) s).opening? x with
        | some (.list o i items, s) =>
          if !e.explicit && e.between.any fun ps => !Piece.has .newline ps then
            s.addStray .itemBesideName x.source
          else s.open_ (.tree (.list o i items))
        | some (t, s) =>
          (if atIndent then put ({ start } :: e :: entries) s else s).open_ (.tree t)
        | none => next (put (e :: entries) s)

def stepList (next : Growth → Growth) (x : Piece) (offset indent : Nat) (e : Entry Tree)
    (entries : List (Entry Tree)) (rest : List Frame) (s : Growth) : Growth :=
  let put (entries : List (Entry Tree)) (s : Growth) : Growth :=
    { s with stack := .tree (.list offset indent entries) :: rest }
  let started := put ({ e with start := e.start ++ [x] } :: entries) s
  let opened : Growth :=
    if indent < s.indent then
      match s.opening? x with
      | some (t, s) => s.open_ (.tree t)
      | none => next s
    else next s
  match x.mark with
  | .newline =>
    match e.value with
    | some v => put (addBreak x e v entries) s
    | none => started
  | .space | .comment =>
    if e.value.isSome then put ({ start := [x] } :: e :: entries) s
    else put (addOwnLine x indent e entries) s
  | .anchor | .tag => if e.value.isSome || s.indent ≤ indent then opened else started
  | .dash =>
    if s.indent != indent then opened
    else if e.value.isSome || Piece.has .dash e.start then
      put ({ start := [x] } :: e :: entries) s
    else started
  | _ => opened

def popFlows : Nat → Growth → Growth
  | 0, s => s
  | fuel + 1, s =>
    let s := s.pop
    if (s.stack.head?.map Frame.isFlow).getD false then popFlows fuel s else s

def stepFlow (next : Growth → Growth) (x : Piece) (indent : Nat) (bracket : Piece)
    (entries : List (Entry Tree)) (rest : List Frame) (s : Growth) : Growth :=
  let put (entries : List (Entry Tree)) (s : Growth) : Growth :=
    { s with stack := .tree (.flow indent bracket entries []) :: rest }
  match x.mark with
  | .comma | .question =>
    match entries with
    | e :: more =>
      if e.between.isSome then put ({ start := [x] } :: entries) s
      else put ({ e with start := e.start ++ [x] } :: more) s
    | [] => put [{ start := [x] }] s
  | .colon =>
    match entries with
    | e :: more =>
      if e.value.isSome then put ({ between := some [x] } :: entries) s
      else put ({ e with between := some (e.between.getD [] ++ [x]) } :: more) s
    | [] => put [{ between := some [x] }] s
  | .space | .comment | .newline | .anchor | .tag =>
    match entries with
    | e :: more =>
      if e.value.isSome then put ({ start := [x] } :: entries) s else put (e.push x :: more) s
    | [] => put [{ start := [x] }] s
  | .reference | .scalar | .single | .double =>
    let s := s.record x
    let t := Tree.scalar x none
    match entries with
    | e :: more =>
      if e.value.isSome then put ({ name := some t, between := some [] } :: entries) s
      else if e.between.isSome then s.open_ (.tree t)
      else put ({ e with name := some t, between := some [] } :: more) s
    | [] => put [{ name := some t, between := some [] }] s
  | .mappingEnd | .listEnd => { s with stack := .tree (.flow indent bracket entries [x]) :: rest }
  | _ =>
    match s.opening? x with
    | some (t, s) => s.open_ (.tree t)
    | none => next s

/-- A step after a flow collection. A colon makes it a name, unless it is inside of another flow
collection. -/
def stepClosed (next : Growth → Growth) (x : Piece) (indent : Nat) (bracket : Piece)
    (entries : List (Entry Tree)) (after : List Piece) (rest : List Frame) (s : Growth) : Growth :=
  let closes : Bool := match rest.head? with
    | some (.tree (.mapping _ i entries)) =>
      (x.mark == .colon && i == indent)
        || (x.mark == .newline && (entries.head?.bind (·.between)).isNone)
    | _ => false
  if closes then next s
  else
    match x.mark, rest with
    | .colon, f :: below =>
      if f.isFlow then next s
      else
        let (own, f) := f.takeNameStart
        let t := Tree.settled (.flow indent bracket entries (after.take 1))
        let e : Entry Tree :=
          { start := own, name := some t, between := some (after.drop 1 ++ [x]) }
        { s with named := true, stack := .tree (.mapping bracket.offset indent [e]) :: f :: below }
    | _, _ =>
      stepAfter next x
        { s with stack := .tree (.flow indent bracket entries (after ++ [x])) :: rest } s

/-- Adds a lexeme, trying at most `fuel` frames. -/
def step (x : Piece) : Nat → Growth → Growth
  | 0, s => s
  | fuel + 1, s =>
    let next (s : Growth) : Growth := step x fuel s.pop
    let ends : Bool := match s.stack with
      | .ending _ _ :: _ => false
      | _ => x.mark == .documentEnd
    if ends then (popAll s.stack.length s).open_ (.ending x.offset [])
    else
      match s.stack with
      | [] => s.stepBetween x
      | .document offset start body after :: rest =>
        s.stepDocument next x offset start body after rest
      | .ending offset after :: rest =>
        if x.mark == .documentMode then s
        else
          let s := { s with stack := .ending offset (after ++ [x]) :: rest }
          if x.mark == .newline then s.pop else s
      | .tree (.scalar p after) :: rest => s.stepScalar next x p after rest
      | .tree (.block indent header beside text) :: rest =>
        s.stepBlock next x indent header beside text rest
      | .tree (.mapping offset indent (e :: entries)) :: rest =>
        s.stepMapping next x offset indent e entries rest
      | .tree (.list offset indent (e :: entries)) :: rest =>
        s.stepList next x offset indent e entries rest
      | .tree (.flow indent bracket entries after) :: rest =>
        if x.mark == .flowBreak then popFlows s.stack.length s
        else if after.isEmpty then s.stepFlow next x indent bracket entries rest
        else s.stepClosed next x indent bracket entries after rest
      | .tree _ :: _ => s.pop

def addLexeme (s : Growth) (x : Lexeme) : Growth :=
  let p : Piece := ⟨x.mark, x.source, s.offset, s.indent⟩
  let after := s.offset + Text.units x.source
  match x.mark with
  | .foreign =>
    { s.addStray (.foreign (String.ofList x.source)) x.source with offset := after }
  | .scalar =>
    { step p (s.stack.length + 2) { s with fresh := false } with offset := after }
  | m =>
    let s := step p (s.stack.length + 2) s
    match m with
    | .newline => { s with fresh := true, indent := 0, lines := after :: s.lines, offset := after }
    | .space =>
      let deeper := s.fresh && x.source.head? == some ' '
      { s with indent := if deeper then s.indent + Text.units x.source else s.indent
               offset := after }
    | .question | .colon | .dash =>
      { s with indent := if s.fresh then s.indent + 1 else s.indent, offset := after }
    | .documentMode | .flowBreak => s
    | _ => { s with fresh := false, offset := after }

end Growth

/-- The parts of a text, and the places at which its lines begin. -/
def outline (cs : List Char) : List Part × List Nat :=
  let s := (lexemes cs).foldl Growth.addLexeme {}
  let s := Growth.popAll (s.stack.length + 1) s
  (s.parts.reverse, s.lines.reverse)

end Walkthrough.Yaml
