import Walkthrough.Yaml.Flaw

/-!
# Trees of lexemes

A document is a tree whose leaves are lexemes in their places. Nothing of the text is lost in it:
white space and comments stay where they are, before a name, between a name and its value, or after
a scalar. What the parts of the tree mean, and whether they may stand where they do, is settled when
the tree is read as a node.

Entries are stored last first, because a tree grows at its last entry.
-/

namespace Walkthrough.Yaml

structure Piece where
  mark : Mark
  source : List Char
  /-- The number of units before it. -/
  offset : Nat
  /-- The indentation of its line up to it. -/
  indent : Nat
  deriving DecidableEq, Inhabited

namespace Piece

def length (p : Piece) : Nat :=
  Text.units p.source

def stop (p : Piece) : Nat :=
  p.offset + p.length

def isBlank (p : Piece) : Bool :=
  p.mark == .space || p.mark == .comment || p.mark == .newline

def complain (p : Piece) (f : Flaw) : Complaint :=
  ⟨f, p.offset, p.stop⟩

def has (m : Mark) (ps : List Piece) : Bool :=
  ps.any (·.mark == m)

end Piece

/-- An entry of a collection: the pieces in front, a name, the pieces between the name and the value,
which are there as soon as there is a name, and the value. The items of lists have values only. -/
structure Entry (α : Type) where
  start : List Piece := []
  /-- The entry begins with a question mark. -/
  explicit : Bool := false
  name : Option α := none
  between : Option (List Piece) := none
  value : Option α := none
  deriving Inhabited

inductive Tree
  /-- A piece that has no place in a tree. -/
  | stray (flaw : Flaw) (offset : Nat) (source : List Char)
  /-- An alias or a scalar in one piece, and the pieces after it. -/
  | scalar (p : Piece) (after : Option (List Piece))
  /-- A block scalar: its header, the pieces up to the end of the line, and its text. -/
  | block (indent : Nat) (header : Piece) (beside : List Piece) (text : List Char)
  | mapping (offset indent : Nat) (entries : List (Entry Tree))
  | list (offset indent : Nat) (entries : List (Entry Tree))
  /-- A flow collection: the opening bracket, the entries, and the pieces from the closing bracket
  on. -/
  | flow (indent : Nat) (opening : Piece) (entries : List (Entry Tree)) (after : List Piece)
  deriving Inhabited

namespace Entry

variable {α : Type}

/-- The entry with one more piece at its end, which comes before a value. -/
def push (e : Entry α) (p : Piece) : Entry α :=
  match e.between with
  | some ps => { e with between := some (ps ++ [p]) }
  | none => { e with start := e.start ++ [p] }

end Entry

namespace Tree

def offset : Tree → Nat
  | stray _ offset _ => offset
  | scalar p _ => p.offset
  | block _ header _ _ => header.offset
  | mapping offset _ _ => offset
  | list offset _ _ => offset
  | flow _ opening _ _ => opening.offset

def indent? : Tree → Option Nat
  | stray _ _ _ => none
  | scalar p _ => some p.indent
  | block indent _ _ _ => some indent
  | mapping _ indent _ => some indent
  | list _ indent _ => some indent
  | flow indent _ _ _ => some indent

def source : Tree → List Char
  | stray _ _ source => source
  | scalar p _ => p.source
  | block _ _ _ text => text
  | _ => []

def isBlockCollection : Tree → Bool
  | mapping _ _ _ => true
  | list _ _ _ => true
  | _ => false

def isFlow : Tree → Bool
  | scalar _ _ => true
  | flow _ _ _ _ => true
  | _ => false

def complain (t : Tree) (f : Flaw) : Complaint :=
  match t with
  | stray _ offset source => ⟨f, offset, offset + Text.units source⟩
  | scalar p _ => p.complain f
  | block _ header _ text => ⟨f, header.offset, header.offset + Text.units text⟩
  | t => f.at t.offset

/-! ## The pieces after a tree -/

def after? : Tree → Option (List Piece)
  | scalar _ after => after
  | flow _ _ _ after => some after
  | _ => none

def append (t : Tree) (ps : List Piece) : Tree :=
  match t with
  | scalar p after => scalar p (some (after.getD [] ++ ps))
  | flow indent opening entries after => flow indent opening entries (after ++ ps)
  | t => t

def endsInComment (t : Tree) : Bool :=
  (t.after?.bind (·.getLast?)).any (·.mark == .comment)

/-! ## Entries -/

/-- An entry of a flow list as the item that it is, unless it has a name of its own: what seemed to
be a name is then the value. -/
def settle (e : Entry Tree) : Entry Tree :=
  match e.between with
  | none => e
  | some ps =>
    if e.value.isSome || Piece.has .question e.start || Piece.has .colon ps then e
    else
      match e.name with
      | none => { e with start := e.start ++ ps, between := none }
      | some t =>
        if t.isFlow then { e with name := none, between := none, value := some (t.append ps) }
        else { e with start := e.start ++ ps, name := none, between := none, value := some t }

def settled : Tree → Tree
  | flow indent opening entries after =>
    flow indent opening
      (if opening.mark == .listStart then entries.map settle else entries) after
  | t => t

/-- A tree as part of a collection with the given indentation, or of the document. A block scalar
takes its indentation from what is around it. -/
def within (outer : Option Nat) : Tree → Tree
  | block _ header beside text => block (outer.getD 0) header beside text
  | flow indent opening entries after =>
    settled (flow (if outer.isNone then 0 else indent) opening entries after)
  | t => t

/-- The white space and comments at the end of a block collection that belong to what is around it,
and the collection without them. -/
def splitEnd? (t : Tree) : Option (List Piece × Tree) :=
  let ends (indent : Nat) (e : Entry Tree) : Bool :=
    e.between.isNone && e.value.isNone && !e.start.isEmpty && e.start.all Piece.isBlank
      && (indent = 0 || e.start.all fun p => p.mark != .comment || p.indent < indent)
  match t with
  | mapping offset indent (e :: entries) =>
    if ends indent e then some (e.start, mapping offset indent entries) else none
  | list offset indent (e :: entries) =>
    if ends indent e then some (e.start, list offset indent entries) else none
  | _ => none

end Tree

end Walkthrough.Yaml
