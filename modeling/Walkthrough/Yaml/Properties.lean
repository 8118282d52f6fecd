import Walkthrough.Yaml.Tree

/-!
# Properties of nodes

The pieces in front of a node or after an indicator are white space, comments, the indicator itself,
and the properties of the node: an anchor and a tag. `Properties.read` takes them in order, each
where it may stand, and tells what they say.
-/

namespace Walkthrough.Yaml

/-! ## Comments -/

def commentText (p : Piece) : List Char :=
  match p.source.drop 1 with
  | [] => [' ']
  | cs => cs

def joinComments (a b : List Char) : List Char :=
  if b.isEmpty then a else if a.isEmpty then b else a ++ '\n' :: b

/-- What the pieces after a node say: the comment, and the place after them. -/
structure Tail where
  comment : List Char
  stop : Nat
  deriving Inhabited

namespace Tail

/-- Reads the pieces from `place` on. A comment needs white space in front if `strict` says so.
`spaced` says that there has been some, and `gap` holds the line breaks since the last comment. -/
def readFrom (strict spaced : Bool) (gap comment : List Char) (place : Nat) :
    List Piece → Except Complaint Tail
  | [] => .ok ⟨comment, place⟩
  | p :: rest =>
    let next := place + p.length
    match p.mark with
    | .space => readFrom strict true gap comment next rest
    | .comment =>
      if strict && !spaced then .error (p.complain .commentTouches)
      else
        let text := commentText p
        let comment := if comment.isEmpty then text else comment ++ gap ++ text
        readFrom strict spaced [] comment next rest
    | .newline =>
      readFrom strict true (if comment.isEmpty then gap else gap ++ p.source) comment next rest
    | m => .error (p.complain (.lexemeAfter m))

def read (strict : Bool) (place : Nat) (ps : List Piece) : Except Complaint Tail :=
  readFrom strict false [] [] place ps

end Tail

/-! ## Properties -/

structure Follower where
  offset : Nat
  /-- It may come right after a property. -/
  separates : Bool
  isFlowCollection : Bool
  isBlockCollection : Bool
  deriving Inhabited

def Piece.follower (p : Piece) : Follower :=
  ⟨p.offset, p.mark == .space || p.mark == .newline || p.mark == .comma, false, false⟩

def Tree.follower (t : Tree) : Follower :=
  let isEmpty : Bool := match t with
    | scalar p _ => p.mark == .scalar && p.source.isEmpty
    | _ => false
  let isFlowCollection : Bool := match t with
    | flow _ _ _ _ => true
    | _ => false
  ⟨t.offset, isEmpty, isFlowCollection, t.isBlockCollection⟩

structure Position where
  /-- The flow collection around them. -/
  inside : Option Bracket := none
  /-- The indicator that can stand among them. -/
  indicator : Mark
  follower : Option Follower
  /-- The place of the first piece. -/
  offset : Nat
  /-- The indentation of the collection around them. -/
  outer : Nat
  /-- They begin a line. -/
  fresh : Bool

structure Properties where
  comma : Option Piece := none
  /-- The indicator. -/
  found : Option Piece := none
  /-- There is a blank line. -/
  spaced : Bool := false
  comment : List Char := []
  /-- There is a line break. -/
  broken : Bool := false
  anchor : Option Piece := none
  tag : Option Piece := none
  /-- The last line break after a property. -/
  breakAfter : Option Piece := none
  /-- The place of the first property, or else the place after all. -/
  start : Nat := 0
  /-- The place after all. -/
  stop : Nat := 0
  deriving Inhabited

namespace Properties

structure State where
  got : Properties := {}
  /-- Nothing has been read of the line but white space and what counts into its indentation. -/
  fresh : Bool
  /-- There is white space in front. -/
  apart : Bool
  /-- The line breaks since the last comment. -/
  gap : List Char := []
  /-- A property has just been read. -/
  touching : Bool := false
  /-- White space with a tab has just been read. -/
  tab : Option Piece := none

def State.property (s : State) (got : Properties) : State :=
  { s with got, fresh := false, apart := false, touching := true }

def step (at_ : Position) (s : State) (p : Piece) : Except Complaint State := do
  let blankOrComma := p.mark == .space || p.mark == .newline || p.mark == .comma
  if s.touching && !blankOrComma then throw (Flaw.propertyTouches.at p.offset)
  let s := { s with touching := false }
  if let some tab := s.tab then
    if s.fresh && p.mark != .comment && p.mark != .newline then
      throw (tab.complain .tabInIndentation)
  let s := { s with tab := none }
  let got := s.got
  let other : Except Complaint State := throw (p.complain (.lexemeBefore p.mark))
  match p.mark with
  | .space =>
    let mayIndent := at_.inside.isNone && p.source.contains '\t'
      && (at_.indicator != .documentStart || !(at_.follower.any Follower.isFlowCollection))
    return { s with tab := if mayIndent then some p else none, apart := true }
  | .comment =>
    if !s.apart then throw (p.complain .commentTouches)
    let text := commentText p
    let comment := if got.comment.isEmpty then text else got.comment ++ s.gap ++ text
    return { s with got := { got with comment }, gap := [], fresh := false }
  | .newline =>
    let blank := s.fresh && got.comment.isEmpty
    let comment := if s.fresh && !got.comment.isEmpty then got.comment ++ p.source else got.comment
    let spaced := got.spaced || (blank && (got.found.isNone || at_.indicator != .dash))
    let hasProperty := got.anchor.isSome || got.tag.isSome
    let got := { got with comment, spaced, broken := true
                          breakAfter := if hasProperty then some p else got.breakAfter }
    return { s with got, gap := if s.fresh then s.gap else s.gap ++ p.source, fresh := true
                    apart := true }
  | .anchor =>
    if got.anchor.isSome then throw (p.complain .secondAnchor)
    let start := if got.tag.isSome then got.start else p.offset
    return s.property { got with anchor := some p, start }
  | .tag =>
    if got.tag.isSome then throw (p.complain .secondTag)
    let start := if got.anchor.isSome then got.start else p.offset
    return s.property { got with tag := some p, start }
  | m =>
    if m == at_.indicator then
      if got.anchor.isSome || got.tag.isSome then
        throw (p.complain (.propertyBefore (String.ofList p.source)))
      if got.found.isSome then
        let place := (at_.inside.map Bracket.name).getD "collection"
        throw (p.complain (.unexpected (String.ofList p.source) place))
      return { s with got := { got with found := some p }, apart := false
                      fresh := at_.indicator == .dash || at_.indicator == .question }
    else
      match m, at_.inside with
      | .comma, some b =>
        if got.comma.isSome then throw (p.complain (.unexpected "," b.name))
        return { s with got := { got with comma := some p }, fresh := false, apart := false }
      | _, _ => other

def read (at_ : Position) (ps : List Piece) : Except Complaint Properties := do
  let s ← ps.foldlM (step at_) { fresh := at_.fresh, apart := at_.fresh }
  if let some f := at_.follower then
    if s.touching && !f.separates then throw (Flaw.propertyTouches.at f.offset)
  if let some tab := s.tab then
    if (s.fresh && tab.indent ≤ at_.outer) || at_.follower.any Follower.isBlockCollection then
      throw (tab.complain .tabInIndentation)
  let stop := match ps.getLast? with
    | some p => p.stop
    | none => at_.offset
  let hasProperty := s.got.anchor.isSome || s.got.tag.isSome
  return { s.got with start := if hasProperty then s.got.start else stop, stop }

end Properties

end Walkthrough.Yaml
