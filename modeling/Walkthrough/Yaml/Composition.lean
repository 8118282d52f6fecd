import Walkthrough.Yaml.Block
import Walkthrough.Yaml.Growth
import Walkthrough.Yaml.Node
import Walkthrough.Yaml.Properties

/-!
# From trees to nodes

A tree of lexemes is read as a node from its first lexeme to its last. The first thing that has no
place ends the reading with a complaint.

The entries of a collection are stored last first, so that each of them is read after those that
follow it in the list.
-/

namespace Walkthrough.Yaml

/-- A node in its place: where it begins, where its content ends, and where what stands behind it
ends. -/
structure Placed where
  node : Node
  first : Nat
  contentStop : Nat
  stop : Nat
  deriving Inhabited

/-- What is known around a node. -/
structure Around where
  handles : Handles
  /-- The node is the document. -/
  isRoot : Bool

namespace Around

def inner (c : Around) : Around :=
  { c with isRoot := false }

end Around

/-! ## Notes -/

def anchorName? (p : Properties) : Except Complaint (Option String) :=
  match p.anchor with
  | none => .ok none
  | some a =>
    if a.source.length ≤ 1 then .error (a.complain .emptyAnchor)
    else .ok (some (String.ofList (a.source.drop 1)))

/-- The full tag. An empty one counts as none. -/
def fullTag? (c : Around) (p : Properties) : Except Complaint (Option String) :=
  match p.tag with
  | none => .ok none
  | some t => (c.handles.resolve t).map fun tag => if tag.isEmpty then none else some tag

/-- The full tag of a list or a mapping. The bare tag `!` stands for the common tag with the given
name. -/
def collectionTag? (c : Around) (p : Properties) (name : String) :
    Except Complaint (Option String) :=
  (fullTag? c p).map fun tag => if tag == some "!" then some (commonTag ++ name) else tag

/-! ## Scalars -/

/-- The place of an empty scalar behind some pieces: right after the last one that is neither white
space nor a comment, and the spaces that follow it. -/
def emptyPlace (place : Nat) (before : List Piece) : Nat :=
  let blanks := (before.reverse.takeWhile Piece.isBlank).reverse
  if blanks.length = before.length then place - Text.sumOf Piece.length blanks
  else
    let spaces := blanks.takeWhile (·.mark == .space)
    place - Text.sumOf Piece.length blanks + Text.sumOf Piece.length spaces

def readEmpty (c : Around) (place : Nat) (before : List Piece) (p : Properties) :
    Except Complaint Placed := do
  let place := emptyPlace place before
  let tag ← fullTag? c p
  let anchor ← anchorName? p
  let notes : Notes := { spaced := p.spaced, comment := p.comment, anchor, tag }
  return ⟨.scalar notes .plain "" (scalarValue tag true ""), place, place,
    if p.comment.isEmpty then place else p.stop⟩

/-- The node of a scalar whose text has been decoded. -/
def finishScalar (c : Around) (p : Properties) (style : Style) (text : List Char)
    (before comment : List Char) : Except Complaint Node := do
  let tag ← fullTag? c p
  let anchor ← anchorName? p
  let text := String.ofList text
  let notes : Notes := { spaced := p.spaced, before, comment, anchor, tag }
  return .scalar notes style text (scalarValue tag (style == .plain) text)

def readScalar (c : Around) (p : Properties) (x : Piece) (after : List Piece) :
    Except Complaint Placed := do
  let node (style : Style) (text : List Char) : Except Complaint Placed := do
    let tail ← Tail.read true x.stop after
    let isEmpty := x.mark == .scalar && x.source.isEmpty
    let before := if isEmpty then [] else p.comment
    let comment := if isEmpty && !p.comment.isEmpty then p.comment else tail.comment
    let n ← finishScalar c p style text before comment
    return ⟨n, x.offset, x.stop, tail.stop⟩
  match x.mark with
  | .reference =>
    if x.source.length ≤ 1 then throw (Flaw.emptyAlias.at x.offset)
    let tail ← Tail.read true x.stop after
    if p.anchor.isSome || p.tag.isSome then throw (x.complain .aliasWithProperties)
    let notes : Notes := { spaced := p.spaced, before := p.comment, comment := tail.comment }
    return ⟨.reference notes (String.ofList (x.source.drop 1)), x.offset, x.stop, tail.stop⟩
  | .single => node .single (← decodeSingle x)
  | .double => node .double (← decodeDouble x)
  | _ => node .plain (← decodePlain x)

/-! ## Collections -/

mutual

def goesOverLines : Tree → Bool
  | .scalar p after =>
    p.source.contains '\n' || (after.getD []).any (·.mark == .newline)
  | .flow _ _ entries _ => entriesGoOverLines entries
  | _ => true

def entriesGoOverLines : List (Entry Tree) → Bool
  | [] => false
  | ⟨start, _, name, between, value⟩ :: rest =>
    Piece.has .newline start || Piece.has .newline (between.getD []) || partGoesOverLines name
      || partGoesOverLines value || entriesGoOverLines rest

def partGoesOverLines : Option Tree → Bool
  | none => false
  | some t => goesOverLines t

end

/-- Entries or items that have been read, the last one first. -/
structure Reading (α : Type) where
  /-- The place after the last one. -/
  stop : Nat
  /-- The place after pieces without an entry. -/
  commentStop : Option Nat := none
  comment : List Char := []
  got : List α := []
  deriving Inhabited

namespace Reading

variable {α : Type}

def push (r : Reading α) (x : α) (stop : Nat) : Reading α :=
  { r with got := x :: r.got, stop }

end Reading

abbrev Pair := Node × Option Node

namespace Pair

def addComment (cs : List Char) : Pair → Pair
  | (name, some v) => (name, some (v.addComment cs))
  | (name, none) => (name.addComment cs, none)

/-- What the entry of a flow collection becomes: in a list it is a mapping of its own, which is the
name of an entry without a value. -/
def within (b : Bracket) (p : Pair) : Pair :=
  match b with
  | .square => (.mapping {} [p], none)
  | .curly => p

end Pair

def require (b : Bool) (c : Complaint) : Except Complaint Unit :=
  if b then .ok () else .error c

def requireNew (name : Node) (place : Nat) (before : List Pair) : Except Complaint Unit :=
  require (!before.any fun e => e.1.sameName name) (Flaw.repeatedName.at place)

/-- The greatest distance between the start of a name and its colon. -/
def longestName : Nat :=
  1024

/-- The comment that stands behind the comma in front of an item belongs to the item before. -/
def leadingComment : List Piece → List Char
  | [] => []
  | p :: rest =>
    match p.mark with
    | .comma => leadingComment rest
    | .space => leadingComment rest
    | .comment => p.source.drop 1
    | _ => []

def isBlockPart (t : Option Tree) : Bool :=
  t.any Tree.isBlockCollection

/-- Accepts the line break in front of the items of a block list with properties. -/
def requireListLine (p : Properties) : Except Complaint Unit :=
  let last := match p.anchor, p.tag with
    | some a, some t => if t.offset < a.offset then some a else some t
    | some a, none => some a
    | none, t => t
  match last with
  | none => .ok ()
  | some last =>
    require (p.breakAfter.any fun b => last.offset ≤ b.offset)
      (last.complain .listBesideProperties)

/-- The pieces from the closing bracket of a flow collection on: the place after the bracket, and what
stands behind it. -/
def readClosing (b : Bracket) (isRoot : Bool) (place : Nat) :
    List Piece → Except Complaint (Nat × Tail)
  | [] => .error ((Flaw.unclosed b isRoot).at place)
  | p :: rest =>
    if p.mark == b.closing then (Tail.read true p.stop rest).map fun t => (p.stop, t)
    else .error ((Flaw.unclosed b isRoot).at place)

mutual

def readTree (c : Around) (p : Properties) : Tree → Except Complaint Placed
  | .stray flaw offset source => .error ((Tree.stray flaw offset source).complain flaw)
  | .scalar x after => readScalar c p x (after.getD [])
  | .block indent header beside text => do
    let (cs, stop) ← decodeBlock c.isRoot indent header beside text
    let comment := match beside.find? (·.mark == .comment) with
      | some x => x.source.drop 1
      | none => []
    let n ← finishScalar c p .block cs p.comment comment
    return ⟨n, header.offset, stop, stop⟩
  | .mapping offset indent entries => do
    let tag ← collectionTag? c p "map"
    let r ← readEntries c.inner indent offset entries
    if let some place := r.commentStop then
      require (place = 0 || r.stop ≤ place) (Flaw.commentBeforeContent.at place)
    let anchor ← anchorName? p
    let notes : Notes :=
      { spaced := p.spaced, before := p.comment, comment := r.comment, anchor, tag }
    return ⟨.mapping notes r.got.reverse, offset, r.stop, r.commentStop.getD r.stop⟩
  | .list offset indent entries => do
    let tag ← collectionTag? c p "seq"
    requireListLine p
    let r ← readItems c.inner indent offset entries
    let anchor ← anchorName? p
    let notes : Notes :=
      { spaced := p.spaced, before := p.comment, comment := r.comment, anchor, tag }
    return ⟨.list notes r.got.reverse, offset, r.stop, r.commentStop.getD r.stop⟩
  | .flow indent opening entries after => do
    let b := if opening.mark == .listStart then Bracket.square else .curly
    let tag ← collectionTag? c p (if b == .square then "seq" else "map")
    let r ← readFlowEntries c.inner b indent opening.stop true entries
    let (stop, tail) ← readClosing b c.isRoot r.stop after
    let anchor ← anchorName? p
    let comment := joinComments r.comment tail.comment
    let notes : Notes := { spaced := p.spaced, before := p.comment, comment, anchor, tag }
    let n : Node := match b with
      | .square => .list notes (r.got.reverse.map fun p => p.1)
      | .curly => .mapping notes r.got.reverse
    return ⟨n, opening.offset, stop, tail.stop⟩

/-- Reads a part of an entry; where nothing is written, an empty scalar stands behind the given
pieces. -/
def readPart (c : Around) (p : Properties) (place : Nat) (before : List Piece) :
    Option Tree → Except Complaint Placed
  | none => readEmpty c place before p
  | some t => readTree c p t

def readEntries (c : Around) (indent start : Nat) :
    List (Entry Tree) → Except Complaint (Reading Pair)
  | [] => .ok { stop := start }
  | ⟨front, _, name, between, value⟩ :: before => do
    let r ← readEntries c indent start before
    let follower := match name with
      | some t => some t.follower
      | none => (between.bind (·.head?)).map Piece.follower
    let kp ← Properties.read
      { indicator := .question, follower, offset := r.stop, outer := indent, fresh := true } front
    let implicit := kp.found.isNone
    let columns := Flaw.columnsDiffer.at r.stop
    if implicit then
      if let some t := name then
        match t with
        | .list _ _ _ => throw (Flaw.listAsName.at r.stop)
        | t => require (t.indent?.all (· == indent)) columns
    else require (kp.found.all (·.indent == indent)) columns
    if implicit && kp.anchor.isNone && kp.tag.isNone && between.isNone then
      return { r with commentStop := some kp.stop, comment := joinComments r.comment kp.comment }
    else
      if implicit && (kp.breakAfter.isSome || partGoesOverLines name) then
        throw (match name, front.getLast? with
          | some t, _ => t.complain .nameOverLines
          | none, some p => p.complain .nameOverLines
          | none, none => Flaw.nameOverLines.at r.stop)
      let key ← readPart c kp kp.stop front name
      requireNew key.node kp.stop r.got
      let isBlock := match name with
        | some (.block _ _ _ _) => true
        | _ => false
      let vp ← Properties.read
        { indicator := .colon, follower := value.map Tree.follower, offset := key.stop
          outer := indent, fresh := name.isNone || isBlock } (between.getD [])
      match vp.found with
      | none =>
        require (!implicit) ⟨.nameWithoutValue, key.first, key.contentStop⟩
        return r.push (key.node.addComment vp.comment, none) vp.stop
      | some colon =>
        if implicit then
          let isMapping := match value with
            | some (.mapping _ _ _) => true
            | _ => false
          require (!isMapping || vp.broken) (Flaw.nestedBesideName.at vp.stop)
          require (colon.offset ≤ kp.start + longestName)
            ⟨.longName, key.first, key.contentStop⟩
        let v ← readPart c vp vp.stop (between.getD []) value
        return r.push (key.node, some v.node) v.stop

def readItems (c : Around) (indent start : Nat) :
    List (Entry Tree) → Except Complaint (Reading Node)
  | [] => .ok { stop := start }
  | ⟨front, _, _, _, value⟩ :: before => do
    let r ← readItems c indent start before
    let p ← Properties.read
      { indicator := .dash, follower := value.map Tree.follower, offset := r.stop, outer := indent
        fresh := true } front
    if p.found.isNone && p.anchor.isNone && p.tag.isNone && value.isNone then
      let comment := if p.comment.isEmpty then r.comment else p.comment
      return { r with commentStop := some p.stop, comment }
    else
      if p.found.isNone then
        throw (match value with
          | some (.list _ _ _) => Flaw.itemColumnsDiffer.at p.stop
          | _ => Flaw.itemWithoutDash.at r.stop)
      let v ← readPart c p p.stop front value
      return r.push v.node v.stop

/-- Reads the entries of a flow collection; the items of a list are entries without values. `isLast`
says that no more follow. -/
def readFlowEntries (c : Around) (b : Bracket) (indent start : Nat) (isLast : Bool) :
    List (Entry Tree) → Except Complaint (Reading Pair)
  | [] => .ok { stop := start }
  | ⟨front, _, name, between, value⟩ :: before => do
    let r ← readFlowEntries c b indent start false before
    let isFirst := before.isEmpty
    let follower := match name with
      | some t => some t.follower
      | none => (between.bind (·.head?)).map Piece.follower
    let kp ← Properties.read
      { inside := some b, indicator := .question, follower, offset := r.stop, outer := indent
        fresh := false } front
    let implicit := kp.found.isNone
    if implicit && kp.anchor.isNone && kp.tag.isNone && between.isNone && value.isNone then
      match isFirst, kp.comma with
      | true, some comma => throw (comma.complain (.unexpected "," b.name))
      | _, _ => require isLast ((Flaw.emptyItem b).at kp.start)
      return { r with stop := kp.stop, comment := joinComments r.comment kp.comment }
    else
      if implicit && b == .square && partGoesOverLines name then
        throw (match name with
          | some t => t.complain .pairNameOverLines
          | none => Flaw.pairNameOverLines.at kp.start)
      if isFirst then
        if let some comma := kp.comma then throw (comma.complain (.unexpected "," b.name))
      else require kp.comma.isSome ((Flaw.missingComma b).at kp.start)
      let moved := if isFirst || kp.comment.isEmpty then [] else leadingComment front
      let r := match moved, r.got with
        | _ :: _, x :: got => { r with got := Pair.addComment moved x :: got }
        | _, _ => r
      let kp :=
        if moved.isEmpty then kp
        else { kp with comment := kp.comment.drop (moved.length + 1) }
      if b == .square && between.isNone && implicit then
        let v ← readPart c kp kp.stop [] value
        require (!isBlockPart value) ⟨.blockInFlow, v.first, v.contentStop⟩
        return r.push (v.node, none) v.stop
      else
        let key ← readPart c kp kp.stop front name
        require (!isBlockPart name) ⟨.blockInFlow, key.first, key.contentStop⟩
        let vp ← Properties.read
          { inside := some b, indicator := .colon, follower := value.map Tree.follower
            offset := key.stop, outer := indent, fresh := false } (between.getD [])
        match vp.found with
        | some colon =>
          if b == .square && implicit then
            let ahead := (between.getD []).takeWhile (· != colon)
            if let some nl := ahead.find? (·.mark == .newline) then
              throw (nl.complain .pairNameOverLines)
            require (colon.offset ≤ kp.start + longestName) (colon.complain .longPairName)
          let v ← readPart c vp vp.stop (between.getD []) value
          require (!isBlockPart value) ⟨.blockInFlow, v.first, v.contentStop⟩
          if b == .curly then requireNew key.node kp.stop r.got
          return r.push (Pair.within b (key.node, some v.node)) v.stop
        | none =>
          match value with
          | some t =>
            if t.source.head? == some ':' then throw (t.complain (.missingSpace b))
            else throw ((Flaw.missingSeparator b).at vp.start)
          | none =>
            if b == .curly then requireNew key.node kp.stop r.got
            return r.push (Pair.within b (key.node.addComment vp.comment, none)) vp.stop

end

/-- Reads a document: the node, and the places where it begins and ends. -/
def readDocument (handles : Handles) (offset : Nat) (start : List Piece) (body : Option Tree)
    (after : List Piece) : Except Complaint Placed := do
  let follower := match body with
    | some t => some t.follower
    | none => after.head?.map Piece.follower
  let p ← Properties.read
    { indicator := .documentStart, follower, offset, outer := 0, fresh := true } start
  require (!(p.found.isSome && isBlockPart body && !p.broken))
    (Flaw.collectionBesideMarker.at p.stop)
  let n ← readPart ⟨handles, true⟩ p p.stop start body
  let _ ← Tail.read false n.stop after
  return { n with first := offset }

end Walkthrough.Yaml
