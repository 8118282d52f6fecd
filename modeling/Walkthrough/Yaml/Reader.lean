import Walkthrough.Yaml.Composition
import Walkthrough.Yaml.Excerpt
import Walkthrough.Yaml.Inline

/-!
# Reading documents

`Yaml.read?` reads a text in the format of flow documents. JSON is a part of this format. The names
of a mapping become texts: a list or a mapping is named by the text that writes it. What an alias
stands for is put in its place: the last node before it with the anchor of this name.

An alias without such a node is a fault. So is an alias whose node has been used too often: nodes
made of aliases count as often as the aliases that they are made of, and the product must not exceed
a hundred.
-/

namespace Walkthrough.Yaml

inductive Fault
  /-- The text is no document. -/
  | malformed (message : String)
  /-- An alias has no node. -/
  | unresolved (name : String)
  /-- An alias stands for too much. -/
  | excessive
  /-- A tag asks for something that is no value. -/
  | foreign (tag : String)
  deriving DecidableEq, Inhabited

/-! ## The document of a text -/

structure Assembly where
  handles : Handles := defaultHandles
  /-- There have been directives for the next document. -/
  directed : Bool := false
  document : Option Node := none
  /-- A complaint about what comes after the document. -/
  pending : Option Complaint := none

namespace Assembly

/-- The state after one more part. Complaints about directives behind the document count only if no
other document follows. -/
def add (s : Assembly) (p : Part) : Except Complaint Assembly :=
  match p with
  | .directive offset source =>
    match readDirective s.handles offset source with
    | .ok handles => .ok { s with handles, directed := true }
    | .error c =>
      if s.document.isNone then .error c
      else .ok { s with directed := true, pending := s.pending <|> some c }
  | .stray c =>
    if s.document.isSome && s.directed then .ok { s with pending := s.pending <|> some c }
    else .error c
  | .document offset start body after =>
    match s.document, readDocument s.handles offset start body after with
    | some _, .ok d => .error ⟨.manyDocuments, offset, d.stop⟩
    | some _, .error _ => .error (Flaw.manyDocuments.at offset)
    | none, .error c => .error c
    | none, .ok d =>
      if s.directed && !Piece.has .documentStart start then
        .error (Flaw.unmarkedDirectives.at offset)
      else .ok { s with document := some d.node, directed := false }
  | .ending offset after =>
    if s.document.isNone then .error ⟨.endWithoutDocument, offset, offset + 3⟩
    else
      match s.pending, Tail.read true (offset + 3) after with
      | some c, _ => .error c
      | none, .error c => .error c
      | none, .ok _ => .ok s

def finish (s : Assembly) (length : Nat) : Except Complaint (Option Node) :=
  match s.pending, s.document with
  | some c, _ => .error c
  | none, some n => .ok (some n)
  | none, none => if s.directed then .error (Flaw.directivesAlone.at length) else .ok none

end Assembly

/-- The document that a text writes, and what its handles stand for. -/
def document? (cs : List Char) (parts : List Part) : Except Complaint (Handles × Option Node) := do
  let s ← parts.foldlM Assembly.add {}
  let n ← s.finish (Text.units cs)
  return (s.handles, n)

/-! ## Anchors -/

/-- How much a node counts: the aliases in it are given by the index of their anchor. -/
inductive Load
  | one
  | reference (index : Nat)
  | most (parts : List Load)
  deriving Inhabited

def lastIndex? (names : List String) (name : String) : Option Nat :=
  (names.zipIdx.reverse.find? fun e => e.1 == name).map (·.2)

mutual

/-- How much a node counts, given the names of the anchors before it; with the names of those up to
its end. -/
def Node.load (names : List String) : Node → Load × List String
  | .reference _ name =>
    (((lastIndex? names name).map Load.reference).getD (.most []), names)
  | .scalar notes _ _ _ => (.one, names ++ notes.anchor.toList)
  | .list notes items =>
    let (loads, names) := itemLoads (names ++ notes.anchor.toList) items
    (.most loads, names)
  | .mapping notes entries =>
    let (loads, names) := entryLoads (names ++ notes.anchor.toList) entries
    (.most loads, names)

def itemLoads (names : List String) : List Node → List Load × List String
  | [] => ([], names)
  | n :: rest =>
    let (load, names) := n.load names
    let (loads, names) := itemLoads names rest
    (load :: loads, names)

def entryLoads (names : List String) : List (Node × Option Node) → List Load × List String
  | [] => ([], names)
  | (name, none) :: rest =>
    let (load, names) := name.load names
    let (loads, names) := entryLoads names rest
    (load :: .one :: loads, names)
  | (name, some n) :: rest =>
    let (load, names) := name.load names
    let (more, names) := n.load names
    let (loads, names) := entryLoads names rest
    (load :: more :: loads, names)

end

structure Anchor where
  name : String
  value : Value
  load : Load
  /-- How often it has been used. -/
  uses : Nat
  /-- How much each use counts, once that is known. -/
  weight : Nat
  deriving Inhabited

abbrev Anchors := List Anchor

mutual

/-- How much a node counts. Aliases of anchors that are still to come do not count. -/
def Load.weight (known : Anchors) : Load → Nat
  | .one => 1
  | .reference index => ((known[index]?).map fun a => a.uses * a.weight).getD 0
  | .most parts => greatest known parts

def Load.greatest (known : Anchors) : List Load → Nat
  | [] => 0
  | part :: rest => max (part.weight known) (Load.greatest known rest)

end

def heaviest : Nat :=
  100

def namesOf (known : Anchors) : List String :=
  known.map fun a => a.name

def useAnchor (known : Anchors) (name : String) : Except Fault (Value × Anchors) :=
  match (lastIndex? (namesOf known) name).bind fun i => (known[i]?).map fun a => (i, a) with
  | none => .error (.unresolved name)
  | some (index, a) =>
    let a := { a with uses := a.uses + 1 }
    let known := known.set index a
    -- The weight of a node is settled by the first alias that uses it.
    let a := if a.weight = 0 then { a with weight := a.load.weight known } else a
    if heaviest < a.uses * a.weight then .error .excessive
    else .ok (a.value, known.set index a)

/-- The anchors with one for a node that is about to be read. An alias inside of the node stands for
a value that holds itself. -/
def openAnchor (known : Anchors) (n : Node) : Anchors :=
  match n.notes.anchor with
  | some name => known ++ [⟨name, .loop known.length, (n.load (namesOf known)).1, 1, 0⟩]
  | none => known

/-- The anchors after a node has been read whose anchor, if it has one, is at the given index. -/
def closeAnchor (known : Anchors) (n : Node) (index : Nat) (v : Value) : Anchors :=
  if n.notes.anchor.isSome then known.modify index fun a => { a with value := v } else known

/-! ## Values -/

/-- The name that a node writes, given its value. -/
def nameOf (h : Handles) (n : Node) : Value → String
  | .null => ""
  | .bool true => "true"
  | .bool false => "false"
  | .number x => x.text
  | .text s => s
  | _ => n.inline h

/-- The tags for bytes, for entries to be merged, for ordered mappings, for lists of pairs, for sets
and for times. -/
def foreignTags : List String :=
  ["binary", "merge", "omap", "pairs", "set", "timestamp"].map (commonTag ++ ·)

def requireValue (notes : Notes) : Except Fault Unit :=
  match notes.tag with
  | some tag => if foreignTags.contains tag then .error (.foreign tag) else .ok ()
  | none => .ok ()

mutual

def build (h : Handles) (known : Anchors) : Node → Except Fault (Value × Anchors)
  | .reference _ name => useAnchor known name
  | .scalar notes style text v => do
    requireValue notes
    let n := Node.scalar notes style text v
    return (v, closeAnchor (openAnchor known n) n known.length v)
  | .list notes items => do
    requireValue notes
    let n := Node.list notes items
    let (values, after) ← buildItems h (openAnchor known n) items
    return (.list values, closeAnchor after n known.length (.list values))
  | .mapping notes entries => do
    requireValue notes
    let n := Node.mapping notes entries
    let (record, after) ← buildEntries h (openAnchor known n) [] entries
    return (.mapping record, closeAnchor after n known.length (.mapping record))

def buildItems (h : Handles) (known : Anchors) :
    List Node → Except Fault (List Value × Anchors)
  | [] => .ok ([], known)
  | n :: rest => do
    let (v, known) ← build h known n
    let (values, known) ← buildItems h known rest
    return (v :: values, known)

def buildEntries (h : Handles) (known : Anchors) (acc : Record Value) :
    List (Node × Option Node) → Except Fault (Record Value × Anchors)
  | [] => .ok (acc, known)
  | (name, none) :: rest => do
    let (key, known) ← build h known name
    buildEntries h known (acc.put (nameOf h name key) .null) rest
  | (name, some n) :: rest => do
    let (key, known) ← build h known name
    let (v, known) ← build h known n
    buildEntries h known (acc.put (nameOf h name key) v) rest

end

/-- The value with the next `depth` levels shown of what holds itself. -/
def unroll (known : Anchors) : Nat → Value → Value
  | 0, v => v
  | depth + 1, v =>
    let v : Value := match v with
      | .loop i => ((known[i]?).map fun a => a.value).getD .null
      | v => v
    match v with
    | .list items => .list (items.map (unroll known depth))
    | .mapping entries => .mapping (entries.map fun e => (e.1, unroll known depth e.2))
    | v => v

/-- The number of levels at which a flow document can hold lists and mappings that have a meaning of
their own. -/
def shownLevels : Nat :=
  4

/-- The value that a text writes. A text without a document writes `null`. -/
def read? (s : String) : Except Fault Value :=
  let cs := s.toList
  let (parts, lines) := outline cs
  match document? cs parts with
  | .error c => .error (.malformed (c.describe cs lines))
  | .ok (_, none) => .ok .null
  | .ok (h, some n) => (build h [] n).map fun (v, known) => unroll known shownLevels v

end Walkthrough.Yaml
