import Walkthrough.Flow.Basic
import Walkthrough.Report
import Walkthrough.Text.Units

/-!
# Filling request templates

A template holds two kinds of placeholders. An endpoint is written `{name}` and is filled first.
The tokens of the step's rules, usually written `<name>`, are then replaced by the values of the
rules in one pass from left to right: at each place the longest token that stands there is taken,
and what is put in is not looked at again. After that no `<name>` may be left in what the tokens do
not cover. Tokens are sought unit by unit, so a token can be half of a character.

`Template.render` takes the endpoints and the values of the rules as functions.
-/

namespace Walkthrough

/-! ## Faults -/

inductive RenderFault
  | unresolvedEndpoint (name : String)
  | unsetVariable (token name : String)
  | incompleteStep (token step : String)
  | missingField (token step field : String)
  | unboundPlaceholder (token : String) (scope : Scope)
  deriving DecidableEq, Inhabited

namespace RenderFault

def kind : RenderFault → String
  | unresolvedEndpoint _ => "UnresolvedEndpoint"
  | unsetVariable _ _ => "MissingUpstreamValue"
  | incompleteStep _ _ => "MissingUpstreamValue"
  | missingField _ _ _ => "MissingUpstreamValue"
  | unboundPlaceholder _ _ => "UnboundPlaceholder"

def token : RenderFault → String
  | unresolvedEndpoint name => name
  | unsetVariable token _ => token
  | incompleteStep token _ => token
  | missingField token _ _ => token
  | unboundPlaceholder token _ => token

def message : RenderFault → String
  | unresolvedEndpoint name => "No discovered or default value for \x7b" ++ name ++ "\x7d"
  | unsetVariable token name => token ++ ": session variable '" ++ name ++ "' is not set"
  | incompleteStep token step => token ++ ": step '" ++ step ++ "' has not completed"
  | missingField token step field =>
    token ++ ": step '" ++ step ++ "' produced no field '" ++ field ++ "'"
  | unboundPlaceholder token scope =>
    token ++ " in " ++ scope.name ++ " has no substitution rule"

def report (f : RenderFault) : Report :=
  { family := .substitution, kind := f.kind, message := f.message, token := some f.token }

end RenderFault

namespace Template

open Walkthrough.Text (isLetter isDigit isWordChar)

/-! ## Placeholders in a text -/

/-- A form of placeholder: a name between two brackets. -/
structure Form where
  opening : Char
  closing : Char
  /-- The characters with which a name can begin. -/
  isFirst : Char → Bool
  /-- The characters with which a name can go on. -/
  isNext : Char → Bool

def endpointForm : Form :=
  { opening := '\x7b', closing := '\x7d', isFirst := fun c => isLetter c || c == '_'
    isNext := isWordChar }

def tokenForm : Form :=
  { opening := '<', closing := '>', isFirst := fun c => isLetter c || isDigit c
    isNext := fun c => isWordChar c || c == '.' || c == ':' || c == '-' }

inductive Piece
  | char (c : Char)
  | slot (name : List Char)
  deriving DecidableEq

/-- True of a character with which a name can go on that has the given characters. -/
def Form.continues (f : Form) (name : List Char) (c : Char) : Bool :=
  if name.isEmpty then f.isFirst c else f.isNext c

/-- An opening bracket and the characters after it, in reverse, that turned out to be no
placeholder. -/
def Form.plain (f : Form) (name : List Char) : List Piece :=
  .char f.opening :: name.reverse.map .char

/-- The pieces of the characters still to be read. `name` is there after an opening bracket and holds
the characters since then in reverse. -/
def piecesFrom (f : Form) (name : Option (List Char)) : List Char → List Piece
  | [] =>
    match name with
    | none => []
    | some name => f.plain name
  | c :: rest =>
    match name with
    | none =>
      if c = f.opening then piecesFrom f (some []) rest else .char c :: piecesFrom f none rest
    | some name =>
      if c = f.closing && !name.isEmpty then .slot name.reverse :: piecesFrom f none rest
      else if f.continues name c then piecesFrom f (some (c :: name)) rest
      -- The bracket that was open encloses no name; this one may.
      else if c = f.opening then f.plain name ++ piecesFrom f (some []) rest
      else f.plain name ++ .char c :: piecesFrom f none rest

def pieces (f : Form) (cs : List Char) : List Piece :=
  piecesFrom f none cs

def Piece.slot? : Piece → Option String
  | char _ => none
  | slot name => some (String.ofList name)

def slots (f : Form) (s : String) : List String :=
  (pieces f s.toList).filterMap Piece.slot?

/-! ## Endpoints -/

def fillPiece (endpoint : String → Option String) : Piece → Except RenderFault (List Char)
  | .char c => .ok [c]
  | .slot name =>
    match endpoint (String.ofList name) with
    | some value => .ok value.toList
    | none => .error (.unresolvedEndpoint (String.ofList name))

def fill (endpoint : String → Option String) (s : String) : Except RenderFault String :=
  ((pieces endpointForm s.toList).mapM (fillPiece endpoint)).map fun parts =>
    String.ofList parts.flatten

/-! ## Tokens -/

/-- The units that take the place of each token. -/
abbrev Substitution := List (List Char × List Char)

/-- The longer of two tokens; the first one when they are of one length. -/
def longer (best : Option (List Char × List Char)) (e : List Char × List Char) :
    Option (List Char × List Char) :=
  match best with
  | none => some e
  | some b => if b.1.length < e.1.length then some e else some b

/-- The longest token that stands at the beginning of the units, with its value. -/
def tokenAt (tokens : Substitution) (cs : List Char) : Option (List Char × List Char) :=
  (tokens.filter fun e => e.1.isPrefixOf cs).foldl longer none

/-- The units with every token replaced. The first `skip` of them belong to a token that has been
replaced already. -/
def replaceFrom (tokens : Substitution) (skip : Nat) : List Char → List Char
  | [] => []
  | c :: rest =>
    match skip with
    | skip + 1 => replaceFrom tokens skip rest
    | 0 =>
      match tokenAt tokens (c :: rest) with
      | some (token, value) => value ++ replaceFrom tokens (token.length - 1) rest
      | none => c :: replaceFrom tokens 0 rest

def replace (tokens : Substitution) (cs : List Char) : List Char :=
  replaceFrom tokens 0 cs

def blanked (tokens : Substitution) : Substitution :=
  tokens.map fun e => (e.1, [])

def applies (scope : Scope) (r : Rule) : Bool :=
  match r.scope with
  | none => true
  | some s => s == scope

def unitsOf (s : String) : List Char :=
  Text.split s.toList

/-- The values by token of the rules that apply to a part; the last rule of a token gives its
value. -/
def entriesFor (scope : Scope) (values : List (Rule × String)) : Ledger String :=
  (values.filter fun e => applies scope e.1).foldl
    (fun l e => l.put (String.ofList (unitsOf e.1.token)) e.2) []

def tokensFor (scope : Scope) (values : List (Rule × String)) : Substitution :=
  (entriesFor scope values).map fun e => (e.1.toList, unitsOf e.2)

/-- A part of the request with the tokens replaced. A placeholder that is left when the tokens are
taken out is a fault. -/
def substitute (values : List (Rule × String)) (scope : Scope) (s : String) :
    Except RenderFault String :=
  let tokens := tokensFor scope values
  -- A value may look like a placeholder, so the values are left out of this look.
  match slots tokenForm (String.ofList (replace (blanked tokens) (unitsOf s))) with
  | name :: _ => .error (.unboundPlaceholder ("<" ++ name ++ ">") scope)
  | [] => .ok (String.ofList (Text.join (replace tokens (unitsOf s))))

/-! ## Requests -/

/-- The parts of a request that can hold placeholders, each changed by a function; the first fault
in the order URL, headers, body, user name and password is reported. -/
def traverse (f : Scope → String → Except RenderFault String) (r : Request) :
    Except RenderFault Request := do
  let url ← f .url r.url
  -- The names of the headers stay as they are.
  let headers ← r.headers.mapM fun h => (f .headers h.2).map fun v => (h.1, v)
  let body ← r.body.mapM (f .data)
  let credentials ← r.credentials.mapM fun c => do
    let username ← f .auth c.username
    let password ← f .auth c.password
    return (⟨username, password⟩ : Credentials)
  return { method := r.method, url, headers, body, credentials }

/-- A request template with all its placeholders filled: first the endpoints, then the values of
all rules in order, and then the tokens. -/
def render (endpoint : String → Option String) (value : Rule → Except RenderFault String)
    (template : Request) (rules : List Rule) : Except RenderFault Request := do
  let filled ← traverse (fun _ => fill endpoint) template
  let values ← rules.mapM fun r => (value r).map fun v => (r, v)
  traverse (substitute values) filled

end Template

end Walkthrough
