import Walkthrough.Number.Decimal

/-!
# Records

A record maps names to values and shows its entries in a fixed order: first the names that are
plain whole numbers up to 4294967294, by size, then the other names in the order of their first
entry. `Record.put` keeps that order; a name entered again keeps its place and takes the new value.

Records that the program fills name by name have no entry `__proto__` (`Record.assign`). Records
read from a document as a whole may have one. Under this name and eleven others (`Record.innate`)
every record holds something of its own, which shows where there is no entry.

A `Ledger` is the plainer variant in order of arrival alone.
-/

namespace Walkthrough

/-! ## Order of arrival -/

/-- Values by name, in the order of arrival. -/
abbrev Ledger (α : Type) := List (String × α)

namespace Ledger

variable {α : Type}

def get? (l : Ledger α) (name : String) : Option α :=
  (l.find? (·.1 == name)).map (·.2)

def has (l : Ledger α) (name : String) : Bool :=
  l.any (·.1 == name)

/-- Stores a value: in the place of the old one, else at the end. -/
def put (l : Ledger α) (name : String) (value : α) : Ledger α :=
  match l with
  | [] => [(name, value)]
  | e :: rest => if e.1 == name then (name, value) :: rest else e :: put rest name value

def erase (l : Ledger α) (name : String) : Ledger α :=
  l.filter (·.1 != name)

def names (l : Ledger α) : List String :=
  l.map (·.1)

end Ledger

/-! ## Numbered names first -/

/-- Values by name, numbered names first. -/
abbrev Record (α : Type) := List (String × α)

namespace Record

variable {α : Type}

/-- The number that a name is, if it is a plain whole number up to 4294967294. -/
def indexOf? (name : String) : Option Nat :=
  match name.toList with
  | [] => none
  | c :: rest =>
    if !(c :: rest).all Text.isDigit || (c == '0' && !rest.isEmpty) || 10 < (c :: rest).length then
      none
    else
      let n := Number.wholeOf 10 (c :: rest)
      if n ≤ 4294967294 then some n else none

/-- True when a new entry with the first name stands before an entry with the second. -/
def precedes (new old : String) : Bool :=
  match indexOf? new, indexOf? old with
  | some i, some j => i < j
  | some _, none => true
  | none, _ => false

def get? (r : Record α) (name : String) : Option α :=
  (r.find? (·.1 == name)).map (·.2)

def has (r : Record α) (name : String) : Bool :=
  r.any (·.1 == name)

def insert (r : Record α) (name : String) (value : α) : Record α :=
  match r with
  | [] => [(name, value)]
  | e :: rest =>
    if precedes name e.1 then (name, value) :: e :: rest else e :: insert rest name value

def replace (r : Record α) (name : String) (value : α) : Record α :=
  r.map fun e => if e.1 == name then (name, value) else e

def put (r : Record α) (name : String) (value : α) : Record α :=
  if r.has name then r.replace name value else r.insert name value

/-- The name that a record filled name by name does not take. -/
def reserved : String :=
  "__proto__"

/-- The names under which a record without an entry still holds something, which is no list. -/
def innate : List String :=
  [reserved, "constructor", "toString", "toLocaleString", "valueOf", "hasOwnProperty",
    "isPrototypeOf", "propertyIsEnumerable", "__defineGetter__", "__defineSetter__",
    "__lookupGetter__", "__lookupSetter__"]

/-- True when a record gives something that is no list for a name without an entry. -/
def lacksList (r : Record α) (name : String) : Bool :=
  !r.has name && innate.contains name

def assign (r : Record α) (name : String) (value : α) : Record α :=
  if name == reserved then r else r.put name value

/-- The record of a list of entries; a later entry of a name gives its value. -/
def ofList (entries : List (String × α)) : Record α :=
  entries.foldl (fun r e => r.put e.1 e.2) []

def names (r : Record α) : List String :=
  r.map (·.1)

/-- The first record with the entries of the second stored over it. -/
def overlay (r more : Record α) : Record α :=
  more.foldl (fun r e => r.put e.1 e.2) r

end Record

end Walkthrough
