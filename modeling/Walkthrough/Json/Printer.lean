import Walkthrough.Value
import Walkthrough.Text.Units

/-!
# Writing JSON

Values are written over several lines, two spaces further in at each level. A `Layout` is what is
written: texts that stand as they are, lists and mappings. Numbers that JSON cannot express are
written as `null`, and so is the place at which a value occurs in itself.
-/

namespace Walkthrough.Json

/-! ## Strings -/

def unitEscape (n : Nat) : List Char :=
  let digits := Nat.toDigits 16 n
  '\\' :: 'u' :: List.replicate (4 - digits.length) '0' ++ digits

def escapeChar (c : Char) : List Char :=
  match c with
  | '\x22' => ['\\', '\x22']
  | '\\' => ['\\', '\\']
  | '\x08' => ['\\', 'b']
  | '\x0c' => ['\\', 'f']
  | '\n' => ['\\', 'n']
  | '\r' => ['\\', 'r']
  | '\t' => ['\\', 't']
  | c =>
    if c.toNat < 0x20 then unitEscape c.toNat
    else if Text.isHalf c then unitEscape (Text.halfUnit c)
    else [c]

/-- The characters as a string; a half without the other half is written as an escape. -/
def quoteChars (cs : List Char) : String :=
  let escaped := Text.visit (fun lead trail => Text.held (Text.joinHalves lead trail)) escapeChar cs
  String.ofList ('\x22' :: escaped ++ ['\x22'])

def quote (s : String) : String :=
  quoteChars s.toList

/-- The first `limit` units of a text as a string. -/
def quoteUpTo (limit : Nat) (s : String) : String :=
  quoteChars (Text.takeUnits limit s.toList)

/-! ## Layouts -/

/-- What is written: a text, a list, or a mapping whose names are yet to be quoted. -/
inductive Layout
  | leaf (s : String)
  | list (items : List Layout)
  | mapping (entries : List (String × Layout))
  deriving Inhabited

def number (n : Number) : String :=
  if n.isFinite then n.text else "null"

mutual

def layout : Value → Layout
  | .null => .leaf "null"
  | .bool true => .leaf "true"
  | .bool false => .leaf "false"
  | .number n => .leaf (number n)
  | .text s => .leaf (quote s)
  | .list items => .list (layouts items)
  | .mapping entries => .mapping (entryLayouts entries)
  | .loop _ => .leaf "null"

def layouts : List Value → List Layout
  | [] => []
  | v :: rest => layout v :: layouts rest

def entryLayouts : List (String × Value) → List (String × Layout)
  | [] => []
  | (name, v) :: rest => (name, layout v) :: entryLayouts rest

end

def lineStart (level : Nat) : String :=
  String.ofList ('\n' :: List.replicate (2 * level) ' ')

def enclose (opening closing : String) (level : Nat) (items : List String) : String :=
  if items.isEmpty then opening ++ closing
  else
    let start := lineStart (level + 1)
    opening ++ start ++ Text.joinWith ("," ++ start) items ++ lineStart level ++ closing

mutual

def writeAt (level : Nat) : Layout → String
  | .leaf s => s
  | .list items => enclose "[" "]" level (writeItems (level + 1) items)
  | .mapping entries => enclose "\x7b" "\x7d" level (writeEntries (level + 1) entries)

def writeItems (level : Nat) : List Layout → List String
  | [] => []
  | l :: rest => writeAt level l :: writeItems level rest

def writeEntries (level : Nat) : List (String × Layout) → List String
  | [] => []
  | (name, l) :: rest => (quote name ++ ": " ++ writeAt level l) :: writeEntries level rest

end

def write (l : Layout) : String :=
  writeAt 0 l

def print (v : Value) : String :=
  write (layout v)

end Walkthrough.Json
