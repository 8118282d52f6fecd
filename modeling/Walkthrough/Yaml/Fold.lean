import Walkthrough.Text.Units

/-!
# Folding of long lines

A text that is longer than a line is folded at spaces: a line break and the indentation of the next
line replace the space. In double quotes a text can be folded inside of a word too, with a backslash
at the end of the line.

All texts here are lists of sixteen-bit units.
-/

namespace Walkthrough.Yaml

def lineWidth : Nat :=
  80

def leastWidth : Nat :=
  20

structure FoldPlace where
  place : Nat
  /-- No space is replaced. -/
  inWord : Bool
  deriving DecidableEq, Inhabited

structure FoldSearch where
  /-- The first place that is no longer in the line. -/
  stop : Nat
  /-- The last place at which the line can be folded. -/
  split : Option Nat := none
  previous : Option Char := none
  /-- Where the last escape begins and ends. -/
  escape : Nat × Nat := (0, 0)
  /-- The places, the last one first. -/
  found : List FoldPlace := []
  deriving Inhabited

namespace FoldSearch

/-- The number of units of the escape at a backslash, less one. -/
def escapeLength (next : Option Char) : Nat :=
  match next with
  | some 'x' => 3
  | some 'u' => 5
  | some 'U' => 9
  | _ => 1

def isInk : Option Char → Bool
  | none => false
  | some c => c != ' ' && c != '\n' && c != '\t'

/-- The number of spaces and tabs from a place on, the unit before them included. -/
def stretch (text : Array Char) : Nat → Nat → Option Char → Nat
  | 0, _, _ => 0
  | fuel + 1, i, previous =>
    if previous == some ' ' || previous == some '\t' then
      1 + stretch text fuel (i + 1) text[i]?
    else 0

/-- The places from `i` on at which a text is folded; nothing, if it cannot be folded. `step` is the
number of units of a line after the first. -/
def run (quoted : Bool) (text : Array Char) (indent step : Nat) :
    Nat → Nat → FoldSearch → Option (List FoldPlace)
  | 0, _, s => some s.found.reverse
  | fuel + 1, i, s =>
    match text[i]? with
    | none => some s.found.reverse
    | some c =>
      let (i, s) :=
        if quoted && c == '\\' then
          let j := i + escapeLength text[i + 1]?
          (j, { s with escape := (i, j) })
        else (i, s)
      if c == '\n' then
        run quoted text indent step fuel (i + 1)
          { s with stop := i + indent + step, split := none, previous := some c }
      else
        let s :=
          if c == ' ' && isInk s.previous && isInk text[i + 1]? then { s with split := some i }
          else s
        if i < s.stop then
          run quoted text indent step fuel (i + 1) { s with previous := some c }
        else
          match s.split with
          | some j =>
            run quoted text indent step fuel (i + 1)
              { s with found := ⟨j, false⟩ :: s.found, stop := j + step, split := none
                       previous := some c }
          | none =>
            if quoted then
              let n := stretch text text.size i s.previous
              let previous := if n = 0 then some c else text[i + n]?
              let i := i + n
              let j := if s.escape.2 + 1 < i then i - 2 else s.escape.1 - 1
              if s.found.contains ⟨j, true⟩ then none
              else
                run quoted text indent step fuel (i + 1)
                  { s with found := ⟨j, true⟩ :: s.found, stop := j + step, split := none
                           previous }
            else run quoted text indent step fuel (i + 1) { s with previous := some c }

end FoldSearch

def cutAt (text newline : List Char) : List FoldPlace → List Char
  | [] => []
  | f :: rest =>
    let stop := match rest with
      | [] => text.length
      | g :: _ => g.place
    let line :=
      if f.place = 0 then newline ++ text.take stop
      else
        (if f.inWord then (text.drop f.place).take 1 ++ ['\\'] else [])
          ++ newline ++ (text.take stop).drop (f.place + 1)
    line ++ cutAt text newline rest

/-- A text folded into lines. `indent` is the indentation of the lines after the first, and `start`
the number of columns before the text in its own line, if it is not that indentation. -/
def foldLines (quoted : Bool) (indent : Nat) (start : Option Nat) (text : List Char) : List Char :=
  let step := max (1 + leastWidth) (1 + lineWidth - indent)
  if text.length ≤ step then text
  else
    let breaksFirst := start.any fun n => lineWidth - leastWidth < n
    let stop := match start with
      | some n => if breaksFirst then lineWidth - indent else lineWidth - n
      | none => lineWidth - indent
    let found := if breaksFirst then [⟨0, false⟩] else []
    match FoldSearch.run quoted text.toArray indent step (text.length + 1) 0 { stop, found } with
    | none => text
    | some [] => text
    | some (f :: rest) =>
      let newline := '\n' :: List.replicate indent ' '
      (if f.place = 0 then [] else text.take f.place) ++ cutAt text newline (f :: rest)

end Walkthrough.Yaml
