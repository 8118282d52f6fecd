import Walkthrough.Yaml.Flaw

/-!
# Complaints with their lines

A complaint is shown with the line that it speaks of and a row of carets below it. Long lines are
cut near the place. When nothing stands before the place in its line, the line above is shown too.

Texts are lists of sixteen-bit units, and `lines` are the places at which lines begin, in order.
-/

namespace Walkthrough.Yaml

/-- The greatest number of units of a line that is shown whole. -/
def widestLine : Nat :=
  80

/-- A place by the number of its line and its number in the line, both from one. -/
def lineAndColumn (lines : List Nat) (place : Nat) : Nat × Nat :=
  let before := lines.takeWhile (· ≤ place)
  match before.getLast? with
  | some start => (before.length, place - start + 1)
  | none => (0, place)

def lineAt (text : List Char) (lines : List Nat) (n : Nat) : List Char :=
  let start := lines[n - 1]?.getD 0
  let stop := lines[n]?.getD text.length
  (text.take stop).drop start

def trimLineEnd (line : List Char) : List Char :=
  (line.reverse.dropWhile fun c => c == '\n' || c == '\r').reverse

/-- A line cut to the greatest width, with an ellipsis where something is missing, and the number of
units that are left before the one at `column`. -/
def cutLine (line : List Char) (column : Nat) : List Char × Nat :=
  let (line, column) :=
    if 60 ≤ column && widestLine < line.length then
      let start := min (column - 39) (line.length - 79)
      ('…' :: line.drop start, column + 1 - start)
    else (line, column)
  if widestLine < line.length then (line.take 79 ++ ['…'], column) else (line, column)

namespace Complaint

/-- The lines below a message: what the complaint speaks of, and carets. -/
def excerpt (c : Complaint) (text : List Char) (lines : List Nat) : List Char :=
  let (n, column) := lineAndColumn lines c.first
  let (line, before) := cutLine (trimLineEnd (lineAt text lines n)) (column - 1)
  let line :=
    if 1 < n && (line.take before).all (· == ' ') then
      let above := lineAt text lines (n - 1)
      (if widestLine < above.length then above.take 79 ++ ['…', '\n'] else above) ++ line
    else line
  if line.all (· == ' ') then []
  else
    let (m, stop) := lineAndColumn lines c.stop
    let count := if m = n && column < stop then max 1 (min (stop - column) (80 - before)) else 1
    ":\n\n".toList ++ line ++ '\n' :: List.replicate before ' ' ++ List.replicate count '^' ++ ['\n']

def describe (c : Complaint) (text : List Char) (lines : List Nat) : String :=
  let (n, column) := lineAndColumn lines c.first
  let units := Text.split text
  c.flaw.message ++ " at line " ++ toString n ++ ", column " ++ toString column
    ++ String.ofList (Text.join (c.excerpt units lines))

end Complaint

end Walkthrough.Yaml
