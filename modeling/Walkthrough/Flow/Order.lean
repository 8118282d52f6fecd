import Walkthrough.Record

/-!
# Order of steps

`Order.sort` puts steps behind their prerequisites. It keeps, for every step, the number of
prerequisites that are still to come, and a queue of the steps without any; steps enter the queue
in declared order as far as they become ready at the same time. When steps are left over, they hold
a cycle, and one is reported.

A step with the reserved name `__proto__` is never ready, so no flow can have it.

`Order.sort` takes for granted that the prerequisites of every step are a list of steps.
`Order.arrange` looks at that first.
-/

namespace Walkthrough.Order

abbrev Links := Record (List String)

def linksOf (links : Links) (id : String) : List String :=
  (links.lookup id).getD []

/-! ## Counting -/

/-- How often the step is named among the prerequisites of the declared steps, once for each, as
the list of the steps that wait for it. -/
def waiters (order : List String) (links : Links) (id : String) : List String :=
  order.flatMap fun s => ((linksOf links s).filter (· == id)).map fun _ => s

/-- The number of prerequisites of a step, counted over its declarations. -/
def demand (order : List String) (links : Links) (id : String) : Int :=
  (order.filter (· == id)).length * (linksOf links id).length

/-- The number of prerequisites still to come, by step. -/
abbrev Open := List (String × Int)

def lower (counts : Open) (id : String) : Open :=
  counts.map fun e => if e.1 == id then (id, e.2 - 1) else e

def isFree (counts : Open) (id : String) : Bool :=
  -- Counts are a record filled name by name, which has none for the reserved name.
  counts.lookup id == some 0 && id != Record.reserved

/-- Counts a placed step off for each of the steps that wait for it: the new counts, and the steps
that became free, in that order. -/
def release (counts : Open) : List String → Open × List String
  | [] => (counts, [])
  | w :: rest =>
    let counts := lower counts w
    let (after, freed) := release counts rest
    (after, if isFree counts w then w :: freed else freed)

/-! ## Placing -/

/-- Places the steps of the queue one by one, at most `fuel` of them. -/
def place (order : List String) (links : Links) :
    Nat → Open → List String → List String
  | 0, _, _ => []
  | _, _, [] => []
  | fuel + 1, counts, u :: queue =>
    let (counts, freed) := release counts (waiters order links u)
    -- Steps that became free line up behind those that were free before.
    u :: place order links fuel counts (queue ++ freed)

def placed (order : List String) (links : Links) : List String :=
  let counts : Open := order.map fun id => (id, demand order links id)
  place order links order.length counts (order.filter (isFree counts))

/-! ## Cycles -/

/-- Walks from a step to its first prerequisite that is left over, and on, until a step comes up
again. `path` is the way so far, the last step first; the result is the way from the step that came
up again, in the direction of execution and closed by that step. -/
def walk (left : List String) (links : Links) :
    Nat → List String → String → Option (List String)
  | 0, _, _ => none
  | fuel + 1, path, node =>
    if path.contains node then
      let loop := path.takeWhile (· != node) ++ [node]
      some (loop ++ loop.take 1)
    else
      match (linksOf links node).find? (left.contains ·) with
      | none => none
      | some next => walk left links fuel (node :: path) next

/-- A cycle among the steps left over; the steps themselves when the walk ends without one. -/
def cycleAmong (left : List String) (links : Links) : List String :=
  match left with
  | [] => []
  | first :: _ => (walk left links (left.length + 1) [] first).getD left

/-- The steps in an order in which each follows its prerequisites, or a cycle. -/
def sort (order : List String) (links : Links) : Except (List String) (List String) :=
  let out := placed order links
  -- Steps on a cycle and behind one never become free.
  if out.length = order.length then .ok out
  else .error (cycleAmong (order.filter fun id => !out.contains id) links)

/-! ## Checked links -/

inductive Fault
  /-- A name for which there is no list of prerequisites, or a prerequisite that has no place. -/
  | loose (id : String)
  | cycle (ids : List String)
  deriving DecidableEq, Inhabited

/-- What keeps a name from being linked to others: it has an innate name and no prerequisites of its
own, or a prerequisite is not among the names. -/
def loose? (order : List String) (links : Links) (id : String) : Option String :=
  if links.lacksList id then some id else (linksOf links id).find? fun p => !order.contains p

def arrange (order : List String) (links : Links) : Except Fault (List String) :=
  match order.findSome? (loose? order links) with
  | some id => .error (.loose id)
  | none => (sort order links).mapError .cycle

end Walkthrough.Order
