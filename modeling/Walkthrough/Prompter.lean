/-!
# Lines and readers

Lines of input arrive on their own, and the program asks for them when it needs one. A `Prompter`
brings the two together: a line goes to the reader that has waited longest, or is kept for the next
one; a reader gets the oldest line that is kept, or waits. When the input ends, all waiting readers
get nothing, and so do all later ones once no line is kept.

Readers are numbered in the order of their calls.
-/

namespace Walkthrough

/-- The lines that are kept, the readers that wait, and whether the input has ended. -/
structure Prompter where
  kept : List String := []
  waiting : List Nat := []
  ended : Bool := false
  /-- The number of the next reader. -/
  next : Nat := 0
  deriving DecidableEq, Inhabited

namespace Prompter

inductive Event
  | line (s : String)
  | read
  | close
  deriving DecidableEq

inductive Effect
  /-- A reader gets a line, or nothing. -/
  | deliver (reader : Nat) (line : Option String)
  /-- The question of a reader is put to the user. -/
  | asked (reader : Nat)
  deriving DecidableEq

def receive (p : Prompter) (s : String) : Prompter × List Effect :=
  match p.waiting with
  | reader :: rest => ({ p with waiting := rest }, [.deliver reader (some s)])
  | [] => ({ p with kept := p.kept ++ [s] }, [])

def read (p : Prompter) : Prompter × List Effect :=
  let reader := p.next
  match p.kept with
  | s :: rest => ({ p with kept := rest, next := reader + 1 }, [.deliver reader (some s)])
  | [] =>
    if p.ended then ({ p with next := reader + 1 }, [.deliver reader none])
    else ({ p with waiting := p.waiting ++ [reader], next := reader + 1 }, [.asked reader])

def close (p : Prompter) : Prompter × List Effect :=
  ({ p with ended := true, waiting := [] }, p.waiting.map fun reader => .deliver reader none)

def step (p : Prompter) : Event → Prompter × List Effect
  | .line s => p.receive s
  | .read => p.read
  | .close => p.close

def run (p : Prompter) : List Event → Prompter × List Effect
  | [] => (p, [])
  | e :: rest =>
    let (p, effects) := p.step e
    let (p, later) := run p rest
    (p, effects ++ later)

end Prompter

end Walkthrough
