/-!
# Spreading along links

From some names, all names that can be reached by following links. Ancestors of a step and the
steps affected by a restart are found this way.
-/

namespace Walkthrough

/-- The names that the links of the front lead to and that have not been seen yet. -/
def freshNames (next : String → List String) (front seen : List String) : List String :=
  (front.flatMap next).eraseDups.filter fun x => !seen.contains x

/-- The names seen so far with all those reached from the front in at most `rounds` rounds. -/
def spread (next : String → List String) : Nat → List String → List String → List String
  | 0, _, seen => seen
  | rounds + 1, front, seen =>
    let fresh := freshNames next front seen
    if fresh.isEmpty then seen else spread next rounds fresh (seen ++ fresh)

end Walkthrough
