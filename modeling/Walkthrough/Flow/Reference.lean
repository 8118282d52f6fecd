import Walkthrough.Flow.Basic

/-!
# References

A reference is written `step.<id>.<field>` or `var.<name>`. The name of the step ends at the next
dot, so it holds none; the field or variable is all that follows, dots included, and is not empty
and stands on one line.
-/

namespace Walkthrough.Reference

/-- True of a text that can stand at the end of a reference. -/
def isTail (cs : List Char) : Bool :=
  !cs.isEmpty && cs.all fun c => !Text.isLineEnd c

def afterChars? : List Char → List Char → Option (List Char)
  | [], cs => some cs
  | _ :: _, [] => none
  | x :: xs, c :: cs => if x = c then afterChars? xs cs else none

def field? (cs : List Char) : Option Reference :=
  match afterChars? "step.".toList cs with
  | none => none
  | some rest =>
    match Text.cutChars '.' rest with
    | (id, some name) =>
      if !id.isEmpty && isTail name then some (.field (String.ofList id) (String.ofList name))
      else none
    | (_, none) => none

def setting? (cs : List Char) : Option Reference :=
  match afterChars? "var.".toList cs with
  | none => none
  | some name => if isTail name then some (.setting (String.ofList name)) else none

def read? (s : String) : Option Reference :=
  (field? s.toList).orElse fun _ => setting? s.toList

def write : Reference → String
  | field step name => "step." ++ step ++ "." ++ name
  | setting name => "var." ++ name

end Walkthrough.Reference
