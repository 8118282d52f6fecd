import Walkthrough.Value

/-!
# Assignments

Words of the form `name=value`, as given on the command line and in commands. The name is not empty
and ends at the first equals sign.
-/

namespace Walkthrough.Assignments

def read? (word : String) : Option (String × String) :=
  match Text.cut '=' word with
  | (name, some value) => if name.isEmpty then none else some (name, value)
  | (_, none) => none

/-- The fields that the words assign; other words are left out. -/
def fields (words : List String) : Fields :=
  (words.filterMap read?).foldl (fun fs e => fs.assign e.1 (.text e.2)) []

end Walkthrough.Assignments
