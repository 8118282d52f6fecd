import Walkthrough.Assignments

/-!
# Arguments

The arguments of the command line: `--flow`, `--server`, `--run-id` and `--var` take a value, either
after an equals sign or as the next argument if that is not empty; `--auto` takes none. All other
arguments are passed over.
-/

namespace Walkthrough

structure Arguments where
  flowPath : Option String := none
  serverUrl : Option String := none
  runId : Option String := none
  vars : Record String := []
  auto : Bool := false
  deriving DecidableEq, Inhabited

namespace Arguments

inductive Key
  | flow
  | server
  | run
  | variableOf
  deriving DecidableEq

def keys : List (String × Key) :=
  [("--flow", .flow), ("--server", .server), ("--run-id", .run), ("--var", .variableOf)]

def attached? (word : String) : Option (Key × String) :=
  keys.findSome? fun k => (Text.after? (k.1 ++ "=") word).map fun value => (k.2, value)

/-- The arguments with one of them set. A variable that is no assignment is passed over. -/
def set (a : Arguments) (k : Key) (value : String) : Arguments :=
  match k with
  | .flow => { a with flowPath := some value }
  | .server => { a with serverUrl := some value }
  | .run => { a with runId := some value }
  | .variableOf =>
    match Assignments.read? value with
    | some (name, value) => { a with vars := a.vars.assign name value }
    | none => a

def readFrom (a : Arguments) : List String → Arguments
  | [] => a
  | word :: rest =>
    match attached? word, keys.lookup word, rest with
    | some (k, value), _, rest => readFrom (a.set k value) rest
    | none, some k, value :: rest =>
      if value.isEmpty then readFrom a rest else readFrom (a.set k value) rest
    | none, _, rest => readFrom (if word == "--auto" then { a with auto := true } else a) rest

def read (words : List String) : Arguments :=
  readFrom {} words

end Arguments

end Walkthrough
