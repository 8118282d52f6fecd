import Walkthrough.Record
import Walkthrough.Text.Upper

/-!
# The console

What the program says goes to one of three streams. A `Note` has a level, below which it is not
shown, or is shown always; warnings and errors carry their level in front. Parts of a line are
coloured with terminal codes.
-/

namespace Walkthrough

/-- The levels of notes, the least important first. -/
inductive Level
  | debug
  | info
  | warn
  | error
  deriving DecidableEq, Inhabited

namespace Level

def rank : Level → Nat
  | debug => 0
  | info => 1
  | warn => 2
  | error => 3

def name : Level → String
  | debug => "debug"
  | info => "info"
  | warn => "warn"
  | error => "error"

def all : List Level :=
  [debug, info, warn, error]

def ofText? (s : String) : Option Level :=
  all.find? fun l => Text.sameWord l.name s

/-- The least level that is shown, as the environment sets it: errors only when `QUIET` is `1`,
else the level that `LOG_LEVEL` names. -/
def ofEnvironment (env : Record String) : Level :=
  if env.get? "QUIET" == some "1" then error
  else ((env.get? "LOG_LEVEL").bind ofText?).getD info

end Level

namespace Colour

def paint (code s : String) : String :=
  "\x1b[" ++ code ++ "m" ++ s ++ "\x1b[0m"

def gray (s : String) : String := paint "90" s

def cyan (s : String) : String := paint "36" s

def green (s : String) : String := paint "32" s

def yellow (s : String) : String := paint "33" s

def red (s : String) : String := paint "31" s

end Colour

inductive Stream
  | log
  | warn
  | error
  deriving DecidableEq, Inhabited

inductive Note
  /-- A note of a level. -/
  | leveled (level : Level) (message : String)
  /-- A line that is always shown. -/
  | line (s : String)
  /-- A line on the error stream that is always shown. -/
  | fatal (s : String)
  deriving DecidableEq, Inhabited

namespace Note

def dress (level : Level) (message : String) : Stream × String :=
  match level with
  | .debug => (.log, Colour.gray ("  " ++ message))
  | .info => (.log, message)
  | .warn => (.warn, Colour.yellow ("[warn] " ++ message))
  | .error => (.error, Colour.red ("[error] " ++ message))

/-- What is written for a note when `floor` is the least level shown. -/
def shown? (floor : Level) : Note → Option (Stream × String)
  | leveled level message => if floor.rank ≤ level.rank then some (dress level message) else none
  | line s => some (.log, s)
  | fatal s => some (.error, s)

end Note

end Walkthrough
