import Walkthrough.Arguments
import Walkthrough.Discovery
import Walkthrough.Endpoints
import Walkthrough.Flow.Text
import Walkthrough.Session.Command
import Walkthrough.Settings

/-!
# The program

A run of the program reads its settings, loads a flow, asks the server for its endpoints, and then
either walks through the flow on its own or holds a dialogue with the user. What comes before the
dialogue, and the walk, is a `Talk`: `Program.opening`. The dialogue goes on for as long as there are
lines, so no `Talk` is the whole of it; `Program.turn` is what one line does.

Two packages have a part in a run, and `Packages` holds what they do: one completes the environment
before anything else happens, the other reads documents.
-/

namespace Walkthrough

inductive Ending
  | success
  | failure
  deriving DecidableEq, Inhabited

/-- What packages do for the program. -/
structure Packages where
  /-- Completes the environment of a program that is started in a directory with the words of a
  command line. -/
  environment (directory : String) (words : List String) : Record String → Talk (Record String)
  document : Flow.TextReader

namespace Program

/-- What a run has come to. -/
inductive Moment
  | ended (ending : Ending)
  /-- The user is asked for the next line. -/
  | talking (s : Session) (opts : RunOptions)

/-! ## Starting -/

/-- The variables that a session starts with: those of the arguments over the key of the settings. -/
def vars (settings : Settings) (args : Arguments) : Record String :=
  let key := match Session.filled? settings.apiKey with
    | some key => [("api_key", key)]
    | none => []
  Record.overlay key args.vars

def archive? (settings : Settings) (args : Arguments) : Option Archive :=
  (Session.filled? (args.runId.or settings.runId)).map fun run => { run }

def discoveryNotes (url : String) (server : Server) : List Note :=
  .leveled .info (Colour.green "✓" ++ " discovered " ++ toString server.endpoints.length
      ++ " endpoints at " ++ url)
    :: server.describe.map fun line => .leveled .info (Colour.gray line)

def fallbackNote (f : DiscoveryFault) : Note :=
  .leveled .warn (f.message ++ "; falling back to configured endpoint defaults")

def serverlessNote : Note :=
  .leveled .warn
    "no OAuth server URL set (OAUTH_SERVER_URL or --server); endpoint defaults must be absolute URLs"

def usageNotes (s : Session) : List Note :=
  (Endpoints.usage s.flow s.discovered).map fun line => .leveled .info (Colour.gray line)

def discover (s : Session) (limit : Number) : Talk Session :=
  match Session.filled? s.serverUrl with
  | none => .note serverlessNote (.done s)
  | some url => do
    let s ← (Server.discover url limit).bind fun
      | .ok server =>
        (Talk.sayAll (discoveryNotes url server)).bind fun _ =>
          .done { s with discovered := server.endpoints }
      | .error f => .note (fallbackNote f) (.done s)
    Talk.sayAll (usageNotes s)
    return s

def start (read : Flow.TextReader) (directory : String) (settings : Settings) (args : Arguments) :
    Talk (Except Flow.LoadFault (Session × RunOptions)) := do
  match ← Flow.load read directory (args.flowPath.getD settings.flowPath) with
  | .error f => return .error f
  | .ok flow =>
    Talk.sayAll (flow.warnings.map (.leveled .warn))
    -- The command line counts more than the environment.
    let serverUrl := args.serverUrl.or settings.serverUrl
    let s ← discover { flow, serverUrl, vars := vars settings args } settings.limit
    return .ok (s, { limit := settings.limit, serverUrl, archive := archive? settings args })

/-! ## Going on -/

def giveUp (m : Misuse) : Talk Moment :=
  .note (.leveled .error m.report.describe) (.done (.ended .failure))

/-- Walks through the flow and shows what it has come to; a failed step is a failure of the run. -/
def walk (s : Session) (opts : RunOptions) : Talk Moment := do
  match ← s.walk opts with
  | (_, .error m) => giveUp m
  | (_, .ok summary) =>
    Talk.sayAll (Session.summaryNotes summary)
    return .ended (if summary.failed.isEmpty then .success else .failure)

/-- Shows the steps before the dialogue with the user, who is offered the manual steps. -/
def converse (s : Session) (opts : RunOptions) : Talk Moment :=
  match s.overview with
  | .error m => giveUp m
  | .ok notes => do
    Talk.sayAll (notes ++ [.line (Colour.gray "\ntype 'help' for commands")])
    return .talking s { opts with onManual := some Session.offerStep }

/-- Asks the user for a line and carries it out. -/
def turn (s : Session) (opts : RunOptions) : Talk Moment :=
  .ask .command fun
    | none => .done (.ended .success)
    | some line =>
      (s.command line opts).bind fun
        | (_, .error m) => giveUp m
        | (_, .ok false) => .done (.ended .success)
        | (s, .ok true) => .done (.talking s opts)

/-! ## The whole -/

def setLevel (settings : Settings) : Talk Unit :=
  match settings.level with
  | some level => .floor level (.done ())
  | none => .done ()

/-- All that happens before a walk or a dialogue: the session and the options for it, unless there is
a fault in the settings or the flow. -/
def prepare (p : Packages) (directory : String) (env : Record String) (words : List String) :
    Talk (Option (Session × RunOptions)) :=
  (p.environment directory words env).bind fun env =>
    -- From here on the level holds, also for complaints about the settings.
    .floor (Level.ofEnvironment env) <|
      match Settings.ofEnvironment env with
      | .error s => .note (.fatal ("[fatal] Error: " ++ Settings.limitComplaint s)) (.done none)
      | .ok settings =>
        (setLevel settings).bind fun _ =>
          (start p.document directory settings (Arguments.read words)).bind fun
            | .error f => .note f.note (.done none)
            | .ok started => .done (some started)

/-- A run in a directory with an environment and the words of a command line, up to its end or to
the dialogue. -/
def opening (p : Packages) (directory : String) (env : Record String) (words : List String) :
    Talk Moment :=
  (prepare p directory env words).bind fun
    | none => .done (.ended .failure)
    | some (s, opts) => if (Arguments.read words).auto then walk s opts else converse s opts

end Program

end Walkthrough
