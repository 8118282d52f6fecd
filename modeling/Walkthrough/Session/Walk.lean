import Walkthrough.Session.Attempt

/-!
# Walks

`Session.walk` goes through a flow as far as it gets. In each round it attempts the first eligible
automatic step that has not been attempted in this walk; when there is none, it offers the first
eligible manual step that has not been offered. Steps behind a manual step that nobody completes are
waiting, not failed. The summary puts every step in one of four lists, eligible automatic steps
apart, of which none is left.

Every round deals with another step, so there are at most as many rounds as steps.
-/

namespace Walkthrough

structure Summary where
  /-- The steps that were attempted, in order. -/
  executed : List String
  completed : List String
  failed : List String
  /-- The eligible manual steps that nobody has completed. -/
  waiting : List String
  blocked : List String
  deriving DecidableEq, Inhabited

inductive Round
  | attempt (id : String)
  | offer (d : Step)

namespace Session

/-- What to do next, given the eligible steps, those attempted and those offered. -/
def nextRound (f : Flow) (eligible attempted offered : List String) (offers : Bool) :
    Option Round :=
  match eligible.find? fun id => !f.isManual id && !attempted.contains id with
  | some id => some (.attempt id)
  | none =>
    if offers then
      match eligible.find? fun id => f.isManual id && !offered.contains id with
      | some id => (f.step? id).map .offer
      | none => none
    else none

def manualDone (id : String) : String :=
  Colour.green "✓ done" ++ " " ++ id ++ " " ++ Colour.gray "(manual)"

/-- The rounds of a walk, at most `fuel` of them: the session after them, and the steps attempted. -/
def rounds (opts : RunOptions) :
    Nat → Session → List String → List String → Talk (Session × Except Misuse (List String))
  | 0, s, attempted, _ => .done (s, .ok attempted)
  | fuel + 1, s, attempted, offered =>
    match s.eligible with
    | .error m => .done (s, .error m)
    | .ok eligible =>
      match nextRound s.flow eligible attempted offered opts.onManual.isSome, opts.onManual with
      | none, _ => .done (s, .ok attempted)
      | some (.attempt id), _ =>
        (s.attempt id opts).bind fun
          | .error m => .done (s, .error m)
          | .ok (s, _) => rounds opts fuel s (attempted ++ [id]) offered
      | some (.offer _), none => .done (s, .ok attempted)
      | some (.offer d), some offer =>
        (offer d).bind fun
          | none => rounds opts fuel s attempted (offered ++ [d.id])
          | some fields =>
            match s.completeManual d.id fields with
            | .error m => .done (s, .error m)
            | .ok s =>
              .note (.leveled .info (manualDone d.id))
                (rounds opts fuel s attempted (offered ++ [d.id]))

def viewed (standings : List Standing) (v : View) : List String :=
  (standings.filter (·.view == v)).map (·.id)

def summaryOf (f : Flow) (executed : List String) (standings : List Standing) : Summary :=
  { executed, completed := viewed standings .completed, failed := viewed standings .failed
    waiting := (viewed standings .eligible).filter f.isManual
    blocked := viewed standings .blocked }

def walkNote (f : Flow) (m : Summary) : Note :=
  .leveled .info <| Colour.gray <|
    "\nrun: " ++ toString m.executed.length ++ " executed, " ++ toString m.completed.length ++ "/"
      ++ toString f.steps.length ++ " completed, " ++ toString m.failed.length ++ " failed, "
      ++ toString m.waiting.length ++ " waiting " ++ noTime

/-- Goes through the flow as far as possible: the session after that, and a summary. -/
def walk (s : Session) (opts : RunOptions) : Talk (Session × Except Misuse Summary) :=
  (rounds opts s.flow.steps.length s [] []).bind fun (s, outcome) =>
    match outcome with
    | .error m => .done (s, .error m)
    | .ok executed =>
      match s.classify with
      | .error m => .done (s, .error m)
      | .ok standings =>
        let m := summaryOf s.flow executed standings
        .note (walkNote s.flow m) (.done (s, .ok m))

end Session

end Walkthrough
