import Walkthrough.Console
import Walkthrough.Exchange

/-!
# Talking to the surroundings

All that the program does to the world and learns from it is a `Talk`: a tree whose nodes send a
request, ask the user, say something, read or write a file, or set the level of what is said, and
whose branches are the possible replies. The program itself is plain data; `Talk.run` lets a `Host`
give the replies. So a statement about the program for every behaviour of servers, users and disks
is a statement for every host.
-/

namespace Walkthrough

inductive Question
  /-- The next command. -/
  | command
  /-- The value of a field of a manual step. -/
  | field (step name : String)
  /-- Whether a manual step is to be completed now. -/
  | confirm (step title : String)
  deriving DecidableEq, Inhabited

namespace Question

def text : Question → String
  | command => "> "
  | field step name => "Enter value for '" ++ name ++ "' (" ++ step ++ "): "
  | confirm step title => "Manual step " ++ step ++ ") " ++ title ++ ": complete now? [y/N] "

end Question

inductive ReadFault
  | missing
  | directory
  /-- A file stands where the path needs a directory. -/
  | notDirectory
  | longName
  /-- The path has a character that no path can have. -/
  | badPath
  | other (reason : String)
  deriving DecidableEq, Inhabited

namespace ReadFault

/-- The code of a fault and what it means. -/
def reason : ReadFault → String × String
  | missing => ("ENOENT", "no such file or directory")
  | directory => ("EISDIR", "illegal operation on a directory")
  | notDirectory => ("ENOTDIR", "not a directory")
  | longName => ("ENAMETOOLONG", "name too long")
  | badPath => ("ERR_INVALID_ARG_VALUE", "invalid path")
  | other reason => ("EIO", reason)

end ReadFault

/-- A program that ends in a value of the given type. -/
inductive Talk (α : Type) : Type
  | done (a : α)
  | send (request : Wire) (next : Outcome → Talk α)
  | ask (question : Question) (next : Option String → Talk α)
  | note (n : Note) (next : Talk α)
  | floor (level : Level) (next : Talk α)
  | read (file : String) (next : Except ReadFault String → Talk α)
  /-- Writes a file in a directory that is created if need be; the reply is the reason of a
  failure. -/
  | save (directory file text : String) (next : Option String → Talk α)

namespace Talk

variable {α β : Type}

/-! ## Programs one after the other -/

def bind (t : Talk α) (f : α → Talk β) : Talk β :=
  match t with
  | done a => f a
  | send request next => send request fun o => (next o).bind f
  | ask question next => ask question fun a => (next a).bind f
  | note n next => note n (next.bind f)
  | floor level next => floor level (next.bind f)
  | read file next => read file fun c => (next c).bind f
  | save directory file text next => save directory file text fun r => (next r).bind f

instance : Monad Talk where
  pure := done
  bind := bind

def say (n : Note) : Talk Unit :=
  note n (done ())

def sayAll : List Note → Talk Unit
  | [] => done ()
  | n :: rest => note n (sayAll rest)

def question (q : Question) : Talk (Option String) :=
  ask q done

/-! ## Running -/

/-- What gives the replies, in some monad. -/
structure Host (m : Type → Type) where
  send : Wire → m Outcome
  ask : Question → m (Option String)
  note : Note → m Unit
  floor : Level → m Unit
  read : String → m (Except ReadFault String)
  save : String → String → String → m (Option String)

def run {m : Type → Type} [Monad m] (host : Host m) : Talk α → m α
  | done a => pure a
  | send request next => host.send request >>= fun o => run host (next o)
  | ask question next => host.ask question >>= fun a => run host (next a)
  | note n next => host.note n >>= fun _ => run host next
  | floor level next => host.floor level >>= fun _ => run host next
  | read file next => host.read file >>= fun c => run host (next c)
  | save directory file text next =>
    host.save directory file text >>= fun r => run host (next r)

end Talk

end Walkthrough
