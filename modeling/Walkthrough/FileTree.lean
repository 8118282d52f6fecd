import Walkthrough.Path
import Walkthrough.Talk

/-!
# File trees

A plain picture of a disk: directories and files by their path from the root. Writing creates the
directories above a file first, and fails where a file stands in the way of a directory or the other
way round, or where a name is too long or not possible.
-/

namespace Walkthrough

structure FileTree where
  directories : List String := []
  files : Ledger String := []
  deriving DecidableEq, Inhabited

namespace FileTree

/-- The directories above a path and the path itself, from the root on. -/
def lineage (path : String) : List String :=
  let parts := Path.plainParts true path
  (List.range parts.length).map fun n => "/" ++ Text.joinWith "/" (parts.take (n + 1))

def longestName : Nat :=
  255

/-- The number of bytes that no path reaches. -/
def longestPath : Nat :=
  4096

def isPossible (path : String) : Bool :=
  Text.byteSize path < longestPath && !path.toList.contains '\x00'

def hasShortName (path : String) : Bool :=
  ((Path.plainParts true path).getLast?.map Text.byteSize).getD 0 ≤ longestName

def isDirectory (t : FileTree) (path : String) : Bool :=
  path == "/" || t.directories.contains path

/-- The tree with a directory and all those above it, and whether that succeeded. The directories
above a name that is too long are created; where a file is in the way nothing is. -/
def makeDirectory (t : FileTree) (path : String) : FileTree × Bool :=
  let all := lineage path
  if !isPossible path || all.any t.files.has then (t, false)
  else
    let wanted := all.takeWhile hasShortName
    ({ t with directories := t.directories ++ wanted.filter (!t.isDirectory ·) },
      wanted.length == all.length)

/-- The tree with a file; nothing when a directory is in its place. -/
def writeFile (t : FileTree) (path text : String) : Option FileTree :=
  if !isPossible path || !hasShortName path || t.isDirectory path then none
  else some { t with files := t.files.put path text }

def save (t : FileTree) (directory file text : String) : FileTree × Bool :=
  match t.makeDirectory directory with
  | (t, false) => (t, false)
  | (t, true) =>
    match t.writeFile file text with
    | none => (t, false)
    | some t => (t, true)

/-- The text of the file at the end of some paths, of which each is in the one before. -/
def readAlong (t : FileTree) : List String → Except ReadFault String
  | [] => .error .directory
  | path :: rest =>
    if !hasShortName path then .error .longName
    else if t.isDirectory path then readAlong t rest
    else
      match t.files.get? path with
      | none => .error .missing
      | some text => if rest.isEmpty then .ok text else .error .notDirectory

def read (t : FileTree) (path : String) : Except ReadFault String :=
  if path.toList.contains '\x00' then .error .badPath
  else if longestPath ≤ Text.byteSize path then .error .longName
  else t.readAlong (lineage path)

def ofFiles (files : List (String × String)) : FileTree :=
  files.foldl
    (fun t e => (t.save ("/" ++ Text.joinWith "/" (Path.plainParts true e.1).dropLast) e.1 e.2).1) {}

end FileTree

end Walkthrough
