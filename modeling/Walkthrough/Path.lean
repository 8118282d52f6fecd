import Walkthrough.Text.Split

/-!
# File paths

Paths are joined and made plain: empty parts and `.` vanish, and `..` takes back the part before it.
At the root `..` vanishes; at the start of a relative path it stays.
-/

namespace Walkthrough.Path

/-- The parts read so far, the last one first, with one more part. -/
def addPart (absolute : Bool) (done : List String) (part : String) : List String :=
  if part == "" || part == "." then done
  else if part == ".." then
    match done with
    | [] => if absolute then [] else [".."]
    | last :: before => if last == ".." then ".." :: done else before
  else part :: done

def plainParts (absolute : Bool) (path : String) : List String :=
  ((Text.parts '/' path).foldl (addPart absolute) []).reverse

def isAbsolute (path : String) : Bool :=
  Text.startsWith path "/"

/-- The path made plain. A slash at its end stays. -/
def normalize (path : String) : String :=
  let absolute := isAbsolute path
  let body := Text.joinWith "/" (plainParts absolute path)
  let tail := if Text.endsWith path "/" then "/" else ""
  if path == "" then "."
  else if body == "" then (if absolute then "/" else "." ++ tail)
  else (if absolute then "/" else "") ++ body ++ tail

def join (paths : List String) : String :=
  normalize (Text.joinWith "/" (paths.filter (· != "")))

/-- The path as seen from a directory that is given from the root on. -/
def resolve (directory path : String) : String :=
  let full := if isAbsolute path then path else directory ++ "/" ++ path
  "/" ++ Text.joinWith "/" (plainParts true full)

end Walkthrough.Path
