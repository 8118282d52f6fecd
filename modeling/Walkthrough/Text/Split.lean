/-!
# Splitting at a character

A text is cut at the first occurrence of a separator (`name:value`, `key=value`), or at every one
of them (the parts of a dot path), and slashes are taken off its end before a path is appended.
-/

namespace Walkthrough.Text

/-- What stands before the first `sep` and what stands after it; nothing comes after when `sep`
does not occur. -/
def cutChars (sep : Char) : List Char → List Char × Option (List Char)
  | [] => ([], none)
  | c :: rest =>
    if c = sep then ([], some rest)
    else
      let (before, after) := cutChars sep rest
      (c :: before, after)

def cut (sep : Char) (s : String) : String × Option String :=
  let (before, after) := cutChars sep s.toList
  (String.ofList before, after.map String.ofList)

/-- The parts between the occurrences of `sep`: one more than there are occurrences. -/
def partsOf (sep : Char) : List Char → List (List Char)
  | [] => [[]]
  | c :: rest =>
    if c = sep then [] :: partsOf sep rest
    else
      match partsOf sep rest with
      | [] => [[c]]
      | first :: others => (c :: first) :: others

def parts (sep : Char) (s : String) : List String :=
  (partsOf sep s.toList).map String.ofList

def dropEndSlashes (s : String) : String :=
  String.ofList ((s.toList.reverse.dropWhile (· == '/')).reverse)

def startsWith (s start : String) : Bool :=
  start.toList.isPrefixOf s.toList

def after? (start s : String) : Option String :=
  if startsWith s start then some (String.ofList (s.toList.drop start.toList.length)) else none

def endsWith (s tail : String) : Bool :=
  tail.toList.isSuffixOf s.toList

def joinWith (sep : String) (items : List String) : String :=
  sep.intercalate items

def commaList (items : List String) : String :=
  joinWith ", " items

end Walkthrough.Text
