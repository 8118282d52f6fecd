import Walkthrough.Yaml.Tree

/-!
# Tags and directives

A tag names the type of a node. It is written with a handle, which stands for a common beginning of
tags; a `%TAG` directive sets what a handle stands for. `Handles.resolve` gives the full tag of a
written one, and `Handles.abbreviate` goes back.
-/

namespace Walkthrough.Yaml

/-- What the handles stand for, in the order in which they have been set. -/
abbrev Handles := Ledger String

/-- What the tags begin with that every document knows. -/
def commonTag : String :=
  "tag:yaml.org,2002:"

def defaultHandles : Handles :=
  [("!!", commonTag)]

/-! ## Suffixes -/

/-- The bytes of a suffix, in which `%` and two digits write a byte. -/
def suffixBytes : List Char → List UInt8
  | '%' :: a :: b :: rest => UInt8.ofNat (Number.wholeOf 16 [a, b]) :: suffixBytes rest
  | c :: rest => UInt8.ofNat c.toNat :: suffixBytes rest
  | [] => []

def decodeSuffix? (cs : List Char) : Option String :=
  (String.fromUTF8? ⟨(suffixBytes cs).toArray⟩).map Text.receive

def escapeSuffixChar (c : Char) : List Char :=
  match c with
  | '!' => "%21".toList
  | ',' => "%2C".toList
  | '[' => "%5B".toList
  | ']' => "%5D".toList
  | '\x7b' => "%7B".toList
  | '\x7d' => "%7D".toList
  | c => [c]

/-! ## Tags -/

namespace Handles

def resolve (h : Handles) (p : Piece) : Except Complaint String :=
  let source := String.ofList p.source
  match p.source with
  | ['!'] => .ok "!"
  | '!' :: '<' :: rest =>
    let tag := String.ofList rest.dropLast
    if tag == "!" || tag == "!!" then .error (p.complain (.verbatimIndicator source))
    else if p.source.getLast? != some '>' then .error (p.complain .openVerbatimTag)
    else .ok tag
  | _ =>
    let suffix := (p.source.reverse.takeWhile (· != '!')).reverse
    let handle := String.ofList (p.source.take (p.source.length - suffix.length))
    if suffix.isEmpty then .error (p.complain (.tagWithoutSuffix source))
    else
      match h.get? handle with
      | some start =>
        if start.isEmpty then
          if handle == "!" then .ok source else .error (p.complain (.unknownHandle source))
        else
          match decodeSuffix? suffix with
          | some s => .ok (start ++ s)
          | none => .error (p.complain .badTagSuffix)
      | none =>
        if handle == "!" then .ok source else .error (p.complain (.unknownHandle source))

def abbreviate (h : Handles) (tag : String) : String :=
  match h.find? fun e => e.2.toList.isPrefixOf tag.toList with
  | some (handle, start) =>
    handle ++ String.ofList ((tag.toList.drop start.length).flatMap escapeSuffixChar)
  | none => if tag.toList.head? == some '!' then tag else "!<" ++ tag ++ ">"

end Handles

/-! ## Directives -/

def isVersion (s : String) : Bool :=
  match Text.parts '.' s with
  | [a, b] =>
    !a.isEmpty && !b.isEmpty && a.toList.all Text.isDigit && b.toList.all Text.isDigit
  | _ => false

def directiveWords (source : List Char) : List String :=
  let line := (Text.trimChars source).map fun c => if c == '\t' then ' ' else c
  (Text.parts ' ' (String.ofList line)).filter (!·.isEmpty)

/-- The handles after a directive. Directives other than `%TAG` and `%YAML` have no effect. -/
def readDirective (h : Handles) (offset : Nat) (source : List Char) : Except Complaint Handles :=
  let stop := offset + Text.units source
  match directiveWords source with
  | "%TAG" :: [handle, start] => .ok (h.put handle start)
  | "%TAG" :: _ => .error ⟨.tagDirectiveParts, offset, stop⟩
  | "%YAML" :: [version] =>
    if isVersion version then .ok h
    else .error ⟨.unsupportedVersion version, offset + 6, stop⟩
  | "%YAML" :: _ => .error ⟨.versionDirectiveParts, offset, stop⟩
  | _ => .ok h

end Walkthrough.Yaml
