import Walkthrough.Json.Printer
import Walkthrough.Yaml.Lexeme

/-!
# Flaws of documents

Every way in which a text fails to be a document is a constructor of `Flaw`, and `Flaw.message` puts
it in words. A `Complaint` adds the place in the text, counted in sixteen-bit units.
-/

namespace Walkthrough.Yaml

inductive Bracket
  | square
  | curly
  deriving DecidableEq, Inhabited

namespace Bracket

def name : Bracket → String
  | square => "flow sequence"
  | curly => "flow map"

def title : Bracket → String
  | square => "Flow sequence"
  | curly => "Flow map"

def closing : Bracket → Mark
  | square => .listEnd
  | curly => .mappingEnd

def closingText : Bracket → String
  | square => "]"
  | curly => "\x7d"

end Bracket

inductive Flaw
  /-- Text that is no lexeme. -/
  | foreign (source : String)
  /-- Text between documents that is no lexeme. -/
  | foreignBetween (source : String)
  | lexemeBetween (mark : Mark) (source : String)
  | lexemeInDocument (mark : Mark) (source : String)
  | lexemeBefore (mark : Mark)
  | lexemeAfter (mark : Mark)
  /-- An indicator or a comma that has no place in the kind of collection given. -/
  | unexpected (source place : String)
  | propertyTouches
  | commentTouches
  | tabInIndentation
  | secondAnchor
  | secondTag
  | propertyBefore (indicator : String)
  | emptyAnchor
  | emptyAlias
  | aliasWithProperties
  | verbatimIndicator (source : String)
  | openVerbatimTag
  | tagWithoutSuffix (source : String)
  | badTagSuffix
  | unknownHandle (source : String)
  | tagDirectiveParts
  | versionDirectiveParts
  | unsupportedVersion (version : String)
  | plainStart (what : String)
  | openSingleQuote
  | openDoubleQuote
  | badEscape (source : String)
  | badHeader (source : String)
  | deepLeadingLine
  | blockWithoutIndentation
  | shallowLine (explicit : Bool)
  | itemBesideName
  | listAsName
  | columnsDiffer
  | nameOverLines
  | repeatedName
  | nestedBesideName
  | longName
  | nameWithoutValue
  | commentBeforeContent
  | itemColumnsDiffer
  | itemWithoutDash
  | listBesideProperties
  | emptyItem (b : Bracket)
  | pairNameOverLines
  | longPairName
  | missingComma (b : Bracket)
  | missingSpace (b : Bracket)
  | missingSeparator (b : Bracket)
  | blockInFlow
  /-- A flow collection without its closing bracket; `isRoot` says that it is not inside of any other
  collection. -/
  | unclosed (b : Bracket) (isRoot : Bool)
  | collectionBesideMarker
  | unmarkedDirectives
  | directivesAlone
  | endWithoutDocument
  | manyDocuments
  deriving DecidableEq, Inhabited

namespace Flaw

/-- A sentence with the source that it speaks of, if there is any. -/
def quoting (sentence source : String) : String :=
  if source.isEmpty then sentence else sentence ++ ": " ++ Json.quote source

def message : Flaw → String
  | foreign source => "Not a YAML token: " ++ source
  | foreignBetween source => quoting ("Not a YAML token: " ++ source) source
  | lexemeBetween mark source =>
    quoting ("Unexpected " ++ mark.name ++ " token in YAML stream") source
  | lexemeInDocument mark source =>
    quoting ("Unexpected " ++ mark.name ++ " token in YAML document") source
  | lexemeBefore mark => "Unexpected " ++ mark.name ++ " token"
  | lexemeAfter mark => "Unexpected " ++ mark.name ++ " at node end"
  | unexpected source place => "Unexpected " ++ source ++ " in " ++ place
  | propertyTouches => "Tags and anchors must be separated from the next token by white space"
  | commentTouches =>
    "Comments must be separated from other tokens by white space characters"
  | tabInIndentation => "Tabs are not allowed as indentation"
  | secondAnchor => "A node can have at most one anchor"
  | secondTag => "A node can have at most one tag"
  | propertyBefore indicator =>
    "Anchors and tags must be after the " ++ indicator ++ " indicator"
  | emptyAnchor => "Anchor cannot be an empty string"
  | emptyAlias => "Alias cannot be an empty string"
  | aliasWithProperties => "An alias node must not specify any properties"
  | verbatimIndicator source =>
    "Verbatim tags aren't resolved, so " ++ source ++ " is invalid."
  | openVerbatimTag => "Verbatim tags must end with a >"
  | tagWithoutSuffix source => "The " ++ source ++ " tag has no suffix"
  | badTagSuffix => "URIError: URI malformed"
  | unknownHandle source => "Could not resolve tag: " ++ source
  | tagDirectiveParts => "%TAG directive should contain exactly two parts"
  | versionDirectiveParts => "%YAML directive should contain exactly one part"
  | unsupportedVersion version => "Unsupported YAML version " ++ version
  | plainStart what => "Plain value cannot start with " ++ what
  | openSingleQuote => "Missing closing 'quote"
  | openDoubleQuote => "Missing closing \x22quote"
  | badEscape source => "Invalid escape sequence " ++ source
  | badHeader source => "Block scalar header includes extra characters: " ++ source
  | deepLeadingLine =>
    "Block scalars with more-indented leading empty lines must use an explicit indentation indicator"
  | blockWithoutIndentation => "Block scalar values in collections must be indented"
  | shallowLine explicit =>
    "Block scalar lines must not be less indented than their "
      ++ (if explicit then "explicit indentation indicator" else "first line")
  | itemBesideName => "Unexpected block-seq-ind on same line with key"
  | listAsName => "A block sequence may not be used as an implicit map key"
  | columnsDiffer => "All mapping items must start at the same column"
  | nameOverLines => "Implicit keys need to be on a single line"
  | repeatedName => "Map keys must be unique"
  | nestedBesideName => "Nested mappings are not allowed in compact mappings"
  | longName =>
    "The : indicator must be at most 1024 chars after the start of an implicit block mapping key"
  | nameWithoutValue => "Implicit map keys need to be followed by map values"
  | commentBeforeContent => "Map comment with trailing content"
  | itemColumnsDiffer => "All sequence items must start at the same column"
  | itemWithoutDash => "Sequence item without - indicator"
  | listBesideProperties => "Missing newline after block sequence props"
  | emptyItem b => "Unexpected empty item in " ++ b.name
  | pairNameOverLines => "Implicit keys of flow sequence pairs need to be on a single line"
  | longPairName =>
    "The : indicator must be at most 1024 chars after the start of an implicit flow sequence key"
  | missingComma b => "Missing , between " ++ b.name ++ " items"
  | missingSpace b => "Missing space after : in " ++ b.name
  | missingSeparator b => "Missing , or : between " ++ b.name ++ " items"
  | blockInFlow => "Block collections are not allowed within flow collections"
  | unclosed b isRoot =>
    b.title
      ++ (if isRoot then " must end with a "
          else " in block collection must be sufficiently indented and end with a ")
      ++ b.closingText
  | collectionBesideMarker =>
    "Block collection cannot start on same line with directives-end marker"
  | unmarkedDirectives => "Missing directives-end/doc-start indicator line"
  | directivesAlone => "Missing directives-end indicator line"
  | endWithoutDocument => "Unexpected doc-end without preceding document"
  | manyDocuments =>
    "Source contains multiple documents; please use YAML.parseAllDocuments()"

end Flaw

/-- A flaw and the place where it shows: the first unit, and the one after the last. -/
structure Complaint where
  flaw : Flaw
  first : Nat
  stop : Nat
  deriving DecidableEq, Inhabited

def Flaw.at (f : Flaw) (place : Nat) : Complaint :=
  ⟨f, place, place + 1⟩

end Walkthrough.Yaml
