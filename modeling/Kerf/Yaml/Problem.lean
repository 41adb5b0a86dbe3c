/-!
# What can be wrong with a document

Every problem has its own text. The line in a message is that of the construct in which the problem
was met, or else the line of the problem itself; the first line of a document is never named.
-/

set_option autoImplicit false

namespace Kerf.Yaml

inductive Problem where
  | controlCharacter
  | colonMissing
  | tooDeep
  | entryNotAllowed
  | keyNotAllowed
  | valueNotAllowed
  | unknownDirective
  | lineEndMissing
  | directiveNameMissing
  | directiveNameBroken
  | versionBroken
  | versionTooLong
  | versionMissing
  | directiveBlankMissing
  | blankMissing
  | anchorNameMissing
  | tagEndMissing
  | tagMarkMissing
  | tagMissing
  | octetMissing
  | leadingOctet
  | trailingOctet
  | zeroIndentation
  | tabForIndentation
  | documentMarkInQuotes
  | endInQuotes
  | unknownEscape
  | digitMissing
  | invalidCode
  | tabInIndentation
  | noToken
  | documentStartMissing
  | unknownTagHandle
  | contentMissing
  | dashMissing
  | keyMissing
  | sequenceEndMissing
  | mappingEndMissing
  | versionRepeated
  | versionUnknown
  | tagHandleRepeated
  deriving DecidableEq, Repr

def Problem.text : Problem → String
  | .controlCharacter => "control characters are not allowed"
  | .colonMissing => "could not find expected ':'"
  | .tooDeep => "exceeded max depth of 10000"
  | .entryNotAllowed => "block sequence entries are not allowed in this context"
  | .keyNotAllowed => "mapping keys are not allowed in this context"
  | .valueNotAllowed => "mapping values are not allowed in this context"
  | .unknownDirective => "found unknown directive name"
  | .lineEndMissing => "did not find expected comment or line break"
  | .directiveNameMissing => "could not find expected directive name"
  | .directiveNameBroken => "found unexpected non-alphabetical character"
  | .versionBroken => "did not find expected digit or '.' character"
  | .versionTooLong => "found extremely long version number"
  | .versionMissing => "did not find expected version number"
  | .directiveBlankMissing => "did not find expected whitespace"
  | .blankMissing => "did not find expected whitespace or line break"
  | .anchorNameMissing => "did not find expected alphabetic or numeric character"
  | .tagEndMissing => "did not find the expected '>'"
  | .tagMarkMissing => "did not find expected '!'"
  | .tagMissing => "did not find expected tag URI"
  | .octetMissing => "did not find URI escaped octet"
  | .leadingOctet => "found an incorrect leading UTF-8 octet"
  | .trailingOctet => "found an incorrect trailing UTF-8 octet"
  | .zeroIndentation => "found an indentation indicator equal to 0"
  | .tabForIndentation => "found a tab character where an indentation space is expected"
  | .documentMarkInQuotes => "found unexpected document indicator"
  | .endInQuotes => "found unexpected end of stream"
  | .unknownEscape => "found unknown escape character"
  | .digitMissing => "did not find expected hexdecimal number"
  | .invalidCode => "found invalid Unicode character escape code"
  | .tabInIndentation => "found a tab character that violates indentation"
  | .noToken => "found character that cannot start any token"
  | .documentStartMissing => "did not find expected <document start>"
  | .unknownTagHandle => "found undefined tag handle"
  | .contentMissing => "did not find expected node content"
  | .dashMissing => "did not find expected '-' indicator"
  | .keyMissing => "did not find expected key"
  | .sequenceEndMissing => "did not find expected ',' or ']'"
  | .mappingEndMissing => "did not find expected ',' or '\x7d'"
  | .versionRepeated => "found duplicate %YAML directive"
  | .versionUnknown => "found incompatible YAML document"
  | .tagHandleRepeated => "found duplicate %TAG directive"

/-- Why a text is not a document, or why its content cannot be read. -/
inductive Fault where
  /-- A problem, and the number of its line if it is named. -/
  | malformed (problem : Problem) (line : Option Nat)
  | unknownAnchor (name : String)
  /-- The content of an anchor holds an alias of it. -/
  | endless (name : String)
  /-- A scalar does not have the kind that its tag asks for. -/
  | wrongTag (found text wanted : String)
  | brokenBinary
  /-- What is merged is no mapping. -/
  | mergeOfOther
  | wrongCount (wanted found : Nat)
  deriving DecidableEq, Repr

def Fault.message : Fault → String
  | .malformed problem line =>
      "yaml: " ++ (match line with
        | some number => "line " ++ toString number ++ ": "
        | none => "") ++ problem.text
  | .unknownAnchor name => "yaml: unknown anchor '" ++ name ++ "' referenced"
  | .endless name => "yaml: anchor '" ++ name ++ "' value contains itself"
  | .wrongTag found text wanted =>
      "yaml: cannot decode " ++ found ++ " \x60" ++ text ++ "\x60 as a " ++ wanted
  | .brokenBinary => "yaml: !!binary value contains invalid base64 data"
  | .mergeOfOther => "yaml: map merge requires map or sequence of maps as the value"
  | .wrongCount wanted found =>
      "yaml: invalid array: want " ++ toString wanted ++ " elements but got " ++ toString found

/-- A problem met while reading characters, within a construct that starts on one line. Lines are
counted from zero. -/
def Fault.whileReading (contextLine problemLine : Nat) (problem : Problem) : Fault :=
  .malformed problem
    (if contextLine ≠ 0 then some (contextLine + 1)
      else if problemLine ≠ 0 then some (problemLine + 1) else none)

/-- A problem met while putting the parts of a document together. The line that is named is the one
before. -/
def Fault.whileJoining (contextLine problemLine : Nat) (problem : Problem) : Fault :=
  .malformed problem
    (if contextLine ≠ 0 then some contextLine
      else if problemLine ≠ 0 then some problemLine else none)

end Kerf.Yaml
