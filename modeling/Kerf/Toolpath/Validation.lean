import Kerf.Toolpath.Path

/-!
# Validation

What is wrong with the geometry of a path. A finding of severity `error` keeps the path out of the
program; a warning is only reported.
-/

set_option autoImplicit false

namespace Kerf

/-- Whether a finding keeps a path out of the program. -/
inductive Severity where
  | error
  | warning
  deriving DecidableEq, Repr

def Severity.name : Severity → String
  | .error => "error"
  | .warning => "warning"

inductive Issue where
  | noPoints
  | position
  | direction
  | toolWidth
  | offsetNotFlat
  deriving DecidableEq, Repr

def Issue.message : Issue → String
  | .noPoints => "path has no points"
  | .position => "position is not finite"
  | .direction => "direction is zero or not finite"
  | .toolWidth => "tool width is not positive"
  | .offsetNotFlat => "offset requested on a path that is not flat"

def Issue.severity : Issue → Severity
  | .noPoints | .position | .direction => .error
  | .toolWidth | .offsetNotFlat => .warning

/-- An issue of a path, at one of its points or of the whole. -/
structure Finding where
  path : String
  index : Option Nat
  issue : Issue
  deriving DecidableEq, Repr

def Finding.message (finding : Finding) : String :=
  let severity := "[" ++ finding.issue.severity.name ++ "] "
  match finding.index with
  | some index =>
      severity ++ "path " ++ Text.quoted finding.path ++ " point " ++ toString index ++ ": " ++
        finding.issue.message
  | none =>
      if finding.path.isEmpty then severity ++ finding.issue.message
      else severity ++ "path " ++ Text.quoted finding.path ++ ": " ++ finding.issue.message

def Point.issues (point : Point) : List Issue :=
  (if point.position.isFinite then [] else [.position]) ++
    (if point.direction.isFinite && !point.direction.isShort then [] else [.direction])

/-- The issues of a whole path that has points. -/
def Path.generalIssues (path : Path) : List Issue :=
  (if path.tool.any fun tool => tool.width <= 0 then [.toolWidth] else []) ++
    (if path.additions.offset != 0 && !path.points.isFlat then [.offsetNotFlat] else [])

def Path.validate (path : Path) : List Finding :=
  if path.points.isEmpty then [⟨path.name, none, .noPoints⟩]
  else
    (path.points.zipIdx.flatMap fun (point, index) =>
      point.issues.map fun issue => ⟨path.name, some index, issue⟩) ++
      path.generalIssues.map fun issue => ⟨path.name, none, issue⟩

def Path.isInvalid (path : Path) : Bool :=
  path.validate.any fun finding => finding.issue.severity == .error

end Kerf
