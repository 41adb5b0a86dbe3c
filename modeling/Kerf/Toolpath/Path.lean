import Kerf.Geometry.Polyline
import Kerf.Stock.Form
import Kerf.Text.Quoted
import Kerf.Tool
import Kerf.Toolpath.Additions
import Kerf.Toolpath.Point

/-!
# Paths and operations

A path is an ordered cutting motion. Its tool and stock may be left open, to be filled in from the
operation that groups it with others and from the job around them.
-/

set_option autoImplicit false

namespace Kerf

open Kerf.Stock (Form)

abbrev Track := List Point

namespace Track

def positions (track : Track) : Polyline := track.map (·.position)

/-- Whether at least three points end where they start, within a tolerance. -/
def isClosed (track : Track) (tolerance : Float) : Bool :=
  match track.head?, track.getLast? with
  | some first, some last =>
      3 ≤ track.length && (first.position - last.position).length <= tolerance
  | _, _ => false

/-- Whether there are points, all in one horizontal plane and with directions straight up. -/
def isFlat (track : Track) : Bool :=
  match track with
  | [] => false
  | first :: _ =>
      track.all fun point =>
        !((point.position.z - first.position.z).abs > 1e-6) && point.direction.isVertical

def warnFirst (message : String) : Track → Track
  | [] => []
  | first :: rest => first.addWarning message :: rest

def warnLast (message : String) : Track → Track
  | [] => []
  | [last] => [last.addWarning message]
  | point :: rest => point :: warnLast message rest

end Track

structure Path where
  name : String
  points : Track := []
  tool : Option Tool := none
  form : Option Form := none
  additions : Additions := {}
  preCode : String := ""
  postCode : String := ""
  deriving Inhabited

/-- What a path lacks to be written. -/
inductive Missing where
  | tool
  | stock
  deriving DecidableEq, Repr

def Missing.name : Missing → String
  | .tool => "tool"
  | .stock => "stock"

inductive PathError where
  | missingContext (path : String) (missing : Missing)
  | unprocessedAdditions (path : String)
  deriving DecidableEq, Repr

def PathError.message : PathError → String
  | .missingContext path missing =>
      "toolpath: path " ++ Text.quoted path ++ " has no " ++ missing.name
  | .unprocessedAdditions path =>
      "toolpath: path " ++ Text.quoted path ++ " still has unprocessed additions"

namespace Path

def length (path : Path) : Float := path.points.positions.length

/-- The tool and stock of a path, or what is missing, the tool first. -/
def context (path : Path) : Except PathError (Tool × Form) :=
  match path.tool, path.form with
  | none, _ => .error (.missingContext path.name .tool)
  | some _, none => .error (.missingContext path.name .stock)
  | some tool, some form => .ok (tool, form)

/-- Checks that a path can be written: its context is known and no stage is left to run. -/
def ready (path : Path) : Except PathError (Tool × Form) := do
  let context ← path.context
  if path.additions.pending then throw (.unprocessedAdditions path.name)
  return context

/-- Fills in a missing tool or stock. -/
def resolve (path : Path) (tool : Option Tool) (form : Option Form) : Path :=
  { path with tool := path.tool <|> tool, form := path.form <|> form }

end Path

/-- A group of paths that belong together, such as one pocket. -/
structure Operation where
  name : String
  paths : List Path := []
  /-- The tool of paths that have none. -/
  tool : Option Tool := none
  /-- The stock of paths that have none. -/
  form : Option Form := none
  deriving Inhabited

namespace Operation

/-- Fills in what is missing in the paths up to the first that stays without context. Later paths
are left alone. -/
def resolvePaths (tool : Option Tool) (form : Option Form) :
    List Path → List Path × Option PathError
  | [] => ([], none)
  | path :: rest =>
      let path := path.resolve tool form
      match path.context with
      | .error cause => (path :: rest, some cause)
      | .ok _ =>
          let (rest, cause) := resolvePaths tool form rest
          (path :: rest, cause)

/-- Fills in what is missing from the operation and then from the defaults, and reports the first
path left without context. -/
def resolve (operation : Operation) (tool : Option Tool) (form : Option Form) :
    Operation × Option PathError :=
  let tool := operation.tool <|> tool
  let form := operation.form <|> form
  let (paths, cause) := resolvePaths tool form operation.paths
  ({ operation with tool, form, paths }, cause)

def pointCount (operation : Operation) : Nat :=
  operation.paths.foldl (fun count path => count + path.points.length) 0

end Operation

end Kerf
