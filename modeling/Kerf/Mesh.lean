import Kerf.Scalar

/-!
# Triangle meshes

A mesh is a flat list of single-precision coordinates, three a vertex, and a flat list of vertex
indices, three a triangle.
-/

set_option autoImplicit false

namespace Kerf

structure Mesh where
  coordinates : List Float32
  indices : List Nat

namespace Mesh

/-- The number of whole vertices. -/
def vertexCount (mesh : Mesh) : Nat := mesh.coordinates.length / 3

/-- The number of whole triangles. -/
def triangleCount (mesh : Mesh) : Nat := mesh.indices.length / 3

def isEmpty (mesh : Mesh) : Bool := mesh.coordinates.isEmpty

/-- The whole vertices; coordinates left over at the end are dropped. -/
def vertices : List Float32 → List (List Float32)
  | x :: y :: z :: rest => [x, y, z] :: vertices rest
  | _ => []

/-- Replaces the entries of one list that another list improves on. -/
def improve (better : Float32 → Float32 → Bool) (best next : List Float32) : List Float32 :=
  List.zipWith (fun old new => if better new old then new else old) best next

def bounds (mesh : Mesh) : List Float32 × List Float32 :=
  match vertices mesh.coordinates with
  | [] => ([0, 0, 0], [0, 0, 0])
  | first :: rest =>
      (rest.foldl (improve fun new old => new < old) first,
        rest.foldl (improve fun new old => new > old) first)

end Mesh

end Kerf
