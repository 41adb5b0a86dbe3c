import Kerf.Stock.Crossing
import Kerf.Toolpath.Path

/-!
# Projection onto stock

Rays are dropped onto stock to make tool points on its surface.
-/

set_option autoImplicit false

namespace Kerf.Projection

open Kerf.Stock (Form Fault)

structure Ray where
  origin : Vec
  direction : Vec

/-- Where a ray first meets stock. The point has the outward normal as its direction. -/
structure Landing where
  form : Form
  distance : Float
  point : Point

/-- The nearest landing of a ray on forms, the first of equally near ones. Landings stand off the
surface by a distance. -/
def castFrom (ray : Ray) (standoff : Float) (best : Option Landing) :
    List Form → Except Fault (Option Landing)
  | [] => .ok best
  | form :: rest => do
      let passage ← form.castRay ray.origin ray.direction 0
      let nearer :=
        match passage.hits.head?, best with
        | none, _ => best
        | some hit, some landing =>
            if hit.along >= landing.distance then best else some (land form hit)
        | some hit, none => some (land form hit)
      castFrom ray standoff nearer rest
where
  land (form : Form) (hit : Stock.Crossing) : Landing :=
    { form
      distance := hit.along
      point := Point.make (hit.place + hit.away.scale standoff) hit.away }

def castAll (forms : List Form) (rays : List Ray) (standoff : Float) :
    Except Fault (List (Option Landing)) :=
  rays.mapM fun ray => castFrom ray standoff none forms

/-- The path along landings, on the stock of the first. -/
def toPath (name : String) (landings : List (Option Landing)) : Path :=
  let hits := landings.filterMap id
  { name, points := hits.map (·.point), form := hits.head?.map (·.form) }

/-- The number of rays that met nothing. -/
def missed (landings : List (Option Landing)) : Nat := landings.countP (·.isNone)

end Kerf.Projection
