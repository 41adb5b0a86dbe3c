import Kerf.Stock.Crossing

/-!
# The safety bubble

Tests of single points against a form and the space around it that rapid moves keep clear.
-/

set_option autoImplicit false

namespace Kerf.Stock

def Form.contains (form : Form) (p : Vec) (tolerance : Float) : Bool :=
  let growth := form.growth tolerance
  match form.shape with
  | .box box =>
      let place := box.toLocal (p - box.center)
      let half := box.halfSize growth
      place.x.abs < half.x && place.y.abs < half.y && place.z.abs < half.z
  | .cylinder cylinder =>
      let relative := p - cylinder.base
      let level := relative.dot cylinder.axis
      if level <= -growth || level >= cylinder.height + growth then false
      else (relative - cylinder.axis.scale level).length < cylinder.radius + growth

/-- Whether a point is closer to the stock than its safe distance, less some slack. -/
def Form.inBubble (form : Form) (p : Vec) (slack : Float) : Bool :=
  form.contains p (form.clearance.safeDistance - slack)

def Form.depth (form : Form) (p direction : Vec) : Except Fault Float := do
  let passage ← form.castRay p direction 0
  return passage.lastAlong

/-- Moves a point along a direction to where the ray last leaves the safety bubble. A ray that
never meets the bubble leaves the point alone. -/
def Form.lift (form : Form) (p direction : Vec) : Except Fault Vec := do
  let unit := direction.unit
  let passage ← form.castRay p unit form.clearance.safeDistance
  if passage.hits.isEmpty then return p
  return p + unit.scale passage.lastAlong

end Kerf.Stock
