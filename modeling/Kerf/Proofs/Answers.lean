import Kerf.Proofs.Failing
import Kerf.Proofs.Magnitudes
import Kerf.Proofs.OutlineLoops
import Kerf.Stock.Crossing

/-!
# Queries that have an answer

The way out of a block leads through its nearest face among those that do not look along the line of the
query. Main statements: when there is one, and that moderate numbers never keep a ray from having an
answer, nor a segment that some face does not look along.
-/

set_option autoImplicit false

namespace Kerf.Stock

open Kerf.Doubles
open Kerf.Scalar

/-! ## The way out of a block -/

/-- The faces of a block seen from a place: the axis of each pair with the offset of the place along
it and half the size. -/
def Box.faces (box : Box) (tolerance : Float) (q : Vec) : List (Vec × Float × Float) :=
  box.axes.zip
    ((box.toLocal (q - box.center)).components.zip (box.halfSize tolerance).components)

/-- How far the nearer face of a pair is away. -/
def faceDistance (face : Vec × Float × Float) : Float := face.2.2 - face.2.1.abs

def nearer (best : Option (Vec × Float) × Float) (face : Vec × Float × Float) :
    Option (Vec × Float) × Float :=
  if faceDistance face < best.2 then (some (face.1, face.2.1), faceDistance face) else best

private theorem isSome_foldl_nearer {best : Option (Vec × Float) × Float}
    (found : best.1.isSome = true)
    (faces : List (Vec × Float × Float)) : (faces.foldl nearer best).1.isSome = true := by
  induction faces generalizing best with
  | nil => exact found
  | cons face rest ih =>
      apply ih
      unfold nearer
      split
      · rfl
      · exact found

private theorem isSome_nearest_iff {limit : Float} {faces : List (Vec × Float × Float)} :
    (faces.foldl nearer (none, limit)).1.isSome = true ↔
      ∃ face ∈ faces, faceDistance face < limit := by
  induction faces with
  | nil => simp
  | cons face rest ih =>
      rw [List.foldl_cons, List.exists_mem_cons_iff, ← ih]
      by_cases closer : faceDistance face < limit
      · have first : (nearer (none, limit) face).1.isSome = true := by simp [nearer, closer]
        simp [closer, isSome_foldl_nearer first rest]
      · simp [nearer, closer]

theorem Box.wayOut_eq (box : Box) (tolerance : Float) (q line : Vec) :
    box.wayOut tolerance q line =
      match ((box.faces tolerance q).filter fun face => !followsLine line face.1).foldl nearer
        (none, infinity) with
      | (some (axis, offset), distance) => .ok (axis.scale (if offset < 0 then -1 else 1), distance)
      | (none, _) => .error .noFace :=
  rfl

/-- There is a way out of a block exactly if some face that does not look along the line is at a
distance that can be compared. -/
theorem Box.exists_wayOut_iff {box : Box} {tolerance : Float} {q line : Vec} :
    (∃ way, box.wayOut tolerance q line = .ok way) ↔
      ∃ face ∈ box.faces tolerance q,
        followsLine line face.1 = false ∧ faceDistance face < infinity := by
  have nearest : (((box.faces tolerance q).filter fun face => !followsLine line face.1).foldl nearer
        (none, infinity)).1.isSome = true ↔ _ := isSome_nearest_iff
  simp only [List.mem_filter, Bool.not_eq_true', and_assoc] at nearest
  rw [← nearest, wayOut_eq]
  split
  · next same => simp [same]
  · next same => simp [same]

/-! ## Rays and segments -/

/-- A ray without an answer has crossings, and there is no way out from between them. -/
theorem Form.castRay_eq_error {form : Form} {p direction : Vec} {tolerance : Float} {fault : Fault}
    (failed : form.castRay p direction tolerance = .error fault) :
    ∃ first ∈ form.lineCrossings p direction.unit (form.growth tolerance),
      ∃ last ∈ form.lineCrossings p direction.unit (form.growth tolerance),
        form.wayOut (biasedMiddle first.place last.place) Vec.zero = .error fault := by
  unfold castRay at failed
  dsimp only at failed
  split at failed
  · next first last begins ends =>
      refine ⟨first, List.mem_of_mem_filter (List.mem_of_mem_head? begins), last,
        List.mem_of_mem_filter (List.mem_of_mem_getLast? ends), ?_⟩
      rcases bind_eq_error.mp failed with here | ⟨_, _, impossible⟩
      · exact here
      · cases impossible
  · cases failed

/-- The distances along a segment between which it passes through a form, if it does. -/
def Form.passing (form : Form) (a b : Vec) (tolerance : Float) : Option (Float × Float) :=
  let size := (b - a).length
  match form.lineCrossings a ((b - a).shrink size) (form.growth tolerance) with
  | first :: second :: rest =>
      let enter := first.along
      let leave := (((first :: second :: rest).getLast?).map (·.along)).getD 0
      let low := Scalar.max enter 0
      let high := Scalar.min leave size
      if high - low <= segmentSlack || enter >= size - segmentSlack || leave <= segmentSlack then none
      else some (low, high)
  | _ => none

/-- The middle of a part of a segment, towards its start. -/
def partMiddle (a direction : Vec) (part : Float × Float) : Vec :=
  biasedMiddle (a + direction.scale part.1) (a + direction.scale part.2)

theorem Form.castSegment_eq (form : Form) (a b : Vec) (tolerance : Float) :
    form.castSegment a b tolerance =
      if (b - a).length < shortLength then .ok (false, .empty)
      else
        let direction := (b - a).shrink (b - a).length
        form.castRay a direction tolerance >>= fun passage =>
          match form.passing a b tolerance with
          | none => .ok (false, passage)
          | some part =>
              form.wayOut (partMiddle a direction part) direction >>= fun way =>
                .ok (true, { passage with
                  middle := partMiddle a direction part, outward := way.1, outwardDistance := way.2 }) := by
  unfold castSegment passing
  dsimp only
  split
  · rfl
  · congr 1
    funext passage
    cases form.lineCrossings a ((b - a).shrink (b - a).length) (form.growth tolerance) with
    | nil => rfl
    | cons first others =>
        cases others with
        | nil => rfl
        | cons second rest =>
            dsimp only
            split <;> rfl

/-- The part inside lies between two crossings and on the segment. -/
theorem Form.passing_eq_some {form : Form} {a b : Vec} {tolerance : Float} {part : Float × Float}
    (passes : form.passing a b tolerance = some part) :
    let all := form.lineCrossings a ((b - a).shrink (b - a).length) (form.growth tolerance)
    ∃ first ∈ all, ∃ last ∈ all,
      part = (Scalar.max first.along 0, Scalar.min last.along (b - a).length) ∧
      ¬ part.2 - part.1 ≤ segmentSlack := by
  intro all
  unfold passing at passes
  dsimp only at passes
  split at passes
  · next first second rest listed =>
      obtain ⟨last, ends⟩ : ∃ last, (first :: second :: rest).getLast? = some last :=
        ⟨_, List.getLast?_eq_some_getLast (List.cons_ne_nil _ _)⟩
      rw [ends] at passes
      split at passes
      · cases passes
      · next wide =>
          cases passes
          simp only [Bool.or_eq_true, decide_eq_true_eq, not_or] at wide
          have begins : first ∈ all := by
            change first ∈ form.lineCrossings _ _ _
            rw [listed]
            exact List.mem_cons_self
          have closes : last ∈ all := by
            change last ∈ form.lineCrossings _ _ _
            rw [listed]
            exact List.mem_of_mem_getLast? ends
          exact ⟨first, begins, last, closes, rfl, wide.1.1⟩
  · cases passes

/-- A segment without an answer is not short, and either its ray has none or there is no way out from
the part inside. -/
theorem Form.castSegment_eq_error {form : Form} {a b : Vec} {tolerance : Float} {fault : Fault}
    (failed : form.castSegment a b tolerance = .error fault) :
    let direction := (b - a).shrink (b - a).length
    ¬ (b - a).length < shortLength ∧
      (form.castRay a direction tolerance = .error fault ∨
        ∃ part, form.passing a b tolerance = some part ∧
          form.wayOut (partMiddle a direction part) direction = .error fault) := by
  rw [castSegment_eq] at failed
  split at failed
  · cases failed
  · next long =>
      refine ⟨long, ?_⟩
      rcases bind_eq_error.mp failed with ray | ⟨passage, _, later⟩
      · exact .inl ray
      · split at later
        · cases later
        · next part passes =>
            rcases bind_eq_error.mp later with out | ⟨_, _, impossible⟩
            · exact .inr ⟨part, passes, out⟩
            · cases impossible

/-! ## Moderate numbers -/

/-- Whether the numbers of a block are of moderate size: places and extents below `2 ^ 100`, and axes
with components below 8. -/
structure Box.Moderate (box : Box) : Prop where
  center : box.center.Within 47
  size : box.size.Within 47
  xAxis : box.xAxis.Within (-50)
  yAxis : box.yAxis.Within (-50)

section

variable {box : Box} {limit : Int} {growth : Float}

theorem Box.Moderate.zAxis (moderate : box.Moderate) : box.zAxis.Within (-44) := by
  have product : ∀ {x y : Float}, Fits (-50) x → Fits (-50) y → Fits (-46) (x * y) :=
    fun left right => fits_mul left right (by decide) (by decide)
  have difference : ∀ {x y : Float}, Fits (-46) x → Fits (-46) y → Fits (-44) (x - y) :=
    fun left right => fits_sub left right (by decide) (by decide)
  obtain ⟨_, _, ⟨ax, ay, az⟩, ⟨bx, bz, bw⟩⟩ := moderate
  exact ⟨difference (product ay bw) (product az bz), difference (product az bx) (product ax bw),
    difference (product ax bz) (product ay bx)⟩

theorem Box.Moderate.within_toLocal (moderate : box.Moderate) {v : Vec} (within : v.Within limit)
    (low : 0 ≤ limit) (high : limit ≤ 950) : (box.toLocal v).Within (limit + 14) := by
  have x := Vec.fits_dot within (moderate.xAxis.mono (by decide : (-50 : Int) ≤ -44)) (by omega)
    (by omega)
  have y := Vec.fits_dot within (moderate.yAxis.mono (by decide : (-50 : Int) ≤ -44)) (by omega)
    (by omega)
  have z := Vec.fits_dot within moderate.zAxis (by omega) (by omega)
  exact ⟨x.mono (by omega), y.mono (by omega), z.mono (by omega)⟩

theorem Box.Moderate.within_halfSize (moderate : box.Moderate) (fits : Fits 51 growth) :
    (box.halfSize growth).Within 53 := by
  have half : Fits (-53) 0.5 := ⟨by decide, by decide⟩
  have halved := (Vec.within_scale moderate.size half (by decide) (by decide)).mono
    (by decide : (47 + -53 + 54 : Int) ≤ 51)
  exact ⟨fits_add halved.x fits (by decide) (by decide), fits_add halved.y fits (by decide) (by decide),
    fits_add halved.z fits (by decide) (by decide)⟩

/-! ## Crossings -/

theorem Box.mem_crossings {p direction : Vec} {crossing : Crossing}
    (member : crossing ∈ box.crossings p direction growth) :
    ∃ origin ∈ (box.toLocal (p - box.center)).components,
      ∃ slope ∈ (box.toLocal direction).components, ∃ half ∈ (box.halfSize growth).components,
      ∃ side ∈ [-1.0, 1.0], ¬ slope.abs < shortLength ∧
        crossing.along = (side * half - origin) / slope ∧
        crossing.place = p + direction.scale crossing.along := by
  unfold crossings at member
  dsimp only at member
  obtain ⟨⟨⟨span, axis⟩, index⟩, listed, inside⟩ := List.mem_flatMap.mp member
  dsimp only at inside
  split at inside
  · cases inside
  · next long =>
      obtain ⟨side, among, found⟩ := List.mem_filterMap.mp inside
      split at found
      · cases found
        have zipped := List.fst_mem_of_mem_zipIdx listed
        obtain ⟨⟨origin, slope, half⟩, paired, rfl⟩ := List.mem_map.mp (List.of_mem_zip zipped).1
        obtain ⟨first, others⟩ := List.of_mem_zip paired
        obtain ⟨second, third⟩ := List.of_mem_zip others
        exact ⟨origin, first, slope, second, half, third, side, among, long, rfl, rfl⟩
      · cases found

/-- The crossings of a moderate block with a line of moderate origin. -/
theorem Box.Moderate.within_crossing (moderate : box.Moderate) {p direction : Vec}
    (origin : p.Within 47) (slant : direction.Within 325) (fits : Fits 51 growth) {crossing : Crossing}
    (member : crossing ∈ box.crossings p direction growth) :
    Fits 201 crossing.along ∧ crossing.place.Within 582 := by
  obtain ⟨start, first, slope, second, half, third, side, among, long, along, place⟩ :=
    Box.mem_crossings member
  have one : Fits (-52) side := by
    simp only [List.mem_cons, List.not_mem_nil, or_false] at among
    rcases among with rfl | rfl
    · exact ⟨by decide, by decide⟩
    · exact ⟨by decide, by decide⟩
  have relative := Vec.within_sub origin moderate.center (by decide) (by decide)
  have starts := (moderate.within_toLocal relative (by decide) (by decide)).of_mem_components first
  have slopes := (moderate.within_toLocal slant (by decide) (by decide)).of_mem_components second
  have halves := (moderate.within_halfSize fits).of_mem_components third
  have face := (fits_mul one halves (by decide) (by decide)).mono (by decide : _ ≤ (63 : Int))
  have gap := fits_sub face (starts.mono (by decide)) (by decide) (by decide)
  have distance : Fits 201 crossing.along := by
    rw [along]
    exact fits_div gap (long_of_not_abs_lt slopes long) (by decide) (by decide)
  refine ⟨distance, ?_⟩
  rw [place]
  have reach := Vec.within_scale slant distance (by decide) (by decide)
  exact Vec.within_add (origin.mono (by decide)) reach (by decide) (by decide)

private theorem mem_mergeCrossings_go {last : Crossing} {rest : List Crossing} {crossing : Crossing}
    (member : crossing ∈ mergeCrossings.go last rest) :
    ∃ source ∈ last :: rest, crossing.place = source.place ∧ crossing.along = source.along := by
  induction rest generalizing last with
  | nil =>
      cases List.mem_singleton.mp member
      exact ⟨crossing, List.mem_cons_self, rfl, rfl⟩
  | cons next rest ih =>
      unfold mergeCrossings.go at member
      split at member
      · obtain ⟨source, listed, same⟩ := ih member
        rcases List.mem_cons.mp listed with rfl | later
        · exact ⟨last, List.mem_cons_self, same⟩
        · exact ⟨source, List.mem_cons_of_mem _ (List.mem_cons_of_mem _ later), same⟩
      · rcases List.mem_cons.mp member with rfl | later
        · exact ⟨crossing, List.mem_cons_self, rfl, rfl⟩
        · obtain ⟨source, listed, same⟩ := ih later
          exact ⟨source, List.mem_cons_of_mem _ listed, same⟩

/-- Joining crossings changes neither places nor distances. -/
theorem mem_mergeCrossings {all : List Crossing} {crossing : Crossing}
    (member : crossing ∈ mergeCrossings all) :
    ∃ source ∈ all, crossing.place = source.place ∧ crossing.along = source.along := by
  cases all with
  | nil => cases member
  | cons first rest => exact mem_mergeCrossings_go member

theorem Box.Moderate.within_lineCrossing (moderate : box.Moderate) {form : Form}
    (block : form.shape = .box box) {p direction : Vec} (origin : p.Within 47)
    (slant : direction.Within 325) (fits : Fits 51 growth) {crossing : Crossing}
    (member : crossing ∈ form.lineCrossings p direction growth) :
    Fits 201 crossing.along ∧ crossing.place.Within 582 := by
  unfold Form.lineCrossings at member
  rw [block] at member
  obtain ⟨source, listed, place, along⟩ := mem_mergeCrossings member
  rw [place, along]
  exact moderate.within_crossing origin slant fits ((Sorting.perm_byInsertion _ _).mem_iff.mp listed)

/-! ## Ways out -/

theorem within_biasedMiddle {a b : Vec} (first : a.Within 582) (second : b.Within 582) :
    (biasedMiddle a b).Within 724 := by
  have weight : Fits (-52) 1.5 := ⟨by decide, by decide⟩
  have divisor : Long 2.5 := ⟨.positive, _, _, _, rfl, by decide⟩
  have weighed := Vec.within_scale first weight (by decide) (by decide)
  have sum := Vec.within_add weighed (second.mono (by decide)) (by decide) (by decide)
  exact Vec.within_shrink sum divisor (by decide) (by decide)

theorem Box.Moderate.lt_infinity (moderate : box.Moderate) {tolerance : Float}
    (fits : Fits 51 tolerance) {q : Vec} (near : q.Within 724) {face : Vec × Float × Float}
    (member : face ∈ box.faces tolerance q) : faceDistance face < infinity := by
  obtain ⟨offset, half⟩ := List.of_mem_zip (List.of_mem_zip member).2
  have relative := Vec.within_sub near (moderate.center.mono (by decide)) (by decide) (by decide)
  have offsets := (moderate.within_toLocal relative (by decide) (by decide)).of_mem_components offset
  have halves := (moderate.within_halfSize fits).of_mem_components half
  exact lt_infinity_of_fits
    (fits_sub (halves.mono (by decide)) (fits_abs offsets) (by decide) (by decide))

/-- A place of moderate size has a way out of a moderate block, if not all faces look along the
line. -/
theorem Box.Moderate.exists_wayOut (moderate : box.Moderate) {tolerance : Float}
    (fits : Fits 51 tolerance) {q line : Vec} (near : q.Within 724)
    (across : ∃ axis ∈ box.axes, followsLine line axis = false) :
    ∃ way, box.wayOut tolerance q line = .ok way := by
  obtain ⟨axis, listed, free⟩ := across
  obtain ⟨face, member, rfl⟩ : ∃ face ∈ box.faces tolerance q, face.1 = axis := by
    have axes : (box.faces tolerance q).map (·.1) = box.axes := rfl
    rw [← axes] at listed
    exact List.mem_map.mp listed
  exact exists_wayOut_iff.mpr ⟨face, member, free, moderate.lt_infinity fits near member⟩

private theorem followsLine_zero (axis : Vec) : followsLine Vec.zero axis = false := by
  have short : Vec.zero.isShort = true := by decide +kernel
  rw [followsLine, short]
  rfl

/-! ## Rays and segments -/

/-- Whether the distances kept from a form are of moderate size. -/
structure Clearance.Moderate (clearance : Clearance) : Prop where
  safeDistance : Fits 47 clearance.safeDistance
  materialTolerance : Fits 47 clearance.materialTolerance

variable {form : Form} {tolerance : Float}

theorem Clearance.Moderate.fits_growth (kept : form.clearance.Moderate) (fits : Fits 49 tolerance) :
    Fits 51 (form.growth tolerance) :=
  fits_add fits (kept.materialTolerance.mono (by decide)) (by decide) (by decide)

theorem Box.Moderate.exists_wayOut_form (moderate : box.Moderate) (block : form.shape = .box box)
    (kept : form.clearance.Moderate) {q line : Vec} (near : q.Within 724)
    (across : ∃ axis ∈ box.axes, followsLine line axis = false) :
    ∃ way, form.wayOut q line = .ok way := by
  unfold Form.wayOut
  rw [block]
  exact moderate.exists_wayOut (kept.materialTolerance.mono (by decide)) near across

theorem Box.Moderate.exists_castRay (moderate : box.Moderate) (block : form.shape = .box box)
    (kept : form.clearance.Moderate) {p direction : Vec} (origin : p.Within 47)
    (slant : direction.Within 187) (fits : Fits 49 tolerance) :
    ∃ passage, form.castRay p direction tolerance = .ok passage := by
  cases cast : form.castRay p direction tolerance with
  | ok passage => exact ⟨passage, rfl⟩
  | error fault =>
      obtain ⟨first, begins, last, ends, lost⟩ := Form.castRay_eq_error cast
      have unit := Vec.within_unit slant (by decide) (by decide)
      have growth := kept.fits_growth fits
      have middle := within_biasedMiddle
        (moderate.within_lineCrossing block origin unit growth begins).2
        (moderate.within_lineCrossing block origin unit growth ends).2
      -- A ray asks for the way out with a line of no length, which no face looks along.
      obtain ⟨way, out⟩ := moderate.exists_wayOut_form block kept middle
        ⟨box.xAxis, List.mem_cons_self, followsLine_zero box.xAxis⟩
      rw [out] at lost
      cases lost

/-- A segment of moderate size has an answer, if not all faces of the block look along it. -/
theorem Box.Moderate.exists_castSegment (moderate : box.Moderate) (block : form.shape = .box box)
    (kept : form.clearance.Moderate) {a b : Vec} (first : a.Within 47) (second : b.Within 47)
    (fits : Fits 49 tolerance)
    (across : ∃ axis ∈ box.axes, followsLine ((b - a).shrink (b - a).length) axis = false) :
    ∃ answer, form.castSegment a b tolerance = .ok answer := by
  cases cast : form.castSegment a b tolerance with
  | ok answer => exact ⟨answer, rfl⟩
  | error fault =>
      obtain ⟨long, reason⟩ := Form.castSegment_eq_error cast
      have span := Vec.within_sub second first (by decide) (by decide)
      have size := Vec.fits_length span (by decide) (by decide)
      have slant := Vec.within_shrink span (long_of_not_lt size long) (by decide) (by decide)
      rcases reason with ray | ⟨part, passes, lost⟩
      · obtain ⟨passage, found⟩ := moderate.exists_castRay block kept first slant fits
        rw [found] at ray
        cases ray
      · obtain ⟨enter, begins, leave, ends, rfl, _⟩ := Form.passing_eq_some passes
        have growth := kept.fits_growth fits
        have entered :=
          (moderate.within_lineCrossing block first (slant.mono (by decide)) growth begins).1
        have left :=
          (moderate.within_lineCrossing block first (slant.mono (by decide)) growth ends).1
        have low : Fits 201 (Scalar.max enter.along 0) := fits_max entered trivial
        have high : Fits 201 (Scalar.min leave.along (b - a).length) :=
          fits_min left (size.mono (by decide))
        have place : ∀ {distance : Float}, Fits 201 distance →
            (a + ((b - a).shrink (b - a).length).scale distance).Within 582 := by
          intro distance fitting
          have reach := Vec.within_scale slant fitting (by decide) (by decide)
          exact (Vec.within_add (first.mono (by decide)) reach (by decide) (by decide)).mono (by decide)
        obtain ⟨way, out⟩ := moderate.exists_wayOut_form block kept
          (within_biasedMiddle (place low) (place high)) across
        unfold partMiddle at lost
        rw [out] at lost
        cases lost

end

end Kerf.Stock
