import Kerf.Proofs.Dressing

/-!
# Notes that last

Messages and codes stay with the points they are attached to. Moving a track to the surface leaves
out points, and what they carry is gone: the start of a segment of no length, and the start of a
segment along which the joined motion would run backwards. Nothing else is lost.
-/

set_option autoImplicit false

namespace Kerf

open Kerf.Stock (Form)

/-- What can be attached to a point. -/
inductive Note where
  | warning (text : String)
  | error (text : String)
  | preCode (code : String)
  | postCode (code : String)
  deriving DecidableEq, Repr

/-- A code of a point, unless it is empty. -/
def Note.ofCode (kind : String → Note) (code : String) : List Note :=
  if code = "" then [] else [kind code]

def Point.notes (point : Point) : List Note :=
  point.warnings.map .warning ++ point.errors.map .error ++
    Note.ofCode .preCode point.preCode ++ Note.ofCode .postCode point.postCode

namespace Track

def notes (track : Track) : List Note := track.flatMap (·.notes)

private theorem notes_of_added {point : Point} (added : point.Added) :
    ∀ note ∈ point.notes, ∃ text ∈ stageWarnings, note = .warning text := by
  intro note member
  simp only [Point.notes, added.errors, added.preCode, added.postCode, Note.ofCode, List.map_nil,
    List.append_nil, ↓reduceIte, List.mem_map] at member
  obtain ⟨text, warned, rfl⟩ := member
  exact ⟨text, added.warnings warned, rfl⟩

private theorem notes_of_keeps {source point : Point} (kept : source.Keeps point) (note : Note) :
    (note ∈ source.notes → note ∈ point.notes) ∧
      (note ∈ point.notes → note ∈ source.notes ∨ ∃ text ∈ stageWarnings, note = .warning text) := by
  obtain ⟨stages, known, warned⟩ := kept.warnings
  simp only [Point.notes, kept.errors, kept.preCode, kept.postCode, warned, List.map_append,
    List.mem_append, List.mem_map]
  constructor
  · rintro (((warning | error) | before) | after)
    · exact .inl (.inl (.inl (.inl warning)))
    · exact .inl (.inl (.inr error))
    · exact .inl (.inr before)
    · exact .inr after
  · rintro ((((warning | ⟨text, stage, rfl⟩) | error) | before) | after)
    · exact .inl (.inl (.inl (.inl warning)))
    · exact .inr ⟨text, known stage, rfl⟩
    · exact .inl (.inl (.inl (.inr error)))
    · exact .inl (.inl (.inr before))
    · exact .inl (.inr after)

theorem Dressed.notes {source track : Track} (dressed : Dressed source track) (note : Note) :
    (note ∈ source.notes → note ∈ track.notes) ∧
      (note ∈ track.notes → note ∈ source.notes ∨ ∃ text ∈ stageWarnings, note = .warning text) := by
  induction dressed with
  | nil => exact ⟨id, .inl⟩
  | added bare _ ih =>
      simp only [Track.notes, List.flatMap_cons, List.mem_append] at ih ⊢
      constructor
      · intro member
        exact .inr (ih.1 member)
      · rintro (here | later)
        · exact .inr (notes_of_added bare note here)
        · exact ih.2 later
  | kept keeps _ ih =>
      obtain ⟨forth, back⟩ := notes_of_keeps keeps note
      simp only [Track.notes, List.flatMap_cons, List.mem_append] at ih ⊢
      constructor
      · rintro (here | later)
        · exact .inl (forth here)
        · exact .inr (ih.1 later)
      · rintro (here | later)
        · exact (back here).imp_left .inl
        · exact (ih.2 later).imp_left .inr

/-! ## Why a point does not last -/

/-- The line of a segment before it is joined to a chain. -/
def lineBetween (tool : Tool) (a b : Point) : SurfaceLine :=
  let span := b.position - a.position
  let origin := a.position + surfaceShift tool span
  { origin, span, source := a, enter := origin, enterAt := 0 }

/-- Whether motion that joins one line to the next would leave the first before entering it. -/
def RunsBack (line next : SurfaceLine) : Prop :=
  ∃ leaveAt enterAt, closestOnLines line.origin line.span next.origin next.span =
    some (leaveAt, enterAt) ∧ leaveAt < line.enterAt - shortLength

/-- Whether a point starts a segment of no length. -/
def StartsNothing (track : Track) (point : Point) : Prop :=
  ∃ front next back, track = front ++ point :: next :: back ∧
    (next.position - point.position).length < shortLength

/-- Whether a point starts a segment along which the joined motion would run backwards. The segment is
a line of the chain that stands when a later segment comes, though not the first one; the motion to
the later segment would run back along it and along all lines that were joined after it. -/
def StartsRunBack (tool : Tool) (track : Track) (point : Point) : Prop :=
  ∃ front a b back, track = front ++ a :: b :: back ∧
    ¬ (b.position - a.position).length < shortLength ∧
    ∃ after line before, extendChain tool [] (front ++ [a]) = after ++ line :: before ∧
      before ≠ [] ∧ line.source = point ∧
      ∀ known ∈ after ++ [line], RunsBack known (lineBetween tool a b)

/-- A line joined to a chain is part of it. A line of the chain stays, unless the motion would run back
along it and all later ones, and it is not the first. -/
theorem mem_joinLine (line : SurfaceLine) (chain : List SurfaceLine) :
    (∃ enter enterAt, { line with enter, enterAt } ∈ joinLine line chain) ∧
      ∀ known ∈ chain, known ∈ joinLine line chain ∨
        ∃ after before, chain = after ++ known :: before ∧ before ≠ [] ∧
          ∀ other ∈ after ++ [known], RunsBack other line := by
  induction chain with
  | nil => exact ⟨⟨line.enter, line.enterAt, List.mem_singleton.mpr rfl⟩, by simp⟩
  | cons top rest ih =>
      unfold joinLine
      split
      · refine ⟨⟨line.enter, line.enterAt, List.mem_cons_self⟩, ?_⟩
        intro known member
        exact .inl (List.mem_cons_of_mem _ member)
      · next leaveAt enterAt met =>
          split
          · next back =>
              rw [Bool.and_eq_true, decide_eq_true_eq, Bool.not_eq_true', List.isEmpty_eq_false_iff]
                at back
              have runsBack : RunsBack top line := ⟨leaveAt, enterAt, met, back.1⟩
              refine ⟨ih.1, ?_⟩
              intro known member
              rcases List.mem_cons.mp member with rfl | inside
              · exact .inr ⟨[], rest, rfl, back.2, by simpa using runsBack⟩
              · rcases ih.2 known inside with stays | ⟨after, before, rfl, more, all⟩
                · exact .inl stays
                · exact .inr ⟨top :: after, before, rfl, more, List.forall_mem_cons.mpr ⟨runsBack, all⟩⟩
          · refine ⟨⟨_, _, List.mem_cons_self⟩, ?_⟩
            intro known member
            exact .inl (List.mem_cons_of_mem _ member)

private theorem extendChain_cons_cons (tool : Tool) (chain : List SurfaceLine) (a b : Point)
    (rest : Track) : extendChain tool chain (a :: b :: rest) =
      extendChain tool
        (if (b.position - a.position).length < shortLength then chain
        else joinLine (lineBetween tool a b) chain) (b :: rest) :=
  rfl

private theorem extendChain_concat (tool : Tool) (chain : List SurfaceLine) (front : Track)
    (a b : Point) : extendChain tool chain (front ++ [a] ++ [b]) =
      if (b.position - a.position).length < shortLength then extendChain tool chain (front ++ [a])
      else joinLine (lineBetween tool a b) (extendChain tool chain (front ++ [a])) := by
  induction front generalizing chain with
  | nil => rfl
  | cons first front ih =>
      cases front with
      | nil => exact ih _
      | cons second front => exact ih _

/-- One segment after another: the lines of a chain and the points that start the segments still to
come are part of the chain in the end, or there is a cause why not. -/
theorem mem_extendChain (tool : Tool) (front : Track) (a : Point) (rest : Track) :
    let whole := front ++ a :: rest
    let chain := extendChain tool [] (front ++ [a])
    (∀ line ∈ chain, line ∈ extendChain tool chain (a :: rest) ∨
        StartsRunBack tool whole line.source) ∧
      ∀ point ∈ (a :: rest).dropLast, point ∈ (extendChain tool chain (a :: rest)).map (·.source) ∨
        StartsNothing whole point ∨ StartsRunBack tool whole point := by
  induction rest generalizing front a with
  | nil => exact ⟨fun line member => .inl member, by simp⟩
  | cons b rest ih =>
      obtain ⟨stays, starts⟩ := ih (front ++ [a]) b
      rw [extendChain_concat, List.append_assoc, List.singleton_append] at stays starts
      dsimp only
      rw [List.dropLast_cons_cons, List.forall_mem_cons, extendChain_cons_cons]
      by_cases short : (b.position - a.position).length < shortLength
      · rw [if_pos short] at stays starts ⊢
        exact ⟨stays, .inr (.inl ⟨front, b, rest, rfl, short⟩), starts⟩
      · rw [if_neg short] at stays starts ⊢
        obtain ⟨⟨enter, enterAt, here⟩, kept⟩ :=
          mem_joinLine (lineBetween tool a b) (extendChain tool [] (front ++ [a]))
        refine ⟨?_, ?_, starts⟩
        · intro known member
          rcases kept known member with joined | ⟨after, before, chained, more, all⟩
          · exact stays known joined
          · exact .inr ⟨front, a, b, rest, rfl, short, after, known, before, chained, more, rfl, all⟩
        · rcases stays _ here with last | back
          · exact .inl (List.mem_map_of_mem last)
          · exact .inr (.inr back)

private theorem mem_lasting_or {tool : Tool} {track : Track} {point : Point}
    (member : point ∈ track) :
    point ∈ lasting tool track ∨ StartsNothing track point ∨ StartsRunBack tool track point := by
  unfold lasting
  split
  · next final earlier last chained ended =>
      obtain ⟨first, rest, rfl⟩ := List.exists_cons_of_ne_nil (List.ne_nil_of_mem member)
      obtain ⟨_, starts⟩ := mem_extendChain tool [] first rest
      change ∀ point ∈ (first :: rest).dropLast,
        point ∈ (extendChain tool [] (first :: rest)).map (·.source) ∨ _ at starts
      obtain ⟨front, whole⟩ := List.getLast?_eq_some_iff.mp ended
      rw [chained, whole, List.dropLast_concat] at starts
      rw [whole] at member ⊢
      rw [List.mem_append, List.map_reverse, List.mem_reverse]
      rcases List.mem_append.mp member with inside | final
      · exact (starts point inside).imp_left .inl
      · exact .inl (.inr final)
  · exact .inl member

end Track

namespace Path

/-- What the passes of a path that is not moved sideways carry: everything that its lasting points
carry, all of it on one pass, and nothing else but warnings of the stages. All points last, unless
the path is moved to the surface. There a point is left out only if it starts a segment of no length
or one along which the motion would run backwards. -/
theorem passes_keep_notes {machine : Machine} {path : Path} {passes : List Path}
    (found : path.passes machine = .ok passes) (inPlace : (path.additions.offset != 0) = false) :
    ∃ tool form, path.context = .ok (tool, form) ∧
      (∃ pass ∈ passes,
        (path.points.lastingAt machine tool path.additions).notes ⊆ pass.points.notes) ∧
      (∀ pass ∈ passes, ∀ note ∈ pass.points.notes,
        note ∈ (path.points.lastingAt machine tool path.additions).notes ∨
          ∃ text ∈ stageWarnings, note = .warning text) ∧
      ∀ point ∈ path.points, point ∈ path.points.lastingAt machine tool path.additions ∨
        path.additions.heightOffset = true ∧ machine.isFiveAxis = false ∧
          (Track.StartsNothing path.points point ∨
            Track.StartsRunBack tool path.points point) := by
  obtain ⟨tool, form, loops, tracks, known, _, moved, expansion, rfl⟩ := passes_eq_ok found
  rw [Path.loops, inPlace, if_neg Bool.false_ne_true] at moved
  cases moved
  refine ⟨tool, form, known, ?_, ?_, ?_⟩
  · obtain ⟨track, member, dressed⟩ :=
      Track.exists_dressed_of_passesOf expansion List.mem_cons_self
    refine ⟨path.along track, List.mem_map_of_mem member, ?_⟩
    intro note carried
    exact (dressed.notes note).1 carried
  · intro pass member note carried
    obtain ⟨track, inside, rfl⟩ := List.mem_map.mp member
    obtain ⟨loop, source, part, smaller, dressed⟩ := Track.dressed_of_mem_passesOf expansion inside
    cases List.mem_singleton.mp source
    rcases (dressed.notes note).2 carried with kept | stage
    · obtain ⟨point, listed, here⟩ := List.mem_flatMap.mp kept
      exact .inl (List.mem_flatMap.mpr ⟨point, smaller.subset listed, here⟩)
    · exact .inr stage
  · intro point member
    unfold Track.lastingAt
    split
    · next follows =>
        rw [Bool.and_eq_true, Bool.not_eq_true'] at follows
        rcases Track.mem_lasting_or member with lasts | cause
        · exact .inl lasts
        · exact .inr ⟨follows.1, follows.2, cause⟩
    · exact .inl member

/-- A slot that starts twice at the same place: coolant is switched on at the first point, where the
probe missed, and off after the second. -/
def doubleStart : Path :=
  { name := "slot"
    points :=
      [{ position := ⟨0, 0, 1⟩, direction := Vec.zAxis, preCode := "M08", errors := ["Probe missed"] },
        { position := ⟨0, 0, 1⟩, direction := Vec.zAxis, postCode := "M09" },
        { position := ⟨1, 0, 1⟩, direction := Vec.zAxis }]
    tool := some
      { identity := 0, name := "mill", number := 1, tip := .square, width := 2, cutDepth := 0.5 }
    form := some Route.lowBlock
    additions := { heightOffset := true } }

theorem doubleStart_loses_notes :
    ∃ passes, doubleStart.passes ⟨{}, .vertical⟩ = .ok passes ∧
      ∀ note ∈ [Note.preCode "M08", Note.error "Probe missed"],
        note ∈ doubleStart.points.notes ∧ ∀ pass ∈ passes, note ∉ pass.points.notes := by
  decide +kernel

/-- Cut in levels and skins, the slot keeps what is attached to its second point. -/
theorem passes_keep_notes_doubleStart :
    let deep : Path := { doubleStart with
      additions := { heightOffset := true, stepDown := true, onion := [0.25], insert := true } }
    (deep.additions.offset != 0) = false ∧
      ∃ passes, deep.passes ⟨{}, .vertical⟩ = .ok passes ∧ passes.length = 3 ∧
        ∃ pass ∈ passes, Note.postCode "M09" ∈ pass.points.notes := by
  intro deep
  have inPlace : (deep.additions.offset != 0) = false := by decide +kernel
  have expands : ∃ passes, deep.passes ⟨{}, .vertical⟩ = .ok passes ∧ passes.length = 3 := by
    decide +kernel
  obtain ⟨passes, found, count⟩ := expands
  obtain ⟨tool, form, known, ⟨pass, member, keeps⟩, _⟩ := passes_keep_notes found inPlace
  cases known
  refine ⟨inPlace, passes, found, count, pass, member, keeps ?_⟩
  decide +kernel

end Path

end Kerf
