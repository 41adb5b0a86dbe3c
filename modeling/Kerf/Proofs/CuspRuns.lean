import Kerf.Proofs.Emission
import Mathlib.Data.List.Forall2

/-!
# Runs of settings at the cusp

Blending goes through a list of rotary settings run by run. A setting off the cusp is kept and parts
the list: what follows it only sees its spin. So a run is filled from the settings on either side of it
as they were given, whatever happened to the runs before it.

Main statement: `smoothCusp_exact`. Every maximal run at the cusp is filled as its two ends say, and
blending what has been blended changes nothing.
-/

set_option autoImplicit false

namespace Kerf.Machine

open Rotary (Setting)

/-! ## One run -/

section

variable {before after : Option Float} {run : List Setting}

/-- The setting at an index of a filled run. -/
theorem getElem?_fillCusp (before after : Option Float) (run : List Setting) (index : Nat) :
    (fillCusp before after run)[index]? = run[index]?.map fun setting =>
      match before, after with
      | none, none => setting
      | none, some after => setting.withB after
      | some before, none => setting.withB before
      | some before, some after => setting.withB
          (before + (after - before) * (index + 1).toFloat / (run.length + 1).toFloat) := by
  unfold fillCusp
  split <;> simp [List.getElem?_zipIdx, Function.comp_def]

/-- What blending keeps of a setting: its tilt, and all of it off the cusp. -/
structure Keeps (setting smoothed : Setting) : Prop where
  a : smoothed.a = setting.a
  offCusp : setting.atCusp = false → smoothed = setting

private theorem keeps_fillCusp (before after : Option Float) {run : List Setting}
    (cusp : ∀ setting ∈ run, setting.atCusp = true) :
    List.Forall₂ Keeps run (fillCusp before after run) := by
  refine List.forall₂_iff_get.mpr ⟨(length_fillCusp before after run).symm, fun index own own' => ?_⟩
  have at_cusp := cusp _ (List.getElem_mem own)
  have filled := getElem?_fillCusp before after run index
  rw [List.getElem?_eq_getElem own, List.getElem?_eq_getElem own', Option.map_some,
    Option.some_inj] at filled
  rw [List.get_eq_getElem, List.get_eq_getElem, filled]
  refine ⟨?_, fun off => ?_⟩
  · cases before <;> cases after <;> rfl
  · rw [at_cusp] at off
    cases off

private theorem cusp_of_mem_fillCusp (cusp : ∀ setting ∈ run, setting.atCusp = true) :
    ∀ setting ∈ fillCusp before after run, setting.atCusp = true := by
  intro setting member
  obtain ⟨index, found⟩ := List.mem_iff_getElem?.mp member
  rw [getElem?_fillCusp] at found
  obtain ⟨source, own, rfl⟩ := Option.map_eq_some_iff.mp found
  have at_cusp := cusp source (List.mem_of_getElem? own)
  cases before <;> cases after <;> exact at_cusp

/-- Filling a run again from the same settings changes nothing. -/
theorem fillCusp_fillCusp (before after : Option Float) (run : List Setting) :
    fillCusp before after (fillCusp before after run) = fillCusp before after run := by
  apply List.ext_getElem?
  intro index
  rw [getElem?_fillCusp, getElem?_fillCusp, length_fillCusp, Option.map_map]
  cases before <;> cases after <;> rfl

end

/-! ## All runs -/

section

variable {before : Option Float} {setting : Setting} {settings run rest : List Setting}

theorem smoothFrom_off (off : setting.atCusp = false) :
    smoothFrom before (setting :: rest) = setting :: smoothFrom (some setting.b) rest := by
  rw [smoothFrom, if_neg (by simp [off])]

theorem smoothFrom_run (nonempty : run ≠ []) (cusp : ∀ setting ∈ run, setting.atCusp = true)
    (parted : ∀ setting, rest.head? = some setting → setting.atCusp = false) :
    smoothFrom before (run ++ rest) =
      fillCusp before (rest.head?.map (·.b)) run ++ smoothFrom before rest := by
  have stops : rest.takeWhile Setting.atCusp = [] ∧ rest.dropWhile Setting.atCusp = rest := by
    cases rest with
    | nil => exact ⟨rfl, rfl⟩
    | cons first others => simp [parted first rfl]
  cases run with
  | nil => exact absurd rfl nonempty
  | cons setting others =>
      obtain ⟨own, later⟩ := List.forall_mem_cons.mp cusp
      rw [List.cons_append, smoothFrom, if_pos own, List.takeWhile_append_of_pos later,
        List.dropWhile_append_of_pos later, stops.1, stops.2, List.append_nil]

theorem off_of_head?_dropWhile (settings : List Setting) {setting : Setting}
    (first : (settings.dropWhile Setting.atCusp).head? = some setting) : setting.atCusp = false := by
  have stopped := List.head?_dropWhile_not Setting.atCusp settings
  rw [first] at stopped
  simpa using stopped

theorem cusp_of_mem_run (cusp : setting.atCusp = true) (rest : List Setting) :
    ∀ member ∈ setting :: rest.takeWhile Setting.atCusp, member.atCusp = true :=
  List.forall_mem_cons.mpr ⟨cusp, List.all_eq_true.mp List.all_takeWhile⟩

theorem keeps_smoothFrom (before : Option Float) (settings : List Setting) :
    List.Forall₂ Keeps settings (smoothFrom before settings) := by
  fun_induction smoothFrom before settings with
  | case1 before => exact .nil
  | case2 before setting rest cusp run after ih =>
      have whole : setting :: rest = run ++ after :=
        congrArg (setting :: ·) (List.takeWhile_append_dropWhile ..).symm
      rw [whole]
      exact List.rel_append (keeps_fillCusp before _ (cusp_of_mem_run cusp rest)) ih
  | case3 before setting rest off ih => exact .cons ⟨rfl, fun _ => rfl⟩ ih

/-- Blending starts afresh behind a setting off the cusp. -/
theorem smoothFrom_append_of_off {last : Setting} (ends : settings.getLast? = some last)
    (off : last.atCusp = false) (rest : List Setting) :
    smoothFrom before (settings ++ rest) =
      smoothFrom before settings ++ smoothFrom (some last.b) rest := by
  fun_induction smoothFrom before settings with
  | case1 before => cases ends
  | case2 before setting others cusp run after ih =>
      have whole : setting :: others = run ++ after :=
        congrArg (setting :: ·) (List.takeWhile_append_dropWhile ..).symm
      have some_after : after ≠ [] := by
        intro none
        rw [whole, none, List.append_nil] at ends
        rw [cusp_of_mem_run cusp others last (List.mem_of_getLast? ends)] at off
        cases off
      rw [whole, List.getLast?_append_of_ne_nil _ some_after] at ends
      have first : (after ++ rest).head? = after.head? := List.head?_append_of_ne_nil _ some_after
      rw [whole, List.append_assoc, smoothFrom_run (List.cons_ne_nil _ _) (cusp_of_mem_run cusp others)
        (fun _ leads => off_of_head?_dropWhile others (first ▸ leads)), first, ih ends,
        List.append_assoc]
  | case3 before setting others on ih =>
      rw [List.cons_append, smoothFrom_off (Bool.eq_false_iff.mpr on), List.cons_append]
      cases others with
      | nil =>
          obtain rfl : setting = last := Option.some_inj.mp ends
          rw [smoothFrom]
          rfl
      | cons second others => rw [ih (by simpa using ends)]

private theorem head?_smoothFrom (before : Option Float)
    (parted : ∀ setting, settings.head? = some setting → setting.atCusp = false) :
    (smoothFrom before settings).head? = settings.head? := by
  cases settings with
  | nil => rw [smoothFrom]
  | cons setting rest => rw [smoothFrom_off (parted setting rfl), List.head?_cons, List.head?_cons]

/-- Blending what has been blended changes nothing: the settings that a run is filled from are kept. -/
theorem smoothFrom_smoothFrom (before : Option Float) (settings : List Setting) :
    smoothFrom before (smoothFrom before settings) = smoothFrom before settings := by
  fun_induction smoothFrom before settings with
  | case1 before => rw [smoothFrom]
  | case2 before setting rest cusp run after ih =>
      have parted (first : Setting) (leads : after.head? = some first) : first.atCusp = false :=
        off_of_head?_dropWhile rest leads
      have first := head?_smoothFrom before parted
      have nonempty : fillCusp before (after.head?.map (·.b)) run ≠ [] :=
        List.ne_nil_of_length_pos (by rw [length_fillCusp]; exact Nat.succ_pos _)
      rw [smoothFrom_run nonempty (cusp_of_mem_fillCusp (cusp_of_mem_run cusp rest))
        (first ▸ parted), first, fillCusp_fillCusp, ih]
  | case3 before setting rest on ih => rw [smoothFrom_off (Bool.eq_false_iff.mpr on), ih]

end

/-! ## Maximal runs -/

/-- Whether the settings from one index up to another, which is left out, are a maximal run at the
cusp. -/
structure CuspRun (settings : List Setting) (first last : Nat) : Prop where
  nonempty : first < last
  within : last ≤ settings.length
  cusp : ∀ (index : Nat) (setting : Setting), first ≤ index → index < last →
    settings[index]? = some setting → setting.atCusp = true
  before : ∀ previous, 0 < first → settings[first - 1]? = some previous → previous.atCusp = false
  after : ∀ next, settings[last]? = some next → next.atCusp = false

/-- Whether the spins of a run are what the settings on either side of it ask for. -/
structure Blended (settings smoothed : List Setting) (first last : Nat) : Prop where
  /-- A run that is the whole list stays as it is. -/
  whole : first = 0 → last = settings.length → smoothed = settings
  /-- A run at the start takes the spin of the setting behind it. -/
  leading : ∀ next, first = 0 → settings[last]? = some next →
    ∀ index, index < last → smoothed[index]?.map (·.b) = some next.b
  /-- A run at the end takes the spin of the setting before it. -/
  trailing : ∀ previous, 0 < first → settings[first - 1]? = some previous → last = settings.length →
    ∀ index, first ≤ index → index < last → smoothed[index]?.map (·.b) = some previous.b
  /-- Any other run goes from the one to the other in even steps. -/
  between : ∀ previous next, 0 < first → settings[first - 1]? = some previous →
    settings[last]? = some next → ∀ step, 1 ≤ step → step ≤ last - first →
      smoothed[first + step - 1]?.map (·.b) =
        some (previous.b + (next.b - previous.b) * step.toFloat / (last - first + 1).toFloat)

namespace CuspRun

variable {settings : List Setting} {first last : Nat}

def settingsOf (settings : List Setting) (first last : Nat) : List Setting :=
  (settings.drop first).take (last - first)

def spinBefore (settings : List Setting) (first : Nat) : Option Float :=
  if first = 0 then none else settings[first - 1]?.map (·.b)

theorem getElem?_settingsOf {offset : Nat} (inside : offset < last - first) :
    (settingsOf settings first last)[offset]? = settings[first + offset]? := by
  rw [settingsOf, List.getElem?_take_of_lt inside, List.getElem?_drop]

theorem length_settingsOf (run : CuspRun settings first last) :
    (settingsOf settings first last).length = last - first := by
  have within := run.within
  rw [settingsOf, List.length_take, List.length_drop]
  omega

private theorem cusp_of_mem (run : CuspRun settings first last) :
    ∀ setting ∈ settingsOf settings first last, setting.atCusp = true := by
  intro setting member
  obtain ⟨offset, found⟩ := List.mem_iff_getElem?.mp member
  have inside : offset < last - first := by
    rw [← run.length_settingsOf]
    exact (List.getElem?_eq_some_iff.mp found).1
  rw [getElem?_settingsOf inside] at found
  exact run.cusp (first + offset) setting (by omega) (by omega) found

theorem parts (run : CuspRun settings first last) :
    settings = settings.take first ++ (settingsOf settings first last ++ settings.drop last) := by
  have ordered := run.nonempty
  have behind : settings.drop last = (settings.drop first).drop (last - first) := by
    rw [List.drop_drop]
    congr 1
    omega
  rw [settingsOf, behind, List.take_append_drop, List.take_append_drop]

theorem smoothFrom_parts (run : CuspRun settings first last) (before : Option Float) :
    smoothFrom before (settingsOf settings first last ++ settings.drop last) =
      fillCusp before (settings[last]?.map (·.b)) (settingsOf settings first last) ++
        smoothFrom before (settings.drop last) := by
  have nonempty : settingsOf settings first last ≠ [] := by
    apply List.ne_nil_of_length_pos
    have ordered := run.nonempty
    rw [run.length_settingsOf]
    omega
  have next : (settings.drop last).head? = settings[last]? := List.head?_drop ..
  rw [smoothFrom_run nonempty run.cusp_of_mem fun setting leads => run.after setting (next ▸ leads),
    next]

/-- A run is filled from the spins on either side of it as they were given. -/
theorem smoothCusp_eq (run : CuspRun settings first last) :
    ∃ front back : List Setting, front.length = first ∧
      smoothCusp settings = front ++ (fillCusp (spinBefore settings first)
        (settings[last]?.map (·.b)) (settingsOf settings first last) ++ back) := by
  have ordered := run.nonempty
  have within := run.within
  rcases Nat.eq_zero_or_pos first with rfl | positive
  · refine ⟨[], smoothFrom none (settings.drop last), rfl, ?_⟩
    have whole := run.parts
    rw [List.take_zero, List.nil_append] at whole
    rw [smoothCusp, List.nil_append, spinBefore, if_pos rfl, ← run.smoothFrom_parts, ← whole]
  · obtain ⟨previous, found⟩ : ∃ previous, settings[first - 1]? = some previous :=
      ⟨_, List.getElem?_eq_getElem (by omega)⟩
    have ends : (settings.take first).getLast? = some previous := by
      rw [List.getLast?_take, if_neg (by omega), found]
      rfl
    have size : (smoothFrom none (settings.take first)).length = first := by
      rw [← (keeps_smoothFrom none (settings.take first)).length_eq, List.length_take]
      omega
    refine ⟨_, smoothFrom (some previous.b) (settings.drop last), size, ?_⟩
    have split : smoothFrom none (settings.take first ++ _) = _ :=
      smoothFrom_append_of_off ends (run.before previous positive found)
        (settingsOf settings first last ++ settings.drop last)
    rw [← run.parts, run.smoothFrom_parts] at split
    rw [smoothCusp, split, spinBefore, if_neg (by omega), found]
    rfl

private theorem getElem?_smoothCusp (run : CuspRun settings first last) {offset : Nat}
    (inside : offset < last - first) : (smoothCusp settings)[first + offset]? =
      (fillCusp (spinBefore settings first) (settings[last]?.map (·.b))
        (settingsOf settings first last))[offset]? := by
  obtain ⟨front, back, size, whole⟩ := run.smoothCusp_eq
  rw [whole, List.getElem?_append_right (by omega), size, Nat.add_sub_cancel_left,
    List.getElem?_append_left (by rw [length_fillCusp, run.length_settingsOf]; exact inside)]

/-- The setting of a run that stands at an index, blended. -/
theorem exists_smoothCusp (run : CuspRun settings first last) {index : Nat} (low : first ≤ index)
    (high : index < last) :
    ∃ setting, settings[index]? = some setting ∧ (smoothCusp settings)[index]? = some
      (match spinBefore settings first, settings[last]?.map (·.b) with
        | none, none => setting
        | none, some after => setting.withB after
        | some before, none => setting.withB before
        | some before, some after => setting.withB (before + (after - before) *
            (index - first + 1).toFloat / (last - first + 1).toFloat)) := by
  have within := run.within
  have inside : index - first < last - first := by omega
  have place : first + (index - first) = index := by omega
  refine ⟨settings[index], List.getElem?_eq_getElem (by omega), ?_⟩
  have filled := run.getElem?_smoothCusp inside
  rw [getElem?_fillCusp, getElem?_settingsOf inside, run.length_settingsOf, place,
    List.getElem?_eq_getElem (show index < settings.length by omega), Option.map_some] at filled
  exact filled

private theorem blended (run : CuspRun settings first last) :
    Blended settings (smoothCusp settings) first last := by
  have ordered := run.nonempty
  have within := run.within
  refine ⟨?_, ?_, ?_, ?_⟩
  · rintro rfl rfl
    apply List.ext_getElem?
    intro index
    rcases Nat.lt_or_ge index settings.length with inside | outside
    · obtain ⟨setting, found, smoothed⟩ := run.exists_smoothCusp (Nat.zero_le index) inside
      rw [spinBefore, if_pos rfl, List.getElem?_eq_none (Nat.le_refl _)] at smoothed
      rw [smoothed, found]
      rfl
    · have size := (keeps_smoothFrom none settings).length_eq
      rw [List.getElem?_eq_none outside, List.getElem?_eq_none (size ▸ outside)]
  · rintro next rfl found index inside
    obtain ⟨setting, own, smoothed⟩ := run.exists_smoothCusp (Nat.zero_le index) inside
    rw [smoothed, spinBefore, if_pos rfl, found]
    rfl
  · rintro previous positive found rfl index low high
    obtain ⟨setting, own, smoothed⟩ := run.exists_smoothCusp low high
    rw [smoothed, spinBefore, if_neg (by omega), found, List.getElem?_eq_none (Nat.le_refl _)]
    rfl
  · intro previous next positive found found' step least most
    obtain ⟨setting, own, smoothed⟩ :=
      run.exists_smoothCusp (show first ≤ first + step - 1 by omega) (by omega)
    rw [smoothed, spinBefore, if_neg (by omega), found, found',
      show first + step - 1 - first + 1 = step by omega]
    rfl

end CuspRun

/-- Blending is exact and final. It keeps the number of settings, every tilt and every setting off the
cusp; the spins of every maximal run at the cusp are what the settings on either side of it ask for;
and blending a second time changes nothing. -/
theorem smoothCusp_exact (settings : List Setting) :
    (smoothCusp settings).length = settings.length ∧
      (smoothCusp settings).map (·.a) = settings.map (·.a) ∧
      (∀ (index : Nat) (setting : Setting), settings[index]? = some setting →
        setting.atCusp = false → (smoothCusp settings)[index]? = some setting) ∧
      (∀ first last, CuspRun settings first last →
        Blended settings (smoothCusp settings) first last) ∧
      smoothCusp (smoothCusp settings) = smoothCusp settings := by
  have keeps := keeps_smoothFrom none settings
  refine ⟨keeps.length_eq.symm, ?_, ?_, fun first last run => run.blended,
    smoothFrom_smoothFrom none settings⟩
  · rw [← List.forall₂_eq_eq_eq, List.forall₂_map_left_iff, List.forall₂_map_right_iff]
    exact (keeps.imp fun _ _ kept => kept.a).flip
  · intro index setting found off
    obtain ⟨size, each⟩ := List.forall₂_iff_get.mp keeps
    obtain ⟨within, rfl⟩ := List.getElem?_eq_some_iff.mp found
    have within' : index < (smoothCusp settings).length := size ▸ within
    rw [List.getElem?_eq_getElem within']
    exact congrArg some ((each index within within').offCusp off)

/-- A tool that is tipped up to the cusp, held there and tipped back. -/
def overTheTop : List Setting :=
  [⟨0, 2⟩, ⟨Scalar.quarterTurn, 5⟩, ⟨Scalar.quarterTurn, 7⟩, ⟨0, 8⟩]

theorem smoothCusp_exact_overTheTop :
    CuspRun overTheTop 1 3 ∧ Blended overTheTop (smoothCusp overTheTop) 1 3 := by
  have run : CuspRun overTheTop 1 3 := by
    refine ⟨by decide, by decide, ?_, ?_, ?_⟩
    · intro index setting low high found
      obtain rfl | rfl : index = 1 ∨ index = 2 := by omega
      all_goals
        cases found
        decide +kernel
    · rintro previous - found
      cases found
      decide +kernel
    · rintro next found
      cases found
      decide +kernel
  exact ⟨run, (smoothCusp_exact overTheTop).2.2.2.1 1 3 run⟩

end Kerf.Machine
