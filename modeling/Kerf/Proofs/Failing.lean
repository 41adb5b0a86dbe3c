import Mathlib.Data.List.Forall2

/-!
# Steps that may fail

When two steps in a row succeed or fail, when a step does under another name for its failures, what a
list of steps returns, and when two runs end alike.
-/

set_option autoImplicit false

namespace Kerf

instance decidableEqExcept {Error Value : Type} [DecidableEq Error] [DecidableEq Value] :
    DecidableEq (Except Error Value)
  | .error cause, .error other => decidable_of_iff (cause = other) (by simp)
  | .ok value, .ok other => decidable_of_iff (value = other) (by simp)
  | .error _, .ok _ => .isFalse (by simp)
  | .ok _, .error _ => .isFalse (by simp)

instance decidableExistsOk {Error Value : Type} (holds : Value → Prop) [DecidablePred holds] :
    (source : Except Error Value) → Decidable (∃ value, source = .ok value ∧ holds value)
  | .ok value => decidable_of_iff (holds value) (by simp)
  | .error _ => .isFalse (by simp)

section

variable {Error Other Value Result : Type} {source : Except Error Value}

theorem bind_eq_ok {next : Value → Except Error Result} {result : Result} :
    source >>= next = .ok result ↔ ∃ value, source = .ok value ∧ next value = .ok result := by
  cases source with
  | error cause => simp [bind, Except.bind]
  | ok value => simp [bind, Except.bind]

theorem bind_eq_error {next : Value → Except Error Result} {cause : Error} :
    source >>= next = .error cause ↔
      source = .error cause ∨ ∃ value, source = .ok value ∧ next value = .error cause := by
  cases source with
  | error cause => simp [bind, Except.bind]
  | ok value => simp [bind, Except.bind]

theorem exists_of_isOk (succeeds : source.isOk = true) : ∃ value, source = .ok value := by
  cases source with
  | error cause => cases succeeds
  | ok value => exact ⟨value, rfl⟩

/-- A change of the value makes no difference to when a step fails, if the step goes along with it. -/
theorem map_bind_comm {change : Value → Value} {next : Value → Except Error Value}
    (follows : ∀ value, next (change value) = (next value).map change) :
    source.map change >>= next = (source >>= next).map change := by
  cases source with
  | error cause => rfl
  | ok value => exact follows value

theorem mapError_eq_ok {rename : Error → Other} {value : Value} :
    source.mapError rename = .ok value ↔ source = .ok value := by
  cases source with
  | error cause => constructor <;> intro impossible <;> cases impossible
  | ok known =>
      constructor
      · intro same
        exact congrArg Except.ok (Except.ok.inj same)
      · intro same
        cases same
        rfl

theorem mapError_eq_error {rename : Error → Other} {cause : Other} :
    source.mapError rename = .error cause ↔
      ∃ original, source = .error original ∧ rename original = cause := by
  cases source with
  | error original =>
      constructor
      · intro renamed
        exact ⟨original, rfl, Except.error.inj renamed⟩
      · rintro ⟨other, same, rfl⟩
        cases same
        rfl
  | ok value =>
      constructor
      · intro impossible
        cases impossible
      · rintro ⟨_, impossible, _⟩
        cases impossible

variable {values : List Value} {results : List Result}

/-- What a list of steps returns are the values of its steps, one by one. -/
theorem forall₂_of_mapM {step : Value → Except Error Result}
    (done : values.mapM step = .ok results) :
    List.Forall₂ (fun value result => step value = .ok result) values results := by
  induction values generalizing results with
  | nil =>
      cases done
      exact .nil
  | cons head tail ih =>
      rw [List.mapM_cons] at done
      obtain ⟨first, stepped, later⟩ := bind_eq_ok.mp done
      obtain ⟨rest, continued, same⟩ := bind_eq_ok.mp later
      cases same
      exact .cons stepped (ih continued)

theorem exists_of_mem_forall₂ {related : Value → Result → Prop} {items : List Value}
    {others : List Result} (pairs : List.Forall₂ related items others) {item : Value}
    (member : item ∈ items) : ∃ other ∈ others, related item other := by
  induction pairs with
  | nil => cases member
  | @cons _ head _ _ here _ ih =>
      rcases List.mem_cons.mp member with rfl | later
      · exact ⟨head, List.mem_cons_self, here⟩
      · obtain ⟨other, listed, there⟩ := ih later
        exact ⟨other, List.mem_cons_of_mem _ listed, there⟩

theorem exists_of_mem_mapM {step : Value → Except Error Result}
    (done : values.mapM step = .ok results) {result : Result} (member : result ∈ results) :
    ∃ value ∈ values, step value = .ok result :=
  exists_of_mem_forall₂ (forall₂_of_mapM done).flip member

theorem exists_result_of_mapM {step : Value → Except Error Result}
    (done : values.mapM step = .ok results) {value : Value} (member : value ∈ values) :
    ∃ result ∈ results, step value = .ok result :=
  exists_of_mem_forall₂ (forall₂_of_mapM done) member

theorem length_mapM {step : Value → Except Error Result} (done : values.mapM step = .ok results) :
    results.length = values.length :=
  (forall₂_of_mapM done).length_eq.symm

/-- A list of steps fails where its first failing step does. -/
theorem mapM_eq_error {step : Value → Except Error Result} {cause : Error} :
    values.mapM step = .error cause ↔
      ∃ earlier value later, values = earlier ++ value :: later ∧
        (∀ passed ∈ earlier, ∃ result, step passed = .ok result) ∧ step value = .error cause := by
  induction values with
  | nil => simp [pure, Except.pure]
  | cons head tail ih =>
      rw [List.mapM_cons, bind_eq_error]
      constructor
      · rintro (failed | ⟨first, stepped, later⟩)
        · exact ⟨[], head, tail, rfl, by simp, failed⟩
        · rcases bind_eq_error.mp later with failed | ⟨rest, _, impossible⟩
          · obtain ⟨earlier, value, behind, rfl, passed, here⟩ := ih.mp failed
            refine ⟨head :: earlier, value, behind, rfl, ?_, here⟩
            exact List.forall_mem_cons.mpr ⟨⟨first, stepped⟩, passed⟩
          · cases impossible
      · rintro ⟨earlier, value, behind, whole, passed, here⟩
        cases earlier with
        | nil =>
            cases whole
            exact .inl here
        | cons first earlier =>
            cases whole
            obtain ⟨⟨result, stepped⟩, onward⟩ := List.forall_mem_cons.mp passed
            refine .inr ⟨result, stepped, bind_eq_error.mpr (.inl ?_)⟩
            exact ih.mpr ⟨earlier, value, behind, rfl, onward, here⟩

/-- A list of steps that all succeed returns. -/
theorem exists_mapM {step : Value → Except Error Result}
    (total : ∀ value ∈ values, ∃ result, step value = .ok result) :
    ∃ results, values.mapM step = .ok results := by
  cases done : values.mapM step with
  | ok results => exact ⟨results, rfl⟩
  | error cause =>
      obtain ⟨_, value, _, rfl, _, failed⟩ := mapM_eq_error.mp done
      obtain ⟨_, stepped⟩ := total value (by simp)
      cases failed.symm.trans stepped

end

/-- Whether two runs end alike: both fail for the same cause, or both return values that are
related. -/
inductive EndAlike {Error Value : Type} (related : Value → Value → Prop) :
    Except Error Value → Except Error Value → Prop where
  | failed (cause : Error) : EndAlike related (.error cause) (.error cause)
  | returned {first second : Value} :
      related first second → EndAlike related (.ok first) (.ok second)

namespace EndAlike

variable {Error Other Value Result : Type} {related : Value → Value → Prop}
  {relates : Result → Result → Prop} {first second : Except Error Value}

theorem refl (source : Except Error Value) : EndAlike Eq source source := by
  cases source with
  | error cause => exact .failed cause
  | ok value => exact .returned rfl

theorem bind {next onward : Value → Except Error Result} (alike : EndAlike related first second)
    (goesOn : ∀ value change, related value change → EndAlike relates (next value) (onward change)) :
    EndAlike relates (first >>= next) (second >>= onward) := by
  cases alike with
  | failed cause => exact .failed cause
  | returned holds => exact goesOn _ _ holds

/-- One of two runs that end alike may go on by itself. -/
theorem bind_left {relates : Value → Value → Prop} {next : Value → Except Error Value}
    (alike : EndAlike related first second)
    (goesOn : ∀ value change, related value change → EndAlike relates (next value) (.ok change)) :
    EndAlike relates (first >>= next) second := by
  cases alike with
  | failed cause => exact .failed cause
  | returned holds => exact goesOn _ _ holds

theorem exists_of_ok {value : Value} (alike : EndAlike related first (.ok value)) :
    ∃ change, first = .ok change ∧ related change value := by
  cases alike with
  | returned holds => exact ⟨_, rfl, holds⟩

theorem mapError (rename : Error → Other) (alike : EndAlike related first second) :
    EndAlike related (first.mapError rename) (second.mapError rename) := by
  cases alike with
  | failed cause => exact .failed (rename cause)
  | returned holds => exact .returned holds

end EndAlike

end Kerf
