import Kerf.Job.Evaluate
import Mathlib.Data.List.Nodup
import Mathlib.Data.List.Perm.Basic

/-!
# The order of arguments

Keywords with their values can stand anywhere among the positional arguments of a call, and in any order.
The functions of a job see positional arguments by their place and keywords by their name, so they
give the same for all of these calls.

Main statement: `ofValues_anyOrder`.
-/

set_option autoImplicit false

namespace Kerf.Job

/-- Whether a value is the keyword with a name: a string, raw or not, of the mark and the name. -/
def Value.IsKeyword (key : String) : Value → Prop
  | .text content _ => content = keywordMark ++ key
  | _ => False

theorem Value.keyword?_eq_some_iff {value : Value} {key : String} :
    value.keyword? = some key ↔ value.IsKeyword key := by
  cases value with
  | text content raw =>
      rw [keyword?, unmarked, Option.ite_none_right_eq_some, Text.startsWith,
        List.isPrefixOf_iff_prefix, Option.some.injEq, ← String.toList_inj, String.toList_ofList,
        IsKeyword, ← String.toList_inj, String.toList_append]
      constructor
      · rintro ⟨⟨rest, marked⟩, named⟩
        rw [← marked, List.drop_left] at named
        rw [← marked, named]
      · intro marked
        rw [marked]
        exact ⟨List.prefix_append _ _, List.drop_left⟩
  | _ => simp [keyword?, IsKeyword]

theorem Value.keyword?_eq_none_iff {value : Value} :
    value.keyword? = none ↔ ∀ key, ¬ value.IsKeyword key := by
  simp only [Option.eq_none_iff_forall_ne_some, ne_eq, keyword?_eq_some_iff]

/-- Whether values are positional ones with keywords among them, each before its value. Both keep their
order. What stands behind a keyword is its value, also if it is a keyword itself. -/
inductive Interleaved : List Value → List (String × Value) → List Value → Prop where
  | done : Interleaved [] [] []
  | positional {value : Value} {positional values : List Value} {pairs : List (String × Value)} :
      (∀ key, ¬ value.IsKeyword key) → Interleaved positional pairs values →
      Interleaved (value :: positional) pairs (value :: values)
  | keyword {word taken : Value} {key : String} {positional values : List Value}
      {pairs : List (String × Value)} :
      word.IsKeyword key → Interleaved positional pairs values →
      Interleaved positional ((key, taken) :: pairs) (word :: taken :: values)

namespace Arguments

/-- Splitting takes values that are interleaved apart again and goes on behind them. -/
theorem ofValues_append {positional values : List Value} {pairs : List (String × Value)}
    (interleaved : Interleaved positional pairs values) (rest : List Value) :
    ofValues (values ++ rest) =
      ⟨positional ++ (ofValues rest).positional, pairs ++ (ofValues rest).keywords⟩ := by
  induction interleaved with
  | done => rfl
  | positional unmarked _ ih =>
      rw [List.cons_append, ofValues, ih, List.cons_append]
      exact Value.keyword?_eq_none_iff.mpr unmarked
  | keyword marked _ ih =>
      rw [List.cons_append, List.cons_append, ofValues, ih, List.cons_append]
      exact Value.keyword?_eq_some_iff.mpr marked

theorem ofValues_of_interleaved {positional values : List Value} {pairs : List (String × Value)}
    (interleaved : Interleaved positional pairs values) : ofValues values = ⟨positional, pairs⟩ := by
  have split := ofValues_append interleaved []
  simpa [ofValues, none] using split

/-! ## Looking up keywords -/

private theorem lookup_eq_some_iff {pairs : List (String × Value)}
    (distinct : (pairs.map Prod.fst).Nodup)
    {key : String} {value : Value} : pairs.lookup key = some value ↔ (key, value) ∈ pairs := by
  induction pairs with
  | nil => simp
  | cons pair pairs ih =>
      obtain ⟨first, taken⟩ := pair
      rw [List.map_cons, List.nodup_cons] at distinct
      rw [List.lookup_cons]
      by_cases same : key = first
      · subst same
        have absent : (key, value) ∉ pairs := fun listed =>
          distinct.1 (List.mem_map.mpr ⟨_, listed, rfl⟩)
        simp [absent, eq_comm]
      · have differs : (key == first) = false := beq_false_of_ne same
        simp [differs, same, ih distinct.2]

/-- Keywords with distinct names are found in whatever order they are given. -/
theorem get?_eq_some_iff {pairs order : List (String × Value)} (distinct : (pairs.map Prod.fst).Nodup)
    (reordered : order.Perm pairs) (positional : List Value) (key : String) (value : Value) :
    get? ⟨positional, order⟩ key = some value ↔ (key, value) ∈ pairs := by
  have backwards : order.reverse.Perm pairs := order.reverse_perm.trans reordered
  have distinct' : (order.reverse.map Prod.fst).Nodup :=
    (backwards.map Prod.fst).nodup_iff.mpr distinct
  exact (lookup_eq_some_iff distinct').trans backwards.mem_iff

private theorem get?_concat (positional : List Value) (pairs : List (String × Value))
    (name key : String) (value : Value) :
    get? ⟨positional, pairs ++ [(name, value)]⟩ key =
      if key = name then some value else get? ⟨positional, pairs⟩ key := by
  rw [get?, get?, List.reverse_concat, List.lookup_cons]
  by_cases same : key = name
  · simp [same]
  · simp [same, beq_false_of_ne same]

/-! ## What functions see of their arguments -/

/-- Entries are read without a look at the other arguments. -/
theorem entries_eq {α : Type} (function : String) (arguments others : Arguments) (name expected : String)
    (read : Value → Option α) (values : List Value) :
    Request.entries ⟨function, arguments⟩ name expected read values =
      Request.entries ⟨function, others⟩ name expected read values := by
  unfold Request.entries
  generalize Value.flatten values = entries
  generalize (0 : Nat) = index
  induction entries generalizing index with
  | nil => rfl
  | cons value rest ih =>
      simp only [Request.entriesFrom, ih]

section

variable {arguments others : Arguments} (same : ∀ key, arguments.get? key = others.get? key)

include same

theorem option_eq {α : Type} (function key : String) (fallback : α)
    (read : Value → Except Mismatch α) :
    Request.option ⟨function, arguments⟩ key fallback read =
      Request.option ⟨function, others⟩ key fallback read := by
  simp only [Request.option, same]

theorem option?_eq {α : Type} (function key : String) (fallback : Option α)
    (read : Value → Except Mismatch α) :
    Request.option? ⟨function, arguments⟩ key fallback read =
      Request.option? ⟨function, others⟩ key fallback read :=
  option_eq same function key fallback _

theorem clearance_eq (function : String) :
    Request.clearance ⟨function, arguments⟩ = Request.clearance ⟨function, others⟩ := by
  simp only [Request.clearance, option_eq same]

theorem withOptions_eq (function : String) (path : Path) :
    withOptions ⟨function, arguments⟩ path = withOptions ⟨function, others⟩ path := by
  simp only [withOptions, option_eq same, option?_eq same]

end

/-- Whether arguments are the same by place and by name. -/
structure Agree (arguments others : Arguments) : Prop where
  positional : arguments.positional = others.positional
  get? : ∀ key, arguments.get? key = others.get? key

theorem Agree.name {arguments others : Arguments} (agree : Agree arguments others) (function : String) :
    Request.name ⟨function, arguments⟩ = Request.name ⟨function, others⟩ := by
  simp only [Request.name, agree.positional]

/-- Functions other than `vec3`, which has no keywords, cannot tell such arguments apart. -/
theorem call_eq_of_agree {values others : List Value} (agree : Agree (ofValues values) (ofValues others))
    {function : String} {call : List Value → Call Value} (known : makingCall? function = some call)
    (keyed : function ≠ "vec3") : call values = call others := by
  have option {α : Type} := @option_eq _ _ agree.get? α
  have option? {α : Type} := @option?_eq _ _ agree.get? α
  have entries {α : Type} (function : String) :=
    @entries_eq α function (ofValues values) (ofValues others)
  unfold makingCall? at known
  split at known <;> cases known
  -- `vec3` reads its values as they are given; all others split them first.
  · exact absurd rfl keyed
  · simp only [makeMachine, agree.name]
  · simp only [makeTool, agree.name, option, option?]
  · simp only [makeBox, option, clearance_eq agree.get?]
  · simp only [makeCylinder, option, clearance_eq agree.get?]
  · simp only [makePoint, agree.positional, agree.get?, option]
  · simp only [makeAdditions, option]
  · simp only [makePath, agree.name, entries, withOptions_eq agree.get?]
  · simp only [makeProjectedPath, planProjection, agree.name, option, option?, withOptions_eq agree.get?]
  · simp only [makeOperation, agree.name, entries, option?]
  · simp only [makeInstruction, agree.name, option?, entries]

/-- Keyword arguments can be given in any order: wherever keywords with distinct names stand among
positional values, splitting gives those values and the pairs, and a keyword at the end is one more pair.
Two such calls of a function give the same. -/
theorem ofValues_anyOrder {positional values : List Value} {pairs order : List (String × Value)}
    (distinct : (pairs.map Prod.fst).Nodup) (reordered : order.Perm pairs)
    (interleaved : Interleaved positional order values) :
    (ofValues values).positional = positional ∧ (ofValues values).keywords.Perm pairs ∧
      (∀ key value, (ofValues values).get? key = some value ↔ (key, value) ∈ pairs) ∧
      (∀ flag name, flag.IsKeyword name →
        (ofValues (values ++ [flag])).positional = positional ∧
          (ofValues (values ++ [flag])).keywords = (ofValues values).keywords ++ [(name, .bool true)] ∧
          ∀ key, (ofValues (values ++ [flag])).get? key =
            if key = name then some (.bool true) else (ofValues values).get? key) ∧
      ∀ {order' values'}, order'.Perm pairs → Interleaved positional order' values' →
        Agree (ofValues values) (ofValues values') ∧
          ∀ {function call}, makingCall? function = some call → function ≠ "vec3" →
            call values = call values' := by
  have split := ofValues_of_interleaved interleaved
  have found := get?_eq_some_iff distinct reordered positional
  refine ⟨by rw [split], by rw [split]; exact reordered, by rw [split]; exact found, ?_, ?_⟩
  · intro flag name marked
    have flagged : ofValues (values ++ [flag]) = ⟨positional, order ++ [(name, .bool true)]⟩ := by
      rw [ofValues_append interleaved, ofValues, List.append_nil]
      exact Value.keyword?_eq_some_iff.mpr marked
    rw [flagged, split]
    exact ⟨rfl, rfl, fun key => get?_concat positional order name key (.bool true)⟩
  · intro order' values' reordered' interleaved'
    have agree : Agree (ofValues values) (ofValues values') := by
      rw [split, ofValues_of_interleaved interleaved']
      refine ⟨rfl, fun key => Option.ext fun value => ?_⟩
      rw [found, get?_eq_some_iff distinct reordered']
    exact ⟨agree, call_eq_of_agree agree⟩

/-- Two keywords around the coordinates of a point, one of them with a keyword as its value. -/
def aroundCoordinates : List Value :=
  [.text "__kw_pre" false, .text "__kw_post" false, .int 1, .int 2, .text "__kw_feed" true, .int 3, .int 4]

theorem ofValues_anyOrder_aroundCoordinates :
    ([("feed", Value.int 3), ("pre", Value.text "__kw_post" false)].map Prod.fst).Nodup ∧
      Interleaved [.int 1, .int 2, .int 4] [("pre", .text "__kw_post" false), ("feed", .int 3)]
        aroundCoordinates ∧
      (ofValues aroundCoordinates).positional = [.int 1, .int 2, .int 4] ∧
      (ofValues aroundCoordinates).get? "pre" = some (.text "__kw_post" false) ∧
      (ofValues (aroundCoordinates ++ [.text "__kw_rapid" false])).get? "rapid" = some (.bool true) := by
  have distinct : ([("feed", Value.int 3), ("pre", Value.text "__kw_post" false)].map Prod.fst).Nodup := by
    decide
  have interleaved : Interleaved [.int 1, .int 2, .int 4]
      [("pre", .text "__kw_post" false), ("feed", .int 3)] aroundCoordinates :=
    .keyword rfl (.positional (fun _ => id) (.positional (fun _ => id)
      (.keyword rfl (.positional (fun _ => id) .done))))
  obtain ⟨places, _, names, flags, _⟩ := ofValues_anyOrder distinct (.swap _ _ _) interleaved
  obtain ⟨_, _, flagged⟩ := flags (.text "__kw_rapid" false) "rapid" rfl
  exact ⟨distinct, interleaved, places, (names _ _).mpr (by simp), (flagged "rapid").trans rfl⟩

end Arguments

end Kerf.Job
