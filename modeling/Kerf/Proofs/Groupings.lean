import Kerf.Proofs.ArgumentOrder

/-!
# The grouping of entries

The entries of a path or an operation can be grouped in lists and arrays. Arrays and lists with items give
way to what they hold, however deep they are nested. An empty list does not: it is a value of its own kind
and stays among the entries, where it fits no place. So grouping makes no difference exactly as long as no
empty list comes to be read.

Main statement: `grouped_entries`.
-/

set_option autoImplicit false

namespace Kerf.Job

namespace Value

/-- Whether a value is no list or array. -/
def IsEntry : Value → Prop
  | .nil | .list _ _ | .array _ => False
  | _ => True

def isNil : Value → Bool
  | .nil => true
  | _ => false

/-- Whether values are entries in order, grouped in lists and arrays of any depth. -/
inductive Groups : List Value → List Value → Prop where
  | done : Groups [] []
  | entry {value : Value} {values entries : List Value} :
      value.IsEntry → Groups values entries → Groups (value :: values) (value :: entries)
  | list {items inner values entries : List Value} :
      Groups items inner → Groups values entries → Groups (ofList items :: values) (inner ++ entries)
  | array {items inner values entries : List Value} :
      Groups items inner → Groups values entries → Groups (.array items :: values) (inner ++ entries)

/-- Whether there is an empty list among values or anywhere within them. -/
inductive HoldEmpty : List Value → Prop where
  | here {values : List Value} : HoldEmpty (.nil :: values)
  | later {value : Value} {values : List Value} : HoldEmpty values → HoldEmpty (value :: values)
  | list {head : Value} {tail values : List Value} :
      HoldEmpty (head :: tail) → HoldEmpty (.list head tail :: values)
  | array {items values : List Value} : HoldEmpty items → HoldEmpty (.array items :: values)

/-! ## What flattening leaves -/

theorem entries_of_isEntry {value : Value} (isEntry : value.IsEntry) : entries value = [value] := by
  cases value <;> first | rfl | exact isEntry.elim

variable {values entries : List Value}

/-- Flattening leaves the entries in order and the empty lists. -/
theorem Groups.filter_flatten (groups : Groups values entries) :
    (flatten values).filter (!·.isNil) = entries := by
  induction groups with
  | done => rfl
  | @entry value _ _ isEntry _ ih =>
      rw [flatten, entries_of_isEntry isEntry, List.singleton_append, List.filter_cons_of_pos, ih]
      cases value <;> first | rfl | exact isEntry.elim
  | @list items _ _ _ _ _ inner later =>
      rw [flatten, List.filter_append, later]
      cases items with
      | nil => rw [← inner]; rfl
      | cons head tail => rw [← inner]; rfl
  | array _ _ inner later => rw [flatten, Value.entries, List.filter_append, inner, later]

private theorem holdEmpty_cons_iff {value : Value} (isEntry : value.IsEntry) :
    HoldEmpty (value :: values) ↔ HoldEmpty values := by
  refine ⟨fun hold => ?_, .later⟩
  cases hold with
  | later hold => exact hold
  | here | list _ | array _ => exact isEntry.elim

private theorem holdEmpty_list_iff {head : Value} {tail : List Value} :
    HoldEmpty (.list head tail :: values) ↔ HoldEmpty (head :: tail) ∨ HoldEmpty values := by
  constructor
  · intro hold
    cases hold with
    | list hold => exact .inl hold
    | later hold => exact .inr hold
  · rintro (hold | hold)
    · exact .list hold
    · exact .later hold

private theorem holdEmpty_array_iff {items : List Value} :
    HoldEmpty (.array items :: values) ↔ HoldEmpty items ∨ HoldEmpty values := by
  constructor
  · intro hold
    cases hold with
    | array hold => exact .inl hold
    | later hold => exact .inr hold
  · rintro (hold | hold)
    · exact .array hold
    · exact .later hold

/-- The empty lists that flattening leaves are those within the values, however deep. -/
theorem Groups.nil_mem_flatten (groups : Groups values entries) :
    .nil ∈ flatten values ↔ HoldEmpty values := by
  induction groups with
  | done => exact iff_of_false List.not_mem_nil nofun
  | @entry value _ _ isEntry _ ih =>
      have differs : Value.nil ≠ value := by
        rintro rfl
        exact isEntry
      rw [flatten, entries_of_isEntry isEntry, List.singleton_append, List.mem_cons,
        holdEmpty_cons_iff isEntry, ih]
      exact or_iff_right differs
  | @list items _ _ _ _ _ inner later =>
      cases items with
      | nil => exact iff_of_true List.mem_cons_self .here
      | cons head tail =>
          rw [ofList, holdEmpty_list_iff, ← inner, ← later]
          exact List.mem_append
  | array _ _ inner later =>
      rw [holdEmpty_array_iff, ← inner, ← later]
      exact List.mem_append

theorem Groups.isEntry_of_mem (groups : Groups values entries) : ∀ value ∈ entries, value.IsEntry := by
  induction groups with
  | done => exact fun _ inside => nomatch inside
  | entry isEntry _ ih => exact List.forall_mem_cons.mpr ⟨isEntry, ih⟩
  | list _ _ inner later => exact List.forall_mem_append.mpr ⟨inner, later⟩
  | array _ _ inner later => exact List.forall_mem_append.mpr ⟨inner, later⟩

theorem flatten_of_isEntry (plain : ∀ value ∈ entries, value.IsEntry) : flatten entries = entries := by
  induction entries with
  | nil => rfl
  | cons value entries ih =>
      obtain ⟨isEntry, later⟩ := List.forall_mem_cons.mp plain
      rw [flatten, entries_of_isEntry isEntry, ih later, List.singleton_append]

/-- Grouping leaves the entries alone just if there is no empty list. -/
theorem Groups.flatten_eq_iff (groups : Groups values entries) :
    flatten values = entries ↔ ¬ HoldEmpty values := by
  rw [← groups.nil_mem_flatten]
  constructor
  · intro same inside
    rw [same] at inside
    exact groups.isEntry_of_mem _ inside
  · intro none
    rw [← groups.filter_flatten]
    refine (List.filter_eq_self.mpr fun value inside => ?_).symm
    cases value <;> first | rfl | exact absurd inside none

end Value

/-! ## Reading entries -/

open Value

/-- Whether values, when their entries are read, come to an empty list at an index behind nothing but
entries that fit. -/
def EmptyAt {α : Type} (read : Value → Option α) (values : List Value) (index : Nat) : Prop :=
  ∃ right rest, flatten values = right ++ .nil :: rest ∧ right.length = index ∧
    ∀ value ∈ right, (read value).isSome = true

section

variable {α : Type} {read : Value → Option α}

theorem Value.Groups.holdEmpty_of_emptyAt {values entries : List Value} (groups : Groups values entries)
    {index : Nat} (emptyAt : EmptyAt read values index) : HoldEmpty values := by
  obtain ⟨right, rest, split, _⟩ := emptyAt
  rw [← groups.nil_mem_flatten, split]
  exact List.mem_append_right right List.mem_cons_self

variable (request : Request) (name expected : String)

private theorem entriesFrom_wrong {right rest : List Value} {wrong : Value}
    (fit : ∀ value ∈ right, (read value).isSome = true) (unfit : read wrong = none) (index : Nat) :
    request.entriesFrom name expected read index (right ++ wrong :: rest) =
      .error (.entry request.function name (index + right.length) expected wrong) := by
  induction right generalizing index with
  | nil =>
      rw [List.nil_append, Request.entriesFrom, unfit]
      rfl
  | cons value right ih =>
      obtain ⟨entry, known⟩ := Option.isSome_iff_exists.mp (fit value List.mem_cons_self)
      rw [List.cons_append, Request.entriesFrom, known]
      simp only [ih (fun other inside => fit other (List.mem_cons_of_mem value inside)) (index + 1)]
      rw [List.length_cons, Nat.add_assoc, Nat.add_comm 1]
      rfl

/-- Empty lists behind an entry that does not fit are never read. -/
theorem entriesFrom_filter {entries : List Value}
    (unread : ∀ right rest, entries = right ++ .nil :: rest →
      ¬ ∀ value ∈ right, (read value).isSome = true) (index : Nat) :
    request.entriesFrom name expected read index entries =
      request.entriesFrom name expected read index (entries.filter (!·.isNil)) := by
  induction entries generalizing index with
  | nil => rfl
  | cons value rest ih =>
      by_cases empty : value = .nil
      · exact absurd (by simp) (unread [] rest (by rw [empty]; rfl))
      · have kept : (!value.isNil) = true := by
          cases value <;> first | rfl | exact absurd rfl empty
        rw [List.filter_cons, if_pos kept, Request.entriesFrom, Request.entriesFrom]
        cases known : read value with
        | none => rfl
        | some entry =>
            -- This value fits, so an empty list that is read among the others is read here too.
            have later : ∀ right rest', rest = right ++ .nil :: rest' →
                ¬ ∀ value ∈ right, (read value).isSome = true := by
              intro right rest' split fit
              refine unread (value :: right) rest' (by rw [split]; rfl) ?_
              exact List.forall_mem_cons.mpr ⟨by rw [known]; rfl, fit⟩
            simp only [ih later (index + 1)]

private theorem wrong_of_entriesFrom {entries : List Value} {index : Nat} {cause : CallError}
    (failed : request.entriesFrom name expected read index entries = .error cause) :
    ∃ wrong ∈ entries, ∃ place, cause = .entry request.function name place expected wrong := by
  induction entries generalizing index with
  | nil => cases failed
  | cons value rest ih =>
      rw [Request.entriesFrom] at failed
      cases known : read value with
      | none =>
          rw [known] at failed
          cases failed
          exact ⟨value, List.mem_cons_self, index, rfl⟩
      | some entry =>
          rw [known] at failed
          cases read : request.entriesFrom name expected read (index + 1) rest with
          | error cause' =>
              simp only [read] at failed
              cases failed
              obtain ⟨wrong, inside, place, named⟩ := ih read
              exact ⟨wrong, List.mem_cons_of_mem value inside, place, named⟩
          | ok entries =>
              simp only [read] at failed
              cases failed

end

/-! ## Functions that gather entries -/

/-- Whether a function reads its name, then its entries, and makes something of them that depends on no
other positional argument. What else can be wrong is an option. -/
structure Gathers {α : Type} (make : Arguments → Except CallError Value) (function expected : String)
    (read : Value → Option α) (finish : Arguments → String → List α → Except CallError Value) :
    Prop where
  make_eq : ∀ arguments, make arguments = do
    let (name, rest) ← Request.name ⟨function, arguments⟩
    let entries ← Request.entries ⟨function, arguments⟩ name expected read rest
    finish arguments name entries
  finish_eq : ∀ arguments others, (∀ key, arguments.get? key = others.get? key) →
    finish arguments = finish others
  finish_error : ∀ arguments name entries cause, finish arguments name entries = .error cause →
    ∃ key mismatch, cause = .option function key mismatch
  read_nil : read .nil = none

def Value.point? : Value → Option Point
  | .point content => some content
  | _ => none

def Value.path? : Value → Option Path
  | .path content => some content
  | _ => none

/-- What is wrong with two steps is wrong with one of them. -/
theorem error_of_bind {α β : Type} {P : CallError → Prop} {first : Except CallError α}
    {next : α → Except CallError β} (known : ∀ cause, first = .error cause → P cause)
    (later : ∀ result cause, next result = .error cause → P cause) (cause : CallError)
    (failed : (first >>= next) = .error cause) : P cause := by
  cases first with
  | error cause' =>
      cases failed
      exact known cause rfl
  | ok result => exact later result cause failed

theorem error_of_option {α : Type} (function : String) (arguments : Arguments) (key : String)
    (fallback : α) (read : Value → Except Mismatch α) (cause : CallError)
    (failed : Request.option ⟨function, arguments⟩ key fallback read = .error cause) :
    ∃ key mismatch, cause = .option function key mismatch := by
  rw [Request.option] at failed
  split at failed
  · cases failed
  · next value _ =>
      generalize read value = result at failed
      cases result with
      | error mismatch =>
          cases failed
          exact ⟨key, mismatch, rfl⟩
      | ok result => cases failed

private theorem gathers_makePath :
    Gathers makePath "path" "pt" Value.point? fun arguments name points => do
      let path ← withOptions ⟨"path", arguments⟩ { name, points }
      return .path path where
  make_eq arguments := rfl
  finish_eq arguments others same := by
    simp only [Arguments.withOptions_eq same]
  finish_error arguments name entries := by
    have option {α : Type} := @error_of_option α "path" arguments
    refine error_of_bind ?_ fun _ _ done => nomatch done
    unfold withOptions Request.option?
    -- One step for each option of a path.
    refine error_of_bind (option _ _ _) fun _ => error_of_bind (option _ _ _) fun _ => ?_
    refine error_of_bind (option _ _ _) fun _ => error_of_bind (option _ _ _) fun _ => ?_
    exact error_of_bind (option _ _ _) fun _ _ done => nomatch done
  read_nil := rfl

private theorem gathers_makeOperation :
    Gathers makeOperation "operation" "path" Value.path? fun arguments name paths => do
      let request : Request := ⟨"operation", arguments⟩
      let tool ← request.option? "tool" none Value.asTool
      let form ← request.option? "stock" none Value.asForm
      return .operation { name, paths, tool, form } where
  make_eq arguments := rfl
  finish_eq arguments others same := by
    simp only [Arguments.option?_eq same]
  finish_error arguments name entries := by
    have option {α : Type} := @error_of_option α "operation" arguments
    exact error_of_bind (option _ _ _) fun _ => error_of_bind (option _ _ _) fun _ _ done => nomatch done
  read_nil := rfl

namespace Gathers

variable {α : Type} {make : Arguments → Except CallError Value} {function expected : String}
  {read : Value → Option α} {finish : Arguments → String → List α → Except CallError Value}
  {arguments direct : Arguments} {values entries : List Value}

theorem make_named (gathers : Gathers make function expected read finish) {text : String} {raw : Bool}
    (given : arguments.positional = .text text raw :: values) :
    make arguments =
      Request.entries ⟨function, arguments⟩ text expected read values >>= finish arguments text := by
  rw [gathers.make_eq, Request.name, given]
  rfl

/-- A call that comes to an empty list fails there. -/
theorem make_of_emptyAt (gathers : Gathers make function expected read finish) {text : String}
    {raw : Bool} (given : arguments.positional = .text text raw :: values) {index : Nat}
    (emptyAt : EmptyAt read values index) :
    make arguments = .error (.entry function text index expected .nil) := by
  obtain ⟨right, rest, split, rfl, fit⟩ := emptyAt
  rw [gathers.make_named given, Request.entries, split, entriesFrom_wrong _ _ _ fit gathers.read_nil,
    Nat.zero_add]
  rfl

/-- A call with plain entries fails at none that is an empty list. -/
theorem make_ne_nil (gathers : Gathers make function expected read finish)
    (plain : ∀ value ∈ entries, value.IsEntry) {text : String} {raw : Bool}
    (given : direct.positional = .text text raw :: entries) (index : Nat) :
    make direct ≠ .error (.entry function text index expected .nil) := by
  intro failed
  rw [gathers.make_named given, Request.entries, flatten_of_isEntry plain] at failed
  cases read : Request.entriesFrom ⟨function, direct⟩ text expected read 0 entries with
  | error cause =>
      rw [read] at failed
      cases failed
      obtain ⟨wrong, inside, _, named⟩ := wrong_of_entriesFrom _ _ _ read
      cases named
      exact plain _ inside
  | ok entries =>
      rw [read] at failed
      obtain ⟨_, _, named⟩ := gathers.finish_error _ _ _ _ failed
      cases named

/-- A call that comes to no empty list gives the same as the call with the entries themselves. -/
theorem make_eq_direct (gathers : Gathers make function expected read finish)
    (groups : Groups values entries) {text : String} {raw : Bool}
    (given : arguments.positional = .text text raw :: values)
    (givenDirect : direct.positional = .text text raw :: entries)
    (same : ∀ key, arguments.get? key = direct.get? key)
    (unread : ∀ index, ¬ EmptyAt read values index) :
    make arguments = make direct := by
  have unread' : ∀ right rest, flatten values = right ++ .nil :: rest →
      ¬ ∀ value ∈ right, (read value).isSome = true :=
    fun right rest split fit => unread right.length ⟨right, rest, split, rfl, fit⟩
  have entries_eq : Request.entries ⟨function, arguments⟩ text expected read values =
      Request.entries ⟨function, direct⟩ text expected read entries := by
    rw [Arguments.entries_eq function arguments direct, Request.entries, Request.entries,
      entriesFrom_filter _ _ _ unread', groups.filter_flatten, flatten_of_isEntry groups.isEntry_of_mem]
  rw [gathers.make_named given, gathers.make_named givenDirect, entries_eq,
    gathers.finish_eq arguments direct same]

theorem make_unnamed (gathers : Gathers make function expected read finish) {name : Value}
    (unnamed : ∀ text raw, name ≠ .text text raw) (given : arguments.positional = name :: values) :
    make arguments = .error (.badName function ⟨.string, name⟩) := by
  rw [gathers.make_eq, Request.name, given]
  cases name with
  | text content raw => exact absurd rfl (unnamed content raw)
  | _ => rfl

/-- Grouping makes no difference to a call just if it comes to no empty list, and where it does, the call
fails at the empty list. -/
theorem grouped (gathers : Gathers make function expected read finish) (groups : Groups values entries)
    {name : Value} (given : arguments.positional = name :: values)
    (givenDirect : direct.positional = name :: entries)
    (same : ∀ key, arguments.get? key = direct.get? key) :
    (make arguments = make direct ↔
        ∀ text raw index, name = .text text raw → ¬ EmptyAt read values index) ∧
      ∀ text raw index, name = .text text raw → EmptyAt read values index →
        make arguments = .error (.entry function text index expected .nil) := by
  refine ⟨⟨?_, ?_⟩, ?_⟩
  · rintro alike text raw index rfl emptyAt
    rw [gathers.make_of_emptyAt given emptyAt] at alike
    exact gathers.make_ne_nil groups.isEntry_of_mem givenDirect index alike.symm
  · intro unread
    by_cases named : ∃ text raw, name = .text text raw
    · obtain ⟨text, raw, rfl⟩ := named
      exact gathers.make_eq_direct groups given givenDirect same fun index => unread text raw index rfl
    · have unnamed : ∀ text raw, name ≠ .text text raw := fun text raw is => named ⟨text, raw, is⟩
      rw [gathers.make_unnamed unnamed given, gathers.make_unnamed unnamed givenDirect]
  · rintro text raw index rfl emptyAt
    exact gathers.make_of_emptyAt given emptyAt

end Gathers

/-! ## Paths and operations -/

/-- However entries are grouped, flattening leaves them in order, and the empty lists between them. It
leaves just the entries if there is no empty list at any depth. A path or an operation with grouped
entries is what it is with the entries given one by one, or fails at the same one of them, unless an
empty list comes before the first entry that does not fit: then it fails at the empty list. -/
theorem grouped_entries {values entries : List Value} (groups : Groups values entries) :
    (flatten values).filter (!·.isNil) = entries ∧ (flatten values = entries ↔ ¬ HoldEmpty values) ∧
      ∀ (name : Value) (arguments direct : Arguments), arguments.positional = name :: values →
        direct.positional = name :: entries → (∀ key, arguments.get? key = direct.get? key) →
        (¬ HoldEmpty values →
            makePath arguments = makePath direct ∧ makeOperation arguments = makeOperation direct) ∧
          ((makePath arguments = makePath direct ↔
              ∀ text raw index, name = .text text raw → ¬ EmptyAt point? values index) ∧
            ∀ text raw index, name = .text text raw → EmptyAt point? values index →
              makePath arguments = .error (.entry "path" text index "pt" .nil)) ∧
          (makeOperation arguments = makeOperation direct ↔
              ∀ text raw index, name = .text text raw → ¬ EmptyAt path? values index) ∧
            ∀ text raw index, name = .text text raw → EmptyAt path? values index →
              makeOperation arguments = .error (.entry "operation" text index "path" .nil) := by
  refine ⟨groups.filter_flatten, groups.flatten_eq_iff, ?_⟩
  intro name arguments direct given givenDirect same
  have path := gathers_makePath.grouped groups given givenDirect same
  have operation := gathers_makeOperation.grouped groups given givenDirect same
  refine ⟨fun none => ⟨path.1.mpr ?_, operation.1.mpr ?_⟩, path, operation⟩
  · exact fun _ _ _ _ emptyAt => none (groups.holdEmpty_of_emptyAt emptyAt)
  · exact fun _ _ _ _ emptyAt => none (groups.holdEmpty_of_emptyAt emptyAt)

/-- A point where paths start. -/
def corner : Point := .make Vec.zero Vec.zAxis

/-- Points in lists and arrays, with an empty array and, at the end, an empty list. -/
def nestedCorners : List Value :=
  [.array [.list (.point corner) [.array []]], .list (.array [.point corner]) [.nil]]

theorem grouped_entries_nestedCorners :
    Groups nestedCorners [.point corner, .point corner] ∧
      (flatten nestedCorners).filter (!·.isNil) = [.point corner, .point corner] ∧
      makePath ⟨.text "p" false :: nestedCorners, []⟩ = .error (.entry "path" "p" 2 "pt" .nil) := by
  have plain : IsEntry (.point corner) := trivial
  have groups : Groups nestedCorners [.point corner, .point corner] := by
    have first : Groups [.list (.point corner) [.array []]] [.point corner] :=
      .list (.entry plain (.array .done .done)) .done
    have second : Groups [.array [.point corner], .nil] [.point corner] :=
      .array (.entry plain .done) (.list .done .done)
    exact .array first (.list second .done)
  obtain ⟨left, _, made⟩ := grouped_entries groups
  obtain ⟨_, ⟨_, stopped⟩, _⟩ := made (.text "p" false) ⟨.text "p" false :: nestedCorners, []⟩
    ⟨[.text "p" false, .point corner, .point corner], []⟩ rfl rfl fun _ => rfl
  have emptyAt : EmptyAt point? nestedCorners 2 :=
    ⟨[.point corner, .point corner], [], rfl, rfl, by simp [point?]⟩
  exact ⟨groups, left, stopped "p" false 2 rfl emptyAt⟩

/-- An empty list in front of a point makes a path fail that the point alone does not. -/
theorem emptyList_inTheWay :
    Groups [.nil, .point corner] [.point corner] ∧ flatten [.nil, .point corner] ≠ [.point corner] ∧
      makePath ⟨[.text "p" false, .nil, .point corner], []⟩ = .error (.entry "path" "p" 0 "pt" .nil) ∧
      makePath ⟨[.text "p" false, .point corner], []⟩ =
        .ok (.path { name := "p", points := [corner] }) := by
  refine ⟨.list .done (.entry trivial .done), ?_, rfl, rfl⟩
  intro same
  cases same

end Kerf.Job
