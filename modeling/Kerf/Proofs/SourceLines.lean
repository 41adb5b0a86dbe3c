import Kerf.Job.Source
import Mathlib.Data.List.Basic
import Mathlib.Data.List.TakeWhile

/-!
# The lines of a job source

A source is a row of pieces: literals, comments, keywords, hyphens of names, and single characters. A
piece is chosen by the character before it and what follows, it takes at least one character, and what is
written for it has the line ends of the piece itself. Literals are written as they are.

A line end outside of literals starts over. No piece goes on behind it, and what follows is scanned as if
the source began there.

Main statement: `readable_keepsLines`.
-/

set_option autoImplicit false

namespace Kerf.Job

/-! ## Pieces of a source -/

/-- Whether a text can stand between quotation marks. A backslash takes the character after it along. -/
inductive Quotable : List Char → Prop where
  | nil : Quotable []
  | plain {c : Char} {body : List Char} :
      c ≠ '"' → c ≠ '\\' → Quotable body → Quotable (c :: body)
  | escaped {c : Char} {body : List Char} : Quotable body → Quotable ('\\' :: c :: body)

inductive Piece where
  | character (c : Char)
  /-- A hyphen within a name. -/
  | hyphen
  | keyword (name : List Char)
  /-- A comment with the number of its semicolons after the first. -/
  | comment (marks : Nat) (body : List Char)
  /-- A literal with its delimiters. -/
  | literal (content : List Char)
  /-- A literal that the source ends in. -/
  | openLiteral (content : List Char)

namespace Piece

def source : Piece → List Char
  | .character c => [c]
  | .hyphen => ['-']
  | .keyword name => ':' :: name
  | .comment marks body => List.replicate (marks + 1) ';' ++ body
  | .literal content | .openLiteral content => content

def written : Piece → List Char
  | .character c => [c]
  | .hyphen => ['_']
  | .keyword name => '"' :: keywordMark.toList ++ name ++ ['"']
  | .comment _ body => '/' :: '/' :: body
  | .literal content | .openLiteral content => content

/-- Whether a literal is closed: by the first quotation mark that no backslash takes along, or by the
first backquote. -/
def IsClosed (content : List Char) : Prop :=
  (∃ body, Quotable body ∧ content = '"' :: body ++ ['"']) ∨
    ∃ body, '\x60' ∉ body ∧ content = '\x60' :: body ++ ['\x60']

/-- Whether a literal has no end, be it because a backslash has nothing to take along. -/
def IsOpen (content : List Char) : Prop :=
  (∃ body, Quotable body ∧ (content = '"' :: body ∨ content = '"' :: body ++ ['\\'])) ∨
    ∃ body, '\x60' ∉ body ∧ content = '\x60' :: body

/-- Whether a piece is the next one, directly after a character of a name or not and before a rest. -/
def Fits (afterName : Bool) (rest : List Char) : Piece → Prop
  | .character c =>
      c ∉ ['"', '\x60', ';'] ∧
        (c = ':' ∨ c = '-' ∧ afterName = true → ∀ d ∈ rest.head?, isLetter d = false)
  | .hyphen => afterName = true ∧ ∃ d ∈ rest.head?, isLetter d = true
  | .keyword name =>
      (∃ d ∈ name.head?, isLetter d = true) ∧ (∀ d ∈ name, isKeywordChar d = true) ∧
        ∀ d ∈ rest.head?, isKeywordChar d = false
  | .comment _ body => '\n' ∉ body ∧ body.head? ≠ some ';' ∧ ∀ c ∈ rest.head?, c = '\n'
  | .literal content => IsClosed content
  | .openLiteral content => IsOpen content ∧ rest = []

/-- Whether the last character of a piece can stand before the hyphen of a name. -/
def endsName (piece : Piece) : Bool := piece.source.getLast?.any isNameChar

/-- Whether a piece is a literal, closed or not. -/
def IsLiteral : Piece → Prop
  | .literal _ | .openLiteral _ => True
  | _ => False

private theorem written_of_isLiteral {piece : Piece} (literal : piece.IsLiteral) :
    piece.written = piece.source := by
  cases piece <;> first | rfl | exact literal.elim

private theorem count_written (piece : Piece) :
    piece.written.count '\n' = piece.source.count '\n' := by
  cases piece with
  | keyword name =>
      have mark : keywordMark.toList.count '\n' = 0 := by decide
      simp [written, source, mark]
  | comment marks body => simp [written, source, List.count_replicate]
  | _ => simp [written, source]

end Piece

/-- How a source divides into pieces, directly after a character of a name or not. -/
inductive Pieces : Bool → List Char → List Piece → Prop where
  | done {afterName : Bool} : Pieces afterName [] []
  | next {afterName : Bool} {piece : Piece} {rest : List Char} {pieces : List Piece} :
      piece.Fits afterName rest → Pieces piece.endsName rest pieces →
      Pieces afterName (piece.source ++ rest) (piece :: pieces)

/-! ## What a scan does with a text -/

namespace Scan

/-- What the scan of a text ends in. -/
def after (scan : Scan) (source : List Char) : Scan :=
  source.foldl (fun scan c => (scan.step c).1) scan

/-- Whether scanning a text before a rest writes something and goes on as from another state, also as to
whether the end is inside of a literal. -/
structure Reaches (scan : Scan) (text out : List Char) (next : Scan) (rest : List Char) : Prop where
  run_eq : scan.run (text ++ rest) = out ++ next.run rest
  inLiteral_eq : (scan.after (text ++ rest)).inLiteral = (next.after rest).inLiteral

namespace Reaches

variable {scan next last : Scan} {c : Char} {text text' out out' rest : List Char}

theorem refl : Reaches scan [] [] scan rest := ⟨rfl, rfl⟩

theorem trans (first : Reaches scan text out next (text' ++ rest))
    (second : Reaches next text' out' last rest) :
    Reaches scan (text ++ text') (out ++ out') last rest := by
  constructor
  · rw [List.append_assoc, first.run_eq, second.run_eq, List.append_assoc]
  · rw [List.append_assoc, first.inLiteral_eq, second.inLiteral_eq]

theorem one (stepped : scan.step c = (next, out)) : Reaches scan [c] out next rest := by
  constructor
  · change (scan.step c).2 ++ (scan.step c).1.run rest = _
    rw [stepped]
  · change ((scan.step c).1.after rest).inLiteral = _
    rw [stepped]

theorem copyOne (stepped : scan.step c = (next, [c])) (later : Reaches next text out last rest) :
    Reaches scan (c :: text) (c :: out) last rest :=
  (one stepped).trans later

theorem skipOne (stepped : scan.step c = (next, [])) (later : Reaches next text out last rest) :
    Reaches scan (c :: text) out last rest :=
  (one stepped).trans later

/-- A text whose every character is copied. -/
theorem copy (copied : ∀ c ∈ text, scan.step c = (scan, [c])) : Reaches scan text text scan rest := by
  induction text with
  | nil => exact refl
  | cons c text ih =>
      exact copyOne (copied c List.mem_cons_self)
        (ih fun d inside => copied d (List.mem_cons_of_mem c inside))

/-- A state that is left for code, with something written before it. -/
theorem settle {afterName : Bool} (ended : rest = [] → scan.rest = out ∧ scan.inLiteral = false)
    (stepped : ∀ c ∈ rest.head?, scan.step c = writing out (stepCode afterName c)) :
    Reaches scan [] out (.code afterName) rest := by
  cases rest with
  | nil =>
      obtain ⟨written, outside⟩ := ended rfl
      exact ⟨written.trans (List.append_nil _).symm, outside⟩
  | cons c rest =>
      have same := stepped c rfl
      constructor
      · change (scan.step c).2 ++ (scan.step c).1.run rest = out ++ (_ ++ _)
        rw [same, writing, List.append_assoc]
        rfl
      · change ((scan.step c).1.after rest).inLiteral = _
        rw [same]
        rfl

end Reaches

variable {body content rest : List Char} {afterName : Bool}

theorem reaches_quotable (quotable : Quotable body) : Reaches .text body body .text rest := by
  induction quotable with
  | nil => exact .refl
  | @plain c body noQuote noSlash _ ih =>
      have stepped : step .text c = (.text, [c]) := by simp [step, noQuote, noSlash]
      exact .copyOne stepped ih
  | @escaped c body _ ih =>
      have taken : step .escape c = (.text, [c]) := rfl
      exact .copyOne rfl (.copyOne taken ih)

theorem reaches_raw (unclosed : '\x60' ∉ body) : Reaches .raw body body .raw rest := by
  refine .copy fun c inside => ?_
  have noEnd : c ≠ '\x60' := fun same => unclosed (same ▸ inside)
  simp [step, noEnd]

private theorem reaches_closed (closed : Piece.IsClosed content) :
    Reaches (.code afterName) content content (.code false) rest := by
  rcases closed with ⟨body, quotable, rfl⟩ | ⟨body, unclosed, rfl⟩
  · have ended : Reaches .text ['"'] ['"'] (.code false) rest := .one rfl
    exact .copyOne rfl ((reaches_quotable quotable).trans ended)
  · have ended : Reaches .raw ['\x60'] ['\x60'] (.code false) rest := .one rfl
    exact .copyOne rfl ((reaches_raw unclosed).trans ended)

private theorem reaches_open (unclosed : Piece.IsOpen content) :
    ∃ next : Scan, next.inLiteral = true ∧ next.rest = [] ∧
      Reaches (.code afterName) content content next [] := by
  rcases unclosed with ⟨body, quotable, rfl | rfl⟩ | ⟨body, unclosed, rfl⟩
  · exact ⟨.text, rfl, rfl, .copyOne rfl (reaches_quotable quotable)⟩
  · have slash : Reaches .text ['\\'] ['\\'] .escape [] := .one rfl
    exact ⟨.escape, rfl, rfl, .copyOne rfl ((reaches_quotable quotable).trans slash)⟩
  · exact ⟨.raw, rfl, rfl, .copyOne rfl (reaches_raw unclosed)⟩

private theorem reaches_semicolons (marks : Nat) :
    Reaches .semicolons (List.replicate marks ';') [] .semicolons rest := by
  induction marks with
  | zero => exact .refl
  | succ marks ih => exact .skipOne rfl ih

theorem reaches_commentEnd {scan : Scan} (commented : scan = .semicolons ∨ scan = .comment)
    (ended : ∀ c ∈ rest.head?, c = '\n') : Reaches scan [] [] (.code afterName) rest := by
  have broken : ∀ c ∈ rest.head?, scan.step c = writing [] (stepCode afterName c) := by
    intro c first
    rw [ended c first]
    rcases commented with rfl | rfl <;> rfl
  rcases commented with rfl | rfl <;> exact .settle (fun _ => ⟨rfl, rfl⟩) broken

private theorem reaches_comment (unbroken : '\n' ∉ body) (unmarked : body.head? ≠ some ';')
    (ended : ∀ c ∈ rest.head?, c = '\n') :
    Reaches .semicolons body body (.code afterName) rest := by
  cases body with
  | nil => exact reaches_commentEnd (.inl rfl) ended
  | cons c body =>
      have noBreak : c ≠ '\n' := fun same => unbroken (same ▸ List.mem_cons_self)
      have noMark : c ≠ ';' := fun same => unmarked (same ▸ rfl)
      have stepped : step .semicolons c = (.comment, [c]) := by simp [step, noBreak, noMark]
      have copied : Reaches .comment body body .comment rest := by
        refine .copy fun d inside => ?_
        have noBreak : d ≠ '\n' := fun same => unbroken (same ▸ List.mem_cons_of_mem c inside)
        simp [step, noBreak]
      have left : Reaches .comment [] [] (.code afterName) rest := reaches_commentEnd (.inr rfl) ended
      have whole := copied.trans left
      rw [List.append_nil] at whole
      exact .copyOne stepped whole

theorem stepCode_of_plain {c : Char} (plain : c ∉ ['"', '\x60', ';']) (noColon : c ≠ ':')
    (noHyphen : c = '-' → afterName = false) :
    stepCode afterName c = (.code (isNameChar c), [c]) := by
  simp only [List.mem_cons, List.not_mem_nil, or_false, not_or] at plain
  have free : (decide (c = '-') && afterName) = false := by
    by_cases same : c = '-'
    · simp [noHyphen same]
    · simp [same]
  simp [stepCode, plain, noColon, free]

private theorem stepCode_of_isLetter {c : Char} (letter : isLetter c = true) :
    stepCode false c = (.code true, [c]) := by
  have name : isNameChar c = true := by simp [isNameChar, letter]
  rw [stepCode_of_plain _ _ fun _ => rfl, name]
  · simp only [List.mem_cons, List.not_mem_nil, or_false]
    rintro (rfl | rfl | rfl) <;> revert letter <;> decide
  · rintro rfl
    revert letter
    decide

theorem reaches_mark {scan : Scan} (pending : scan = .colon ∨ scan = .hyphen)
    (unnamed : ∀ c ∈ rest.head?, isLetter c = false) :
    Reaches scan [] scan.rest (.code false) rest := by
  refine .settle (fun _ => ⟨rfl, ?_⟩) fun c first => ?_
  · rcases pending with rfl | rfl <;> rfl
  · rcases pending with rfl | rfl <;> simp [step, unnamed c first, Scan.rest]

private theorem reaches_underscore (named : ∃ c ∈ rest.head?, isLetter c = true) :
    Reaches .hyphen [] ['_'] (.code false) rest := by
  obtain ⟨c, first, letter⟩ := named
  refine .settle (fun empty => ?_) fun d first' => ?_
  · rw [empty] at first
    cases first
  · cases Option.mem_unique first first'
    rw [stepCode_of_isLetter letter]
    simp [step, letter, writing]

private theorem reaches_keyword {name : List Char} (named : ∃ c ∈ name.head?, isLetter c = true)
    (all : ∀ c ∈ name, isKeywordChar c = true) (ended : ∀ c ∈ rest.head?, isKeywordChar c = false) :
    Reaches .colon name ('"' :: keywordMark.toList ++ name ++ ['"']) (.code afterName) rest := by
  cases name with
  | nil => simp at named
  | cons c name =>
      have letter : isLetter c = true := by simpa using named
      have started : step .colon c = (.keyword, '"' :: keywordMark.toList ++ [c]) := by
        simp [step, letter]
      have copied : Reaches .keyword name name .keyword rest := by
        refine .copy fun d inside => ?_
        simp [step, all d (List.mem_cons_of_mem c inside)]
      have left : Reaches .keyword [] ['"'] (.code afterName) rest := by
        refine .settle (fun _ => ⟨rfl, rfl⟩) fun d first => ?_
        have outside := ended d first
        have noHyphen : d ≠ '-' := by
          rintro rfl
          revert outside
          decide
        simp [step, outside, stepCode, noHyphen]
      have whole := (Reaches.one started).trans (copied.trans left)
      simpa using whole

end Scan

namespace Piece

variable {piece : Piece} {afterName : Bool} {rest : List Char}

theorem Fits.reaches (fits : piece.Fits afterName rest)
    (closed : ∀ content, piece ≠ .openLiteral content) :
    Scan.Reaches (.code afterName) piece.source piece.written (.code piece.endsName) rest := by
  cases piece with
  | character c =>
      obtain ⟨plain, unnamed⟩ := fits
      by_cases colon : c = ':'
      · subst colon
        exact .skipOne rfl (Scan.reaches_mark (.inl rfl) (unnamed (.inl rfl)))
      · by_cases hyphen : c = '-' ∧ afterName = true
        · obtain ⟨rfl, rfl⟩ := hyphen
          exact .skipOne rfl (Scan.reaches_mark (.inr rfl) (unnamed (.inr ⟨rfl, rfl⟩)))
        · refine .one (Scan.stepCode_of_plain plain colon fun same => ?_)
          exact Bool.eq_false_iff.mpr fun before => hyphen ⟨same, before⟩
  | hyphen =>
      obtain ⟨rfl, named⟩ := fits
      exact .skipOne rfl (Scan.reaches_underscore named)
  | keyword name =>
      obtain ⟨letter, all, ended⟩ := fits
      exact .skipOne rfl (Scan.reaches_keyword letter all ended)
  | comment marks body =>
      obtain ⟨unbroken, unmarked, ended⟩ := fits
      exact (Scan.Reaches.one rfl).trans
        ((Scan.reaches_semicolons marks).trans (Scan.reaches_comment unbroken unmarked ended))
  | literal content =>
      have ended : endsName (.literal content) = false := by
        rcases fits with ⟨body, _, rfl⟩ | ⟨body, _, rfl⟩ <;>
          rw [endsName, source, List.getLast?_concat] <;> rfl
      rw [ended]
      exact Scan.reaches_closed fits
  | openLiteral content => exact absurd rfl (closed content)

theorem Fits.source_ne_nil (fits : piece.Fits afterName rest) : piece.source ≠ [] := by
  cases piece with
  | literal content =>
      rcases fits with ⟨body, _, rfl⟩ | ⟨body, _, rfl⟩ <;> exact List.cons_ne_nil _ _
  | openLiteral content =>
      rcases fits.1 with ⟨body, _, rfl | rfl⟩ | ⟨body, _, rfl⟩ <;> exact List.cons_ne_nil _ _
  | _ => exact List.cons_ne_nil _ _

end Piece

/-! ## Every source divides into pieces -/

/-- A text behind a quotation mark holds its end, or has none. -/
theorem quotable_or_closed (text : List Char) :
    (∃ body rest, Quotable body ∧ text = body ++ '"' :: rest) ∨
      ∃ body, Quotable body ∧ (text = body ∨ text = body ++ ['\\']) := by
  match text with
  | [] => exact .inr ⟨[], .nil, .inl rfl⟩
  | c :: text =>
      by_cases quote : c = '"'
      · subst quote
        exact .inl ⟨[], text, .nil, rfl⟩
      by_cases slash : c = '\\'
      · subst slash
        match text with
        | [] => exact .inr ⟨[], .nil, .inr rfl⟩
        | d :: text =>
            rcases quotable_or_closed text with
              ⟨body, rest, quotable, rfl⟩ | ⟨body, quotable, rfl | rfl⟩
            · exact .inl ⟨_, rest, .escaped quotable, rfl⟩
            · exact .inr ⟨_, .escaped quotable, .inl rfl⟩
            · exact .inr ⟨_, .escaped quotable, .inr rfl⟩
      rcases quotable_or_closed text with ⟨body, rest, quotable, rfl⟩ | ⟨body, quotable, rfl | rfl⟩
      · exact .inl ⟨_, rest, .plain quote slash quotable, rfl⟩
      · exact .inr ⟨_, .plain quote slash quotable, .inl rfl⟩
      · exact .inr ⟨_, .plain quote slash quotable, .inr rfl⟩

theorem not_of_head?_dropWhile {p : Char → Bool} {text : List Char} :
    ∀ c ∈ (text.dropWhile p).head?, p c = false := by
  intro c first
  have stopped := List.head?_dropWhile_not p text
  rw [Option.mem_def.mp first] at stopped
  exact stopped

private theorem exists_comment (afterName : Bool) (text : List Char) :
    ∃ (piece : Piece) (rest : List Char), ';' :: text = piece.source ++ rest ∧
      piece.Fits afterName rest := by
  let behind := text.dropWhile (· == ';')
  have marks : text.takeWhile (· == ';') = List.replicate (text.takeWhile (· == ';')).length ';' :=
    List.eq_replicate_of_mem fun c inside => by simpa using List.mem_takeWhile_imp inside
  refine ⟨.comment (text.takeWhile (· == ';')).length (behind.takeWhile (· != '\n')),
    behind.dropWhile (· != '\n'), ?_, ?_, ?_, ?_⟩
  · rw [Piece.source, List.replicate_succ, ← marks, List.append_assoc, List.takeWhile_append_dropWhile,
      List.cons_append, List.takeWhile_append_dropWhile]
  · intro inside
    simpa using List.mem_takeWhile_imp inside
  · intro first
    rw [List.head?_takeWhile, Option.filter_eq_some_iff] at first
    simpa using not_of_head?_dropWhile ';' first.1
  · intro c first
    simpa using not_of_head?_dropWhile c first

private theorem exists_keyword (afterName : Bool) {text : List Char}
    (named : ∃ c ∈ text.head?, isLetter c = true) :
    ∃ (piece : Piece) (rest : List Char), ':' :: text = piece.source ++ rest ∧
      piece.Fits afterName rest := by
  obtain ⟨c, first, letter⟩ := named
  refine ⟨.keyword (text.takeWhile isKeywordChar), text.dropWhile isKeywordChar, ?_,
    ⟨c, ?_, letter⟩, fun d inside => List.mem_takeWhile_imp inside, not_of_head?_dropWhile⟩
  · rw [Piece.source, List.cons_append, List.takeWhile_append_dropWhile]
  · rw [Option.mem_def, List.head?_takeWhile, Option.filter_eq_some_iff]
    exact ⟨first, by simp [isKeywordChar, letter]⟩

private theorem exists_piece (afterName : Bool) (c : Char) (text : List Char) :
    ∃ (piece : Piece) (rest : List Char), c :: text = piece.source ++ rest ∧
      piece.Fits afterName rest := by
  by_cases quote : c = '"'
  · subst quote
    rcases quotable_or_closed text with ⟨body, rest, quotable, rfl⟩ | ⟨body, quotable, ended⟩
    · exact ⟨.literal ('"' :: body ++ ['"']), rest, by simp [Piece.source],
        .inl ⟨body, quotable, rfl⟩⟩
    · refine ⟨.openLiteral ('"' :: text), [], by simp [Piece.source], .inl ⟨body, quotable, ?_⟩, rfl⟩
      rcases ended with rfl | rfl
      · exact .inl rfl
      · exact .inr rfl
  by_cases backquote : c = '\x60'
  · subst backquote
    by_cases ended : '\x60' ∈ text
    · obtain ⟨body, rest, rfl, unclosed⟩ := List.eq_append_cons_of_mem ended
      exact ⟨.literal ('\x60' :: body ++ ['\x60']), rest, by simp [Piece.source],
        .inr ⟨body, unclosed, rfl⟩⟩
    · exact ⟨.openLiteral ('\x60' :: text), [], by simp [Piece.source],
        .inr ⟨text, ended, rfl⟩, rfl⟩
  by_cases semicolon : c = ';'
  · subst semicolon
    exact exists_comment afterName text
  by_cases keyword : c = ':' ∧ ∃ d ∈ text.head?, isLetter d = true
  · obtain ⟨rfl, named⟩ := keyword
    exact exists_keyword afterName named
  by_cases hyphen : c = '-' ∧ afterName = true ∧ ∃ d ∈ text.head?, isLetter d = true
  · obtain ⟨rfl, named⟩ := hyphen
    exact ⟨.hyphen, text, rfl, named⟩
  refine ⟨.character c, text, rfl, by simp [quote, backquote, semicolon], ?_⟩
  rintro (colon | ⟨isHyphen, before⟩) d first
  · exact Bool.eq_false_iff.mpr fun letter => keyword ⟨colon, d, first, letter⟩
  · exact Bool.eq_false_iff.mpr fun letter => hyphen ⟨isHyphen, before, d, first, letter⟩

theorem exists_pieces (afterName : Bool) (source : List Char) :
    ∃ pieces, Pieces afterName source pieces := by
  match source with
  | [] => exact ⟨[], .done⟩
  | c :: text =>
      obtain ⟨piece, rest, divided, fits⟩ := exists_piece afterName c text
      obtain ⟨pieces, later⟩ := exists_pieces piece.endsName rest
      exact ⟨piece :: pieces, divided ▸ .next fits later⟩
termination_by source.length
decreasing_by
  have positive := List.length_pos_iff.mpr fits.source_ne_nil
  have lengths := congrArg List.length divided
  rw [List.length_append] at lengths
  omega

/-! ## What is written for the pieces -/

namespace Pieces

variable {afterName : Bool} {source : List Char} {pieces : List Piece}

private theorem of_nil (divided : Pieces afterName [] pieces) : pieces = [] := by
  generalize empty : ([] : List Char) = source at divided
  cases divided with
  | done => rfl
  | next fits _ => exact absurd (List.append_eq_nil_iff.mp empty.symm).1 fits.source_ne_nil

theorem flatMap_source (divided : Pieces afterName source pieces) :
    pieces.flatMap Piece.source = source := by
  induction divided with
  | done => rfl
  | next _ _ ih => rw [List.flatMap_cons, ih]

theorem source_ne_nil (divided : Pieces afterName source pieces) :
    ∀ piece ∈ pieces, piece.source ≠ [] := by
  induction divided with
  | done => simp
  | next fits _ ih => exact List.forall_mem_cons.mpr ⟨fits.source_ne_nil, ih⟩

/-- A scan writes the pieces one after the other, and it ends in a literal just if they do. -/
theorem scanned (divided : Pieces afterName source pieces) :
    Scan.run (.code afterName) source = pieces.flatMap Piece.written ∧
      ((Scan.after (.code afterName) source).inLiteral = true ↔
        ∃ content, pieces.getLast? = some (.openLiteral content)) := by
  induction divided with
  | done => exact ⟨rfl, by simp [Scan.after, Scan.inLiteral]⟩
  | @next afterName piece rest pieces fits later ih =>
      -- An open literal has nothing behind it, and it alone leaves the scan inside of a literal.
      by_cases isOpen : ∃ content, piece = .openLiteral content
      · obtain ⟨content, rfl⟩ := isOpen
        obtain ⟨unclosed, rfl⟩ := fits
        obtain ⟨next, inside, silent, reaches⟩ := Scan.reaches_open unclosed
        rw [later.of_nil]
        refine ⟨?_, iff_of_true ?_ ⟨content, rfl⟩⟩
        · rw [Piece.source, reaches.run_eq, Scan.run, silent]
          rfl
        · rw [Piece.source, reaches.inLiteral_eq]
          exact inside
      · have reaches := fits.reaches fun content same => isOpen ⟨content, same⟩
        refine ⟨?_, ?_⟩
        · rw [reaches.run_eq, ih.1, List.flatMap_cons]
        · rw [reaches.inLiteral_eq, ih.2]
          cases pieces with
          | nil => simpa using fun content same => isOpen ⟨content, same⟩
          | cons second pieces => rw [List.getLast?_cons_cons]

end Pieces

theorem count_flatMap_written (pieces : List Piece) :
    (pieces.flatMap Piece.written).count '\n' = (pieces.flatMap Piece.source).count '\n' := by
  induction pieces with
  | nil => rfl
  | cons piece pieces ih =>
      rw [List.flatMap_cons, List.flatMap_cons, List.count_append, List.count_append,
        piece.count_written, ih]

/-! ## Line ends -/

namespace Scan

private theorem step_newline {scan : Scan} (outside : scan.inLiteral = false) :
    scan.step '\n' = (.code false, scan.rest ++ ['\n']) := by
  cases scan <;> first | rfl | cases outside

/-- A line end outside of literals ends whatever stands before it. -/
theorem run_append_newline {scan : Scan} {before : List Char} (behind : List Char)
    (outside : (scan.after before).inLiteral = false) :
    scan.run (before ++ '\n' :: behind) = scan.run before ++ '\n' :: run (.code false) behind := by
  induction before generalizing scan with
  | nil =>
      change (scan.step '\n').2 ++ (scan.step '\n').1.run behind = _
      have ended : scan.inLiteral = false := outside
      rw [step_newline ended]
      simp [run]
  | cons c before ih =>
      change (scan.step c).2 ++ (scan.step c).1.run (before ++ '\n' :: behind) =
        (scan.step c).2 ++ (scan.step c).1.run before ++ _
      rw [ih outside, List.append_assoc]

end Scan

/-! ## Octets -/

/-- The octets of a text, each as a character of its own. -/
def octets (text : List Char) : List Char :=
  text.flatMap fun c => (String.utf8EncodeChar c).map fun octet => Char.ofNat octet.toNat

theorem octets_append (text text' : List Char) : octets (text ++ text') = octets text ++ octets text' :=
  List.flatMap_append

theorem octets_of_ascii {text : List Char} (ascii : ∀ c ∈ text, c.toNat ≤ 127) :
    octets text = text := by
  have single : ∀ c ∈ text,
      ((String.utf8EncodeChar c).map fun octet => Char.ofNat octet.toNat) = [c] := by
    intro c inside
    have small : c.val.toNat ≤ 127 := ascii c inside
    simp only [String.utf8EncodeChar, small, if_true, List.map_singleton]
    rw [UInt8.toNat_ofNat', Nat.mod_eq_of_lt (by omega)]
    exact congrArg (fun d => [d]) (Char.ofNat_toNat c)
  rw [octets, List.flatMap_congr single, List.flatMap_singleton']

private theorem toNat_utf8EncodeChar {c : Char} (foreign : 127 < c.toNat) :
    ∀ octet ∈ String.utf8EncodeChar c, 127 < octet.toNat := by
  have large : ¬ c.val.toNat ≤ 127 := Nat.not_le.mpr foreign
  simp only [String.utf8EncodeChar, large, if_false]
  split_ifs <;> simp <;> omega

private theorem foreign_octets {c : Char} (foreign : 127 < c.toNat) :
    octets [c] ≠ [] ∧ ∀ d ∈ octets [c], 127 < d.toNat := by
  rw [octets, List.flatMap_singleton]
  constructor
  · exact fun empty => absurd (List.map_eq_nil_iff.mp empty) String.utf8EncodeChar_ne_nil
  · rw [List.forall_mem_map]
    intro octet inside
    have valid : octet.toNat.isValidChar := .inl (octet.toNat_lt.trans (by decide))
    rw [Char.ofNat, dif_pos valid]
    exact toNat_utf8EncodeChar foreign octet inside

namespace Scan

/-- What a scan is in the middle of behind a character that means nothing to it. -/
def settled : Scan → Scan
  | .code _ | .colon | .hyphen | .keyword => .code false
  | .semicolons | .comment => .comment
  | .text | .escape => .text
  | .raw => .raw

theorem step_foreign {c : Char} (foreign : 127 < c.toNat) (scan : Scan) :
    scan.step c = (scan.settled, scan.rest ++ [c]) := by
  have differs (d : Char) (ascii : d.toNat ≤ 127) : c ≠ d := by
    rintro rfl
    omega
  have above (d : Char) (ascii : d.toNat ≤ 127) : ¬ c ≤ d := by
    rw [Char.le_def, UInt32.le_iff_toNat_le]
    exact fun le => absurd (foreign.trans_le le) (Nat.not_lt.mpr ascii)
  have noLetter : isLetter c = false := by simp [isLetter, above]
  have noKeyword : isKeywordChar c = false := by simp [isKeywordChar, noLetter, above, differs]
  have noName : isNameChar c = false := by simp [isNameChar, noLetter, above, differs]
  have code (afterName : Bool) : stepCode afterName c = (.code false, [c]) := by
    simp [stepCode, differs, noName]
  cases scan <;> simp [step, settled, rest, code, writing, noLetter, noKeyword, differs]

private theorem run_foreign {text : List Char} (scan : Scan) (nonempty : text ≠ [])
    (foreign : ∀ c ∈ text, 127 < c.toNat) (behind : List Char) :
    scan.run (text ++ behind) = scan.rest ++ text ++ scan.settled.run behind := by
  induction text generalizing scan with
  | nil => exact absurd rfl nonempty
  | cons c text ih =>
      change (scan.step c).2 ++ (scan.step c).1.run (text ++ behind) = _
      rw [step_foreign (foreign c List.mem_cons_self)]
      cases text with
      | nil => rfl
      | cons d text =>
          rw [ih _ (List.cons_ne_nil d text) fun e inside => foreign e (List.mem_cons_of_mem c inside)]
          cases scan <;> simp [settled, rest]

theorem ascii_stepCode {c : Char} (ascii : c.toNat ≤ 127) (afterName : Bool) :
    ∀ d ∈ (stepCode afterName c).2, d.toNat ≤ 127 := by
  unfold stepCode
  split_ifs <;> simp [ascii]

private theorem ascii_step {c : Char} (ascii : c.toNat ≤ 127) (scan : Scan) :
    ∀ d ∈ (scan.step c).2, d.toNat ≤ 127 := by
  have pending (out : List Char) (known : ∀ d ∈ out, d.toNat ≤ 127) (afterName : Bool) :
      ∀ d ∈ (writing out (stepCode afterName c)).2, d.toNat ≤ 127 :=
    List.forall_mem_append.mpr ⟨known, ascii_stepCode ascii afterName⟩
  cases scan with
  | code afterName => exact ascii_stepCode ascii afterName
  | escape => simpa [step] using ascii
  | colon | hyphen | keyword =>
      simp only [step]
      split_ifs
      · simp [ascii, keywordMark]
      · exact pending _ (by simp) false
  | semicolons | comment | text | raw =>
      simp only [step]
      split_ifs <;> simp [ascii]

theorem ascii_rest (scan : Scan) : ∀ c ∈ scan.rest, c.toNat ≤ 127 := by
  cases scan <;> simp [rest]

/-- A source can be scanned octet by octet. -/
theorem run_octets (scan : Scan) (source : List Char) :
    scan.run (octets source) = octets (scan.run source) := by
  induction source generalizing scan with
  | nil => exact (octets_of_ascii (ascii_rest scan)).symm
  | cons c source ih =>
      have split : octets (c :: source) = octets [c] ++ octets source := octets_append [c] source
      have stepped : scan.run (c :: source) = (scan.step c).2 ++ (scan.step c).1.run source := rfl
      rw [split, stepped, octets_append, ← ih]
      -- The octets of a character beyond the seven-bit ones are beyond them too, and the scan treats
      -- all of these alike.
      rcases Nat.lt_or_ge 127 c.toNat with foreign | ascii
      · obtain ⟨nonempty, foreigners⟩ := foreign_octets foreign
        rw [run_foreign scan nonempty foreigners, step_foreign foreign, octets_append,
          octets_of_ascii (ascii_rest scan)]
      · rw [octets_of_ascii (ascii_step ascii scan), octets_of_ascii (by simpa using ascii)]
        rfl

end Scan

/-! ## The readable form -/

/-- The readable form of a source is written piece by piece. The pieces are not empty and make up the
source, so scanning comes to its end and takes nothing from outside; literals are copied; every piece is
on its line of the source. A line end outside of literals divides the readable form as it divides the
source. All of this holds of characters and, since a text can be scanned octet by octet, of octets. -/
theorem readable_keepsLines (source before behind : List Char) :
    (∃ pieces, Pieces false source pieces) ∧
      (∀ pieces, Pieces false source pieces →
        pieces.flatMap Piece.source = source ∧ (∀ piece ∈ pieces, piece.source ≠ []) ∧
          readable source = pieces.flatMap Piece.written ∧
          (∀ piece ∈ pieces, piece.IsLiteral → piece.written = piece.source) ∧
          (∀ earlier later, pieces = earlier ++ later →
            (earlier.flatMap Piece.written).count '\n' = (earlier.flatMap Piece.source).count '\n') ∧
          ((Scan.after (.code false) source).inLiteral = true ↔
            ∃ content, pieces.getLast? = some (.openLiteral content))) ∧
      (readable source).count '\n' = source.count '\n' ∧
      readable (octets source) = octets (readable source) ∧
      ((Scan.after (.code false) before).inLiteral = false →
        readable (before ++ '\n' :: behind) = readable before ++ '\n' :: readable behind) := by
  refine ⟨exists_pieces false source, fun pieces divided => ?_, ?_, Scan.run_octets _ source,
    Scan.run_append_newline behind⟩
  · obtain ⟨written, ended⟩ := divided.scanned
    exact ⟨divided.flatMap_source, divided.source_ne_nil, written,
      fun piece _ literal => Piece.written_of_isLiteral literal,
      fun earlier _ _ => count_flatMap_written earlier, ended⟩
  · obtain ⟨pieces, divided⟩ := exists_pieces false source
    have written : readable source = _ := divided.scanned.1
    rw [written, count_flatMap_written, divided.flatMap_source]

/-- A keyword ends at its line, and a line can end in a literal that is not closed. -/
theorem readable_keepsLines_acrossLines :
    (Scan.after (.code false) "(box-stock :safe-".toList).inLiteral = false ∧
      readable ("(box-stock :safe-".toList ++ '\n' :: "-2) ;; :a\n\"b-c \\\" :d".toList) =
        "(box_stock \"__kw_safe-\"\n-2) // :a\n\"b-c \\\" :d".toList := by
  have outside : (Scan.after (.code false) "(box-stock :safe-".toList).inLiteral = false := by decide
  obtain ⟨_, _, _, _, divides⟩ := readable_keepsLines [] "(box-stock :safe-".toList
    "-2) ;; :a\n\"b-c \\\" :d".toList
  exact ⟨outside, (divides outside).trans (by decide)⟩

end Kerf.Job
