import Kerf.Decimal.Layout
import Kerf.Decimal.Power
import Kerf.Text.Quoted

/-!
# Number templates

A template is text with directives that stand for one whole number, such as `T%d M06`. A directive
is a percent sign, flags, a width, a precision, an optional argument index in brackets and a verb.
The number is argument one; every directive takes the next argument unless it gives an index. A
directive that cannot be followed leaves a marker that starts with `%!`.
-/

set_option autoImplicit false

namespace Kerf.Dialect.Template

/-! ## Reading templates -/

structure Flags where
  alternate : Bool := false
  zeros : Bool := false
  plus : Bool := false
  left : Bool := false
  blank : Bool := false
  deriving DecidableEq, Repr

/-- An argument index in brackets, or an index that does not parse. -/
inductive Index where
  | argument (number : Nat)
  | malformed
  deriving DecidableEq, Repr

inductive Size where
  | count (value : Nat)
  | ofArgument
  deriving DecidableEq, Repr

structure Directive where
  flags : Flags
  widthIndex : Option Index
  width : Option Size
  precisionIndex : Option Index
  precision : Option Size
  verbIndex : Option Index
  /-- Nothing when the template ends before the verb. -/
  verb : Option Char
  deriving DecidableEq, Repr

/-- A piece of a template. -/
inductive Piece where
  | literal (c : Char)
  | directive (directive : Directive)
  deriving DecidableEq, Repr

def readFlags (flags : Flags) : List Char → Flags × List Char
  | '#' :: rest => readFlags { flags with alternate := true } rest
  | '0' :: rest => readFlags { flags with zeros := true } rest
  | '+' :: rest => readFlags { flags with plus := true } rest
  | '-' :: rest => readFlags { flags with left := true } rest
  | ' ' :: rest => readFlags { flags with blank := true } rest
  | rest => (flags, rest)

/-- Sizes far beyond this are refused. -/
def sizeLimit : Nat := 1000000

/-- The whole number that a non-empty run of digits denotes. It may not pass the limit before its
last digit. -/
def numberOf (text : List Char) : Option Nat :=
  if text.isEmpty || !text.all Char.isDigit then none
  else
    let value (run : List Char) := run.foldl (fun value digit => 10 * value + (digit.toNat - 48)) 0
    if sizeLimit < value text.dropLast then none else some (value text)

/-- Reads an index in brackets. Without a closing bracket, or with nothing but one left, only the
opening bracket is taken. -/
def readIndex (text : List Char) : Option Index × List Char :=
  match text with
  | '[' :: rest =>
      let inner := rest.takeWhile (· != ']')
      match rest.drop inner.length with
      | _ :: after =>
          if inner.isEmpty && after.isEmpty then (some .malformed, rest)
          else
            (some (match numberOf inner with
              | some number => .argument number
              | none => .malformed), after)
      | [] => (some .malformed, rest)
  | _ => (none, text)

/-- Whether an index is complete, so that no second one is read right after it. -/
def isComplete : Option Index → Bool
  | some (.argument _) => true
  | _ => false

/-- Reads a size. One beyond the limit swallows the rest of the template. -/
def readSize (text : List Char) : Option Size × List Char :=
  match text with
  | '*' :: rest => (some .ofArgument, rest)
  | _ =>
      let run := text.takeWhile Char.isDigit
      match numberOf run with
      | some value => (some (.count value), text.drop run.length)
      | none => (none, if run.isEmpty then text else [])

def readDirective (text : List Char) : Directive × List Char :=
  let (flags, text) := readFlags {} text
  let (widthIndex, text) := readIndex text
  let (width, text) := readSize text
  let (precisionIndex, precision, text) :=
    match text with
    | '.' :: rest =>
        let (index, rest) := readIndex rest
        let (size, rest) := readSize rest
        (index, some (size.getD (.count 0)), rest)
    | _ => (none, none, text)
  let afterIndex :=
    if precision.isSome then isComplete precisionIndex && precision != some .ofArgument
    else isComplete widthIndex && width != some .ofArgument
  let (verbIndex, text) := if afterIndex then (none, text) else readIndex text
  match text with
  | verb :: rest =>
      ({ flags, widthIndex, width, precisionIndex, precision, verbIndex, verb := some verb }, rest)
  | [] =>
      ({ flags, widthIndex, width, precisionIndex, precision, verbIndex, verb := none }, [])

def readPieces : Nat → List Char → List Piece
  | 0, _ => []
  | _ + 1, [] => []
  | count + 1, '%' :: rest =>
      let (directive, rest) := readDirective rest
      .directive directive :: readPieces count rest
  | count + 1, c :: rest => .literal c :: readPieces count rest

/-- The pieces of a template. Every piece takes at least one character. -/
def pieces (template : List Char) : List Piece := readPieces template.length template

/-! ## Writing numbers -/

structure Layout where
  flags : Flags
  width : Option Nat
  precision : Option Nat

def Layout.padWith (layout : Layout) (filler : Char) (text : List Char) : List Char :=
  let fill := List.replicate (layout.width.getD 0 - text.length) filler
  if layout.flags.left then text ++ fill else fill ++ text

/-- Pads a text with blanks, or with zeros on the left if the layout asks so. -/
def Layout.pad (layout : Layout) (text : List Char) : List Char :=
  layout.padWith (if layout.flags.zeros && !layout.flags.left then '0' else ' ') text

def baseDigits (base n : Nat) (upper : Bool) : List Char :=
  let text := Nat.toDigits base n
  if upper then text.map Char.toUpper else text

def Layout.number (layout : Layout) (n : Int) (base : Nat) (upper octal : Bool) : List Char :=
  if layout.precision == some 0 && n == 0 then List.replicate (layout.width.getD 0) ' '
  else
    let hasSign := n < 0 || layout.flags.plus || layout.flags.blank
    let least :=
      match layout.precision with
      | some precision => precision
      | none =>
          if layout.flags.zeros && !layout.flags.left then
            layout.width.getD 0 - (if hasSign then 1 else 0)
          else 0
    let plain := baseDigits base n.natAbs upper
    let body := List.replicate (least - plain.length) '0' ++ plain
    let marked :=
      if !layout.flags.alternate then body
      else if base = 2 then '0' :: 'b' :: body
      else if base = 8 then if body.head? == some '0' then body else '0' :: body
      else if base = 16 then '0' :: (if upper then 'X' else 'x') :: body
      else body
    let marked := if octal then '0' :: 'o' :: marked else marked
    let sign :=
      if n < 0 then ['-'] else if layout.flags.plus then ['+']
      else if layout.flags.blank then [' '] else []
    layout.padWith ' ' (sign ++ marked)

def charOf (n : Int) : Char :=
  if 0 ≤ n && n.toNat.isValidChar then Char.ofNat n.toNat else Char.ofNat 0xfffd

/-- Writes a character between single quotes; with a plus sign, in the letters of ASCII only. -/
def Layout.quote (layout : Layout) (c : Char) : List Char :=
  let inner :=
    if layout.flags.plus && 0x80 ≤ c.toNat then Text.escapedChar c else Text.charBetween '\'' c
  layout.pad ('\'' :: inner ++ ['\''])

/-- Writes the code of a character, a negative number as the 64 bits it is kept in. The alternate
form adds the character, if it can be printed. -/
def Layout.codePoint (layout : Layout) (n : Int) : List Char :=
  let code := if n < 0 then (Int.ofNat (twoTo 64) + n).toNat else n.toNat
  let shown :=
    if layout.flags.alternate && code.isValidChar && Text.isPrintable (Char.ofNat code) then
      [' ', '\'', Char.ofNat code, '\'']
    else []
  layout.padWith ' '
    ('U' :: '+' :: (Text.hexText (max 4 (layout.precision.getD 4)) code).map Char.toUpper ++ shown)

/-- A layout without the signs that only change how structures are written. -/
def Layout.plainly (layout : Layout) : Layout :=
  { layout with flags := { layout.flags with plus := false, alternate := false } }

/-- The marker of a verb that does not fit. -/
def Layout.unfit (layout : Layout) (n : Int) (verb : Char) : List Char :=
  "%!".toList ++ verb :: "(int=".toList ++ layout.number n 10 false false ++ [')']

def Layout.verb (layout : Layout) (n : Int) (verb : Char) : List Char :=
  match verb with
  | 'd' => layout.number n 10 false false
  | 'v' => layout.plainly.number n 10 false false
  | 'b' => layout.number n 2 false false
  | 'o' => layout.number n 8 false false
  | 'O' => layout.number n 8 false true
  | 'x' => layout.number n 16 false false
  | 'X' => layout.number n 16 true false
  | 'c' => layout.pad [charOf n]
  | 'q' => layout.quote (charOf n)
  | 'U' => layout.codePoint n
  | 'T' => layout.pad ("int".toList.take (layout.precision.getD 3))
  | 'w' => layout.plainly.unfit n 'w'
  | other => layout.unfit n other

/-! ## Filling templates -/

/-- What has been used of the arguments. -/
structure Progress where
  /-- The number of the next argument, counted from zero. -/
  next : Nat := 0
  /-- Whether some directive gave an index. -/
  indexed : Bool := false

/-- Follows an index, and says whether it names the number. -/
def Progress.follow (progress : Progress) : Option Index → Progress × Bool
  | none => (progress, true)
  | some (.argument 1) => ({ next := 0, indexed := true }, true)
  | some _ => ({ progress with indexed := true }, false)

/-- A size, taking the number for it when the directive asks so; nothing when there is none left or
it is too large. -/
def Progress.size (progress : Progress) (n : Int) : Size → Progress × Option Int
  | .count value => (progress, some (Int.ofNat value))
  | .ofArgument =>
      if progress.next = 0 then
        ({ progress with next := 1 }, if n.natAbs ≤ sizeLimit then some n else none)
      else (progress, none)

/-- The width of a directive, with a marker for one that cannot be had. -/
def Directive.widthFrom (directive : Directive) (n : Int) (progress : Progress) :
    Progress × Option Int × List Char :=
  match directive.width with
  | none => (progress, none, [])
  | some size =>
      match progress.size n size with
      | (progress, some value) => (progress, some value, [])
      | (progress, none) => (progress, none, "%!(BADWIDTH)".toList)

/-- The precision of a directive, with a marker for one that cannot be had. -/
def Directive.precisionFrom (directive : Directive) (n : Int) (progress : Progress) :
    Progress × Option Nat × List Char :=
  match directive.precision with
  | none => (progress, none, [])
  | some size =>
      match progress.size n size with
      | (progress, some value) =>
          if value < 0 then (progress, none, "%!(BADPREC)".toList)
          else (progress, some value.toNat, [])
      | (progress, none) => (progress, none, "%!(BADPREC)".toList)

def Directive.fill (directive : Directive) (n : Int) (progress : Progress) :
    Progress × List Char :=
  let (progress, goodWidth) := progress.follow directive.widthIndex
  let (progress, width, widthMark) := directive.widthFrom n progress
  let fromArgument := directive.width == some .ofArgument
  let misplaced := isComplete directive.widthIndex &&
    ((directive.width.isSome && !fromArgument) || (directive.precision.isSome && !fromArgument))
  let flags := directive.flags
  let flags := if width.any (· < 0) then { flags with left := true, zeros := false } else flags
  let (progress, goodPrecision) := progress.follow directive.precisionIndex
  let (progress, precision, precisionMark) := directive.precisionFrom n progress
  let (progress, goodVerb) := progress.follow directive.verbIndex
  let good := goodWidth && goodPrecision && goodVerb && !misplaced
  let marks := widthMark ++ precisionMark
  match directive.verb with
  | none => (progress, marks ++ "%!(NOVERB)".toList)
  | some '%' => (progress, marks ++ ['%'])
  | some verb =>
      if !good then (progress, marks ++ "%!".toList ++ verb :: "(BADINDEX)".toList)
      else if progress.next ≠ 0 then (progress, marks ++ "%!".toList ++ verb :: "(MISSING)".toList)
      else
        let layout : Layout := { flags, width := width.map Int.natAbs, precision }
        ({ progress with next := 1 }, marks ++ layout.verb n verb)

def fillPieces (n : Int) (progress : Progress) : List Piece → Progress × List Char
  | [] => (progress, [])
  | .literal c :: rest =>
      let (progress, text) := fillPieces n progress rest
      (progress, c :: text)
  | .directive directive :: rest =>
      let (progress, here) := directive.fill n progress
      let (progress, text) := fillPieces n progress rest
      (progress, here ++ text)

/-- A template with a number in place of its directives. A number that no directive takes is
reported at the end. -/
def fill (template : String) (n : Int) : String :=
  let (progress, text) := fillPieces n {} (pieces template.toList)
  let extra :=
    if progress.next = 0 && !progress.indexed then
      "%!(EXTRA int=".toList ++ (Layout.mk {} none none).number n 10 false false ++ [')']
    else []
  String.ofList (text ++ extra)

end Kerf.Dialect.Template
