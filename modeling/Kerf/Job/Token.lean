import Kerf.Decimal.Numeral
import Kerf.Decimal.Power
import Kerf.Job.Source

/-!
# Tokens of jobs

A job in its readable form is taken apart character by character. What has to be remembered is a
`Lexing`: what the characters are in the middle of, the word so far, and the tokens that are
complete. A word is complete when something follows it, so one at the very end of a job is left out.
-/

set_option autoImplicit false

namespace Kerf.Job

inductive Literal where
  | int (value : Int64)
  /-- A number with a point or an exponent, and whether it was written with an exponent. -/
  | float (value : Float) (scientific : Bool)
  /-- A string, and whether it was written between backquotes. -/
  | text (content : String) (raw : Bool)
  | bool (value : Bool)
  | char (value : Char)
  /-- A comma, which is a value like any other. -/
  | comma

inductive SyntaxError where
  /-- The text ends too early. -/
  | unfinished
  | invalid
  deriving DecidableEq, Repr

inductive Bracket where
  | round
  | square
  | curly
  deriving DecidableEq, Repr

inductive Token where
  | opening (bracket : Bracket)
  | closing (bracket : Bracket)
  | literal (value : Literal)
  /-- A symbol, and whether it stands for itself. -/
  | symbol (name : String) (itself : Bool)
  /-- A mark that puts the expression after it into a form. -/
  | mark (form : String)

/-! ## Numbers -/

def intToken (value : Int) : Except SyntaxError Token :=
  if -(twoTo 63 : Int) ≤ value && value < twoTo 63 then .ok (.literal (.int (Int64.ofInt value)))
  else .error .invalid

def digitOf (base : Nat) (c : Char) : Option Nat :=
  let value :=
    if c.isDigit then some (c.toNat - '0'.toNat)
    else if 'a' ≤ c && c ≤ 'f' then some (c.toNat - 'a'.toNat + 10)
    else if 'A' ≤ c && c ≤ 'F' then some (c.toNat - 'A'.toNat + 10)
    else none
  value.filter (· < base)

/-- The whole number that a non-empty run of digits in a base denotes. -/
def wholeIn (base : Nat) (run : List Char) : Option Nat :=
  if run.isEmpty then none
  else run.foldlM (fun value c => (digitOf base c).map fun digit => base * value + digit) 0

/-- A whole number: decimal with an optional sign, or with the mark of another base. -/
def wholeOf (text : List Char) : Option Int :=
  match text with
  | '-' :: run => (wholeIn 10 run).map fun size => -Int.ofNat size
  | _ =>
      match wholeIn 10 text, text with
      | some size, _ => some (Int.ofNat size)
      | none, '0' :: 'x' :: run => (wholeIn 16 run).map Int.ofNat
      | none, '0' :: 'o' :: run => (wholeIn 8 run).map Int.ofNat
      | none, '0' :: 'b' :: run => (wholeIn 2 run).map Int.ofNat
      | none, _ => none

/-- The exponent of a number, read from its mark on, and whether there is one. -/
def exponentOf : List Char → Option (Int × Bool)
  | [] => some (0, false)
  | mark :: tail =>
      if mark == 'e' || mark == 'E' then
        let (down, run) :=
          match tail with
          | '-' :: run => (true, run)
          | run => (false, run)
        (wholeIn 10 run).map fun size => (if down then -Int.ofNat size else Int.ofNat size, true)
      else none

/-- A number with a point, an exponent or both. -/
def numeralOf (text : List Char) : Option (Decimal.Numeral × Bool) :=
  let (negative, body) :=
    match text with
    | '-' :: body => (true, body)
    | body => (false, body)
  let whole := body.takeWhile Char.isDigit
  let rest := body.drop whole.length
  let (point, fraction, rest) :=
    match rest with
    | '.' :: tail =>
        let run := tail.takeWhile Char.isDigit
        (true, run, tail.drop run.length)
    | _ => (false, [], rest)
  match exponentOf rest with
  | some (exponent, scientific) =>
      if (whole.isEmpty && fraction.isEmpty) || !(point || scientific) then none
      else some (({ negative, whole, fraction, exponent } : Decimal.Numeral), scientific)
  | none => none

/-- Whether a text ends like a number, with a point and digits or with an exponent. -/
def endsLikeNumber : List Char → Bool
  | [] => false
  | c :: rest =>
      (c == '.' && !rest.isEmpty && rest.all Char.isDigit) ||
        (c.isDigit && (numeralOf (c :: rest)).any (·.2)) || endsLikeNumber rest

/-- Whether a text is a number, or ends like one. -/
def isNumeric (text : List Char) : Bool :=
  (wholeOf text).isSome || (numeralOf text).isSome || endsLikeNumber text

/-! ## Symbols -/

def startsSymbol (c : Char) : Bool :=
  !(c.isDigit || "'#:;\\~@[]\x7b\x7d^|\"()%,&".toList.contains c)

def continuesSymbol (c : Char) : Bool := !"'#:;\\~@[]\x7b\x7d^|\"()%,&*-".toList.contains c

def isSymbol : List Char → Bool
  | [] => false
  | c :: rest => startsSymbol c && rest.all continuesSymbol

/-- Whether a text is a part of a symbol with dots. -/
def isDottedPart : List Char → Bool
  | [] => false
  | c :: rest =>
      !(c.isDigit || "'#:;\\~@[]\x7b\x7d^|\"()%.,".toList.contains c) &&
        rest.all fun c => !"'#:;\\~@[]\x7b\x7d^|\"()%.,*+-".toList.contains c

/-- Splits a text at dots, after a part of it in reverse order. -/
def splitDots (part : List Char) : List Char → List (List Char)
  | [] => [part.reverse]
  | '.' :: rest => part.reverse :: splitDots [] rest
  | c :: rest => splitDots (c :: part) rest

/-- Whether a text is a symbol with dots: a single dot, or parts with dots between them or before
each of them. -/
def isDotted (text : List Char) : Bool :=
  text == ['.'] ||
    match splitDots [] text with
    | [] => false
    | [] :: parts => !parts.isEmpty && parts.all isDottedPart
    | first :: parts => !parts.isEmpty && isDottedPart first && parts.all isDottedPart

def doubleSigns : List String :=
  ["++", "--", "+=", "-=", "==", ":=", "<=", ">=", "<-", "->", "*=", "/=", "**", "!=", "<!"]

/-- The token of a word. A colon at its end marks a symbol that stands for itself, and is dropped
from everything else. -/
def wordToken (text : List Char) : Except SyntaxError Token :=
  let colon := text.getLast? == some ':'
  let text := if colon then text.dropLast else text
  let word := String.ofList text
  if word == "true" then .ok (.literal (.bool true))
  else if word == "false" then .ok (.literal (.bool false))
  else if word == "NaN" || word == "nan" then .ok (.literal (.float (0.0 / 0.0) false))
  else
    match wholeOf text, numeralOf text with
    | some value, _ => intToken value
    | none, some (numeral, scientific) =>
        match numeral.value? with
        | some value => .ok (.literal (.float value scientific))
        | none => .error .invalid
    | none, none =>
        if endsLikeNumber text then .error .invalid
        else if isDotted text then .ok (.symbol word true)
        else if isSymbol text then
          .ok (.symbol word (colon || word.startsWith "$" || word.startsWith "?"))
        else if colon then .ok (.symbol ":" false)
        else .error .invalid

/-! ## Characters -/

/-- What the characters are in the middle of. -/
inductive Mode where
  | code
  /-- A slash, which may start a comment. -/
  | slash
  /-- A colon, which may end a word or start an assignment sign. -/
  | colon
  /-- The first character of a sign. -/
  | sign (first : Char)
  | tilde
  | lineComment
  | blockComment
  /-- An asterisk within a comment. -/
  | blockCommentEnd
  | text
  | textEscape
  | raw
  | char
  | charEscape
  deriving DecidableEq, Repr

/-- How far a text has been taken apart. -/
structure Lexing where
  mode : Mode := .code
  /-- The word so far, in reverse order. -/
  word : List Char := []
  /-- The complete tokens, in reverse order. -/
  tokens : List Token := []

namespace Lexing

def push (lexing : Lexing) (token : Token) : Lexing :=
  { lexing with tokens := token :: lexing.tokens }

/-- Completes the word, if there is one. -/
def complete (lexing : Lexing) : Except SyntaxError Lexing :=
  if lexing.word.isEmpty then .ok lexing
  else (wordToken lexing.word.reverse).map fun token => { lexing with word := [] }.push token

def completeWith (lexing : Lexing) (token : Token) : Except SyntaxError Lexing :=
  lexing.complete.map (·.push token)

/-- Starts something that no word may stand directly before. -/
def start (lexing : Lexing) (next : Lexing) : Except SyntaxError Lexing :=
  if lexing.word.isEmpty then .ok next else .error .invalid

/-- Whether the word is a number up to the mark of its exponent. -/
def atExponent (lexing : Lexing) : Bool :=
  match lexing.word with
  | mark :: before => (mark == 'e' || mark == 'E') && isNumeric before.reverse
  | [] => false

def stepCode (lexing : Lexing) (c : Char) : Except SyntaxError Lexing :=
  if ['*', '+', '-', '<', '>', '=', '!'].contains c then
    if lexing.atExponent then .ok { lexing with word := c :: lexing.word }
    else lexing.complete.map fun done => { done with mode := .sign c }
  else
    match c with
    | '/' => .ok { lexing with mode := .slash }
    | ':' => .ok { lexing with mode := .colon }
    | '\x60' => lexing.start { lexing with mode := .raw }
    | '"' => lexing.start { lexing with mode := .text }
    | '\'' => lexing.start { lexing with mode := .char }
    | '%' => lexing.start (lexing.push (.mark "quote"))
    | '^' => lexing.start (lexing.push (.mark "syntaxQuote"))
    | '~' => lexing.start { lexing with mode := .tilde }
    | ',' => lexing.completeWith (.literal .comma)
    | '&' => lexing.completeWith (.symbol "&" false)
    | '(' => lexing.completeWith (.opening .round)
    | ')' => lexing.completeWith (.closing .round)
    | '[' => lexing.completeWith (.opening .square)
    | ']' => lexing.completeWith (.closing .square)
    | '\x7b' => lexing.completeWith (.opening .curly)
    | '\x7d' => lexing.completeWith (.closing .curly)
    | ' ' | '\t' | '\r' | '\n' => lexing.complete
    | c => .ok { lexing with word := c :: lexing.word }

def unescape : Char → Option Char
  | 'n' => some '\n'
  | 'r' => some '\r'
  | 'a' => some '\x07'
  | 't' => some '\t'
  | '\\' => some '\\'
  | '"' => some '"'
  | '\'' => some '\''
  | '#' => some '#'
  | _ => none

def addEscape (lexing : Lexing) (mode : Mode) (c : Char) : Except SyntaxError Lexing :=
  match unescape c with
  | some meant => .ok { lexing with mode, word := meant :: lexing.word }
  | none => .error .invalid

def completeText (lexing : Lexing) (raw : Bool) : Lexing :=
  { lexing with mode := .code, word := [] }.push
    (.literal (.text (String.ofList lexing.word.reverse) raw))

/-- Completes a character literal. Only the first octet of what stands between the quotes counts. -/
def completeChar (lexing : Lexing) : Except SyntaxError Lexing :=
  match (String.ofList lexing.word.reverse).toUTF8.toList with
  | octet :: _ =>
      .ok ({ lexing with mode := .code, word := [] }.push
        (.literal (.char (Char.ofNat octet.toNat))))
  | [] => .error .invalid

/-- A sign that starts with one character and may go on with another. A hyphen before a digit starts
a number. -/
def stepSign (lexing : Lexing) (first c : Char) : Except SyntaxError Lexing :=
  let lexing := { lexing with mode := .code }
  let double := String.ofList [first, c]
  if first == '-' && c.isDigit then .ok { lexing with word := [c, '-'] }
  else if doubleSigns.contains double then .ok (lexing.push (.symbol double false))
  else (lexing.push (.symbol (String.singleton first) false)).stepCode c

def step (lexing : Lexing) (c : Char) : Except SyntaxError Lexing :=
  match lexing.mode with
  | .code => lexing.stepCode c
  | .slash =>
      if c == '/' then lexing.complete.map ({ · with mode := .lineComment })
      else if c == '*' then lexing.complete.map ({ · with mode := .blockComment })
      else do
        let done ← lexing.complete
        done.stepSign '/' c
  | .colon =>
      if c == '=' then { lexing with mode := .code }.completeWith (.symbol ":=" false)
      else do
        let done ← { lexing with mode := .code, word := ':' :: lexing.word }.complete
        done.stepCode c
  | .sign first => lexing.stepSign first c
  | .tilde =>
      if c == '@' then .ok ({ lexing with mode := .code }.push (.mark "unquote-splicing"))
      else .ok ({ lexing with mode := .code, word := [c] }.push (.mark "unquote"))
  | .lineComment => .ok (if c == '\n' then { lexing with mode := .code } else lexing)
  | .blockComment => .ok (if c == '*' then { lexing with mode := .blockCommentEnd } else lexing)
  | .blockCommentEnd =>
      .ok (if c == '/' then { lexing with mode := .code }
        else if c == '*' then lexing else { lexing with mode := .blockComment })
  | .text =>
      .ok (if c == '\\' then { lexing with mode := .textEscape }
        else if c == '"' then lexing.completeText false
        else { lexing with word := c :: lexing.word })
  | .textEscape => lexing.addEscape .text c
  | .raw =>
      .ok (if c == '\x60' then lexing.completeText true
        else { lexing with word := c :: lexing.word })
  | .char =>
      if c == '\\' then .ok { lexing with mode := .charEscape }
      else if c == '\'' then lexing.completeChar
      else .ok { lexing with word := c :: lexing.word }
  | .charEscape => lexing.addEscape .char c

/-- Whether a text must not end here. -/
def isOpen (lexing : Lexing) : Bool :=
  lexing.mode == .raw || lexing.mode == .blockComment || lexing.mode == .blockCommentEnd

end Lexing

def lex (text : List Char) : Except SyntaxError Lexing := text.foldlM Lexing.step {}

end Kerf.Job
