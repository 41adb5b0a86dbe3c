import Kerf.Job.Token

/-!
# The syntax of jobs

A job is a sequence of expressions: literals, names, arrays in brackets, and calls and definitions
in parentheses. What is read first is data; it becomes an expression when it is to be evaluated.
-/

set_option autoImplicit false

namespace Kerf.Job

/-! ## Data -/

/-- What a job is written in. An empty list stands for nothing. -/
inductive Datum where
  | literal (value : Literal)
  /-- A symbol, and whether it stands for itself. -/
  | symbol (name : String) (itself : Bool)
  | list (items : List Datum)
  | array (items : List Datum)
  deriving Inhabited

/-- Something begun: a bracket with the data inside it so far, the latest first, or a form that waits
for one datum. -/
inductive Frame where
  | bracket (kind : Bracket) (items : List Datum)
  | form (name : String)

/-- The datum of a closed bracket. Commas count for nothing in an array, and braces are the call of a
form on an array. -/
def closed (kind : Bracket) (items : List Datum) : Datum :=
  match kind with
  | .round => .list items
  | .square =>
      .array (items.filter fun item => !(item matches .literal .comma))
  | .curly => .list [.symbol "infix" false, .array items]

/-- Puts a datum into what was begun last, or after the finished ones. -/
def place (datum : Datum) (frames : List Frame) (finished : List Datum) :
    List Frame × List Datum :=
  match frames with
  | [] => ([], datum :: finished)
  | .bracket kind items :: outer => (.bracket kind (datum :: items) :: outer, finished)
  | .form name :: outer => place (.list [.symbol name false, datum]) outer finished

def readTokens (frames : List Frame) (finished : List Datum) :
    List Token → Except SyntaxError (List Datum)
  | [] => if frames.isEmpty then .ok finished.reverse else .error .unfinished
  | .literal value :: rest =>
      let (frames, finished) := place (.literal value) frames finished
      readTokens frames finished rest
  | .symbol name itself :: rest =>
      let (frames, finished) := place (.symbol name itself) frames finished
      readTokens frames finished rest
  | .mark form :: rest => readTokens (.form form :: frames) finished rest
  | .opening kind :: rest => readTokens (.bracket kind [] :: frames) finished rest
  | .closing kind :: rest =>
      match frames with
      | .bracket opened items :: outer =>
          if opened = kind then
            let (frames, finished) := place (closed kind items.reverse) outer finished
            readTokens frames finished rest
          else .error .invalid
      | _ => .error .invalid

/-! ## Expressions -/

inductive Expr where
  /-- A datum that is its own value. -/
  | quoted (datum : Datum)
  | name (name : String)
  | array (items : List Expr)
  | define (name : String) (body : Expr)
  | call (function : String) (arguments : List Expr)
  /-- A call of what an expression gives. -/
  | apply (head : Expr) (arguments : List Expr)
  /-- A form that is not open to jobs. -/
  | closedForm
  deriving Inhabited

/-- The functions that are there without being made for jobs. -/
def commonFunctions : List String :=
  ["+", "-", "*", "/", "**", "<", ">", "<=", ">=", "==", "!=", "isnan", "isNaN", "sll", "sra", "srl",
    "mod", "bitAnd", "bitOr", "bitXor", "bitNot", "read", "cons", "first", "second", "rest", "car",
    "cdr", "type?", "list?", "null?", "array?", "hash?", "number?", "int?", "float?", "char?",
    "symbol?", "string?", "zero?", "empty?", "func?", "not", "apply", "map", "makeArray", "aget",
    "aset", "sget", "hget", "hset", "hdel", "keys", "hpair", "slice", "len", "append",
    "appendslice", "concat", "field", "struct", "array", "list", "hash", "raw", "str", "->",
    "flatten", "quotelist", "=", ":=", "fieldls", "defined?", "stop", "joinsym", "GOOS", "&",
    "derefSet", "deref", ".", "arrayidx", "hashidx", "asUint64", "nsplit", "split", "chomp", "trim",
    "println", "print", "printf", "raw2str", "str2sym", "sym2str", "gensym", "symnum", "json",
    "unjson", "msgpack", "unmsgpack", "gob", "togo", "dump"]

/-- The forms that are no calls and are not open to jobs. -/
def closedForms : List String :=
  ["and", "or", "cond", "mdef", "fn", "defn", "begin", "let", "letseq", "assert", "defmac",
    "macexpand", "for", "set", "break", "continue", "newScope", "return", "package", "include"]

/-- The words that no definition may take, besides the functions. -/
def reservedWords : List String :=
  closedForms ++
    ["byte", "defbuild", "builder", "quote", "def", "syntaxQuote", "_ls", "int8", "int16", "int32",
      "int64", "uint8", "uint16", "uint32", "uint64", "float32", "float64", "complex64",
      "complex128", "bool", "string", "any", "case", "chan", "const", "default", "else", "defer",
      "fallthrough", "func", "go", "goto", "if", "import", "interface", "range", "select", "switch",
      "type", "var", "cap", "close", "complex", "copy", "delete", "imag", "make", "new", "panic",
      "real", "recover", "null", "nil", "--", "++", "-=", "+=", "send", "NaN", "nan"]

def isDefinable (name : String) : Bool :=
  !commonFunctions.contains name && !reservedWords.contains name

/-- The name that a definition is for, which may be quoted. -/
def Datum.target? : Datum → Option String
  | .symbol name _ => some name
  | .list [.symbol "quote" _, .symbol name _] => some name
  | _ => none

mutual

def Datum.toExpr : Datum → Except SyntaxError Expr
  | .literal value => .ok (.quoted (.literal value))
  | .symbol name itself => .ok (if itself then .quoted (.symbol name true) else .name name)
  | .array items => (allToExpr items).map .array
  | .list [] => .ok (.quoted (.list []))
  | .list (.symbol name _ :: arguments) =>
      if name == "def" then
        match arguments with
        | [target, body] =>
            match target.target? with
            | some name =>
                if isDefinable name then body.toExpr.map (.define name) else .error .invalid
            | none => .error .invalid
        | _ => .error .invalid
      else if name == "quote" || name == "syntaxQuote" then
        match arguments with
        | [datum] => .ok (.quoted datum)
        | _ => .ok .closedForm
      else if closedForms.contains name then .ok .closedForm
      else (allToExpr arguments).map (.call name)
  | .list (head :: arguments) => do
      let arguments ← allToExpr arguments
      return .apply (← head.toExpr) arguments

def allToExpr : List Datum → Except SyntaxError (List Expr)
  | [] => .ok []
  | datum :: rest => do
      let expr ← datum.toExpr
      return expr :: (← allToExpr rest)

end

def readJob (text : List Char) : Except SyntaxError (List Expr) := do
  let lexing ← lex text
  let data ← readTokens [] [] lexing.tokens.reverse
  if lexing.isOpen then throw .unfinished
  allToExpr data

end Kerf.Job
