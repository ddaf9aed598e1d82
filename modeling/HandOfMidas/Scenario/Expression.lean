import HandOfMidas.Protocol.Fields
import Mathlib.Algebra.Order.Field.Rat

/-! The expressions of scenarios, and the hand-written parser that reads them from the bytes of their
    text. A byte stands here as the character that the source makes of it with `b as char`, and the
    bytes that are left tell the position. -/

namespace Midas.Dsl.Expression

/-- `f64`, as the parser uses it. `text` is a decimal that stands for the number. -/
class F64 (F : Type) extends Add F, Mul F, Div F where
  ofInt : Int64 → F
  isIntegral : F → Bool
  asI64 : F → Int64
  parse : List Char → Option F
  text : F → List Char

/-! ### Syntax -/

inductive BinOp
  | eq | neq | lt | le | gt | ge
deriving DecidableEq

/-- What a literal is. -/
inductive Value (F : Type)
  | num (n : F)
  | int (i : Int64)
  | str (s : List Char)
  | bool (b : Bool)
deriving DecidableEq

inductive Index
  | int (i : Int64)
  | str (s : List Char)
  | ident (name : List Char)
  | wildcard
deriving DecidableEq

inductive Segment
  | field (name : List Char)
  | index (idx : Index)
deriving DecidableEq

inductive Expr (F : Type)
  | literal (v : Value F)
  | path (root : List Char) (segments : List Segment)
  | call (name : List Char) (args : List (Expr F))
  | binOp (op : BinOp) (lhs rhs : Expr F)
  | and (lhs rhs : Expr F)
  | or (lhs rhs : Expr F)

inductive ParseError
  | unexpectedChar (pos : ℕ) (ch : Char)
  | unexpectedEof (expected : String)
  | unterminatedString (pos : ℕ)
  | invalidNumber (pos : ℕ) (text : List Char)
  | expected (pos : ℕ) (expected : String) (found : List Char)
  | trailingInput (pos : ℕ) (rest : List Char)
deriving DecidableEq

/-! ### Bytes -/

/-- `src.as_bytes()`. -/
def bytes (src : List Char) : List Char :=
  src.flatMap fun c => (String.utf8EncodeChar c).map fun b => Char.ofNat b.toNat

def isAsciiWhitespace (c : Char) : Bool :=
  c = ' ' || c = '\t' || c = '\n' || c = '\x0c' || c = '\r'

/-- `b.is_ascii_alphanumeric() || b == b'_'`. -/
def isIdentByte (c : Char) : Bool := c.isAlphanum || c = '_'

def skipWhitespace (cs : List Char) : List Char := cs.dropWhile isAsciiWhitespace

/-- What is left after the expected bytes; if they are not there, white space is skipped all the same. -/
def eat (expected : String) (cs : List Char) : Option (List Char) :=
  if expected.toList <+: skipWhitespace cs then
    some ((skipWhitespace cs).drop expected.toList.length)
  else none

def eatKeyword (kw : String) (cs : List Char) : Option (List Char) :=
  (eat kw cs).filter fun rest => !rest.head?.any isIdentByte

section

variable (len : ℕ)

/-- Where the bytes that are left begin in the source, which has `len` bytes. -/
def position (cs : List Char) : ℕ := len - cs.length

def expect (expected : String) (cs : List Char) : Except ParseError (List Char) :=
  match eat expected cs with
  | some rest => .ok rest
  | none =>
    let cs := skipWhitespace cs
    .error (.expected (position len cs) expected cs.head?.toList)

/-! ### Words, strings and numbers -/

/-- `parse_ident` and `parse_ident_with_hyphen`, which take different bytes. -/
def parseIdentOf (isByte : Char → Bool) (cs : List Char) :
    Except ParseError (List Char × List Char) :=
  let cs := skipWhitespace cs
  if cs.takeWhile isByte = [] then
    .error (.unexpectedChar (position len cs) (cs.head?.getD '\x00'))
  else .ok (cs.takeWhile isByte, cs.dropWhile isByte)

def parseIdent : List Char → Except ParseError (List Char × List Char) :=
  parseIdentOf len isIdentByte

def parseIdentWithHyphen : List Char → Except ParseError (List Char × List Char) :=
  parseIdentOf len fun c => isIdentByte c || c = '-'

def unescape : Char → Char
  | 'n' => '\n'
  | 't' => '\t'
  | other => other

/-- The bytes up to the quote, each pushed as a character. -/
def stringBody (quote : Char) (start : ℕ) : List Char → Except ParseError (List Char × List Char)
  | [] => .error (.unterminatedString start)
  | c :: cs =>
    if c = quote then .ok ([], cs)
    else if c = '\\' then
      match cs with
      | [] => .error (.unterminatedString start)
      | d :: cs => do
        let (out, rest) ← stringBody quote start cs
        return (unescape d :: out, rest)
    else do
      let (out, rest) ← stringBody quote start cs
      return (c :: out, rest)

/-- At a quote. -/
def parseString : List Char → Except ParseError (List Char × List Char)
  | [] => .error (.unterminatedString len)
  | quote :: cs => stringBody quote (position len (quote :: cs)) cs

/-- The digits and at most one point with a digit behind it; whether there is one; and what is left. -/
def scanNumber : Bool → List Char → List Char × Bool × List Char
  | sawDot, [] => ([], sawDot, [])
  | sawDot, c :: cs =>
    if c.isDigit then
      let r := scanNumber sawDot cs
      (c :: r.1, r.2)
    else if c = '.' ∧ sawDot = false ∧ cs.head?.any Char.isDigit then
      let r := scanNumber true cs
      (c :: r.1, r.2)
    else ([], sawDot, c :: cs)

/-- `text.parse::<i64>()`. -/
def parseI64 (text : List Char) : Option Int64 :=
  match Protocol.parseInt text with
  | some n => if -2 ^ 63 ≤ n ∧ n < 2 ^ 63 then some (.ofInt n) else none
  | none => none

variable {F : Type} [F64 F]

def parseNumber (cs : List Char) : Except ParseError (Value F × List Char) :=
  let sign := (cs.take 1).filter fun c => c = '-' || c = '+'
  let (digits, sawDot, rest) := scanNumber false (cs.drop sign.length)
  let text := sign ++ digits
  let value : Option (Value F) :=
    if digits.any Char.isDigit = false then none
    else if sawDot then (F64.parse text).map .num
    else (parseI64 text).map .int
  match value with
  | some v => .ok (v, rest)
  | none => .error (.invalidNumber (position len cs) text)

def isDurationSuffix (s : List Char) : Bool :=
  String.ofList s ∈ ["ms", "s", "sec", "secs", "m", "min", "h", "hr", "hour", "hours"]

def scaleBySuffix (n : F) (suffix : List Char) : F :=
  match String.ofList suffix with
  | "ms" => n / F64.ofInt 1000
  | "s" | "sec" | "secs" => n
  | "m" | "min" => n * F64.ofInt 60
  | "h" | "hr" | "hour" | "hours" => n * F64.ofInt 3600
  | _ => n

/-- `5min`: lower case letters that follow a number at once may be a unit. -/
def duration? (n : Value F) (cs : List Char) : Option (F × List Char) :=
  let suffix := cs.takeWhile Char.isLower
  if suffix ≠ [] ∧ isDurationSuffix suffix then
    let seconds : F :=
      match n with
      | .int i => F64.ofInt i
      | .num f => f
      | _ => F64.ofInt 0
    some (scaleBySuffix seconds suffix, cs.dropWhile Char.isLower)
  else none

/-- `00:05:00`: two more numbers, each after a colon, make an integer a time. -/
def clock? (n : Value F) (cs : List Char) : Option (F × List Char) :=
  match n, cs with
  | .int h, ':' :: cs =>
    match (parseNumber len cs : Except ParseError (Value F × List Char)) with
    | .ok (.int m, ':' :: cs) =>
      match (parseNumber len cs : Except ParseError (Value F × List Char)) with
      | .ok (.int sec, rest) =>
        some (F64.ofInt h * F64.ofInt 3600 + F64.ofInt m * F64.ofInt 60 + F64.ofInt sec, rest)
      | _ => none
    | _ => none
  | _, _ => none

/-- At a digit or a sign. -/
def parseNumeral (cs : List Char) : Except ParseError (Value F × List Char) := do
  let (n, rest) ← parseNumber len cs
  match duration? n rest with
  | some (seconds, rest) => return (.num seconds, rest)
  | none =>
    match clock? len n rest with
    | some (seconds, rest) => return (.num seconds, rest)
    | none => return (n, rest)

/-! ### The grammar -/

def parseIndex (cs : List Char) : Except ParseError (Index × List Char) :=
  match skipWhitespace cs with
  | [] => .error (.unexpectedEof "index")
  | c :: rest =>
    if c = '*' then .ok (.wildcard, rest)
    else if c = '"' ∨ c = '\'' then do
      let (s, rest) ← parseString len (c :: rest)
      return (.str s, rest)
    else if c = '-' ∨ c.isDigit then do
      let (n, rest) ← (parseNumber len (c :: rest) : Except ParseError (Value F × List Char))
      match n with
      | .int i => return (.int i, rest)
      | .num f =>
        if F64.isIntegral f then return (.int (F64.asI64 f), rest)
        else throw (.invalidNumber (position len rest) "non-integer index".toList)
      | _ => throw (.invalidNumber (position len rest) "non-integer index".toList)
    else if c.isAlpha ∨ c = '_' then do
      let (name, rest) ← parseIdentWithHyphen len (c :: rest)
      return (.ident name, rest)
    else .error (.unexpectedChar (position len (c :: rest)) c)

/-- A comparison, the longer ones first. -/
def binOp? (cs : List Char) : Option (BinOp × List Char) :=
  [("==", BinOp.eq), ("!=", .neq), ("<=", .le), (">=", .ge), ("<", .lt), (">", .gt)].findSome?
    fun (text, op) => (eat text cs).map fun rest => (op, rest)

/-- `none` when the fuel, which bounds the loops and the depth, is used up. -/
abbrev Result (α : Type) := ExceptT ParseError Option α

def outOfFuel {α : Type} : Result α := ExceptT.mk none

def read {α : Type} (r : Except ParseError α) : Result α := ExceptT.mk (some r)

/-- `.field` and `[index]`, as many as there are. -/
def parseSegments : ℕ → List Char → Result (List Segment × List Char)
  | 0, _ => outOfFuel
  | fuel + 1, cs =>
    match eat "." cs with
    | some rest => do
      let (field, rest) ← read (parseIdent len rest)
      let (segments, rest) ← parseSegments fuel rest
      return (.field field :: segments, rest)
    | none =>
      match skipWhitespace cs with
      | '[' :: rest => do
        let (idx, rest) ← read (parseIndex (F := F) len rest)
        let rest ← read (expect len "]" rest)
        let (segments, rest) ← parseSegments fuel rest
        return (.index idx :: segments, rest)
      | rest => return ([], rest)

mutual

def parseOr : ℕ → List Char → Result (Expr F × List Char)
  | 0, _ => outOfFuel
  | fuel + 1, cs => do
    let (lhs, rest) ← parseAnd fuel cs
    orLoop fuel lhs rest

def orLoop : ℕ → Expr F → List Char → Result (Expr F × List Char)
  | 0, _, _ => outOfFuel
  | fuel + 1, lhs, cs =>
    match eat "||" cs <|> eatKeyword "or" cs with
    | some rest => do
      let (rhs, rest) ← parseAnd fuel rest
      orLoop fuel (.or lhs rhs) rest
    | none => return (lhs, skipWhitespace cs)

def parseAnd : ℕ → List Char → Result (Expr F × List Char)
  | 0, _ => outOfFuel
  | fuel + 1, cs => do
    let (lhs, rest) ← parseCmp fuel cs
    andLoop fuel lhs rest

def andLoop : ℕ → Expr F → List Char → Result (Expr F × List Char)
  | 0, _, _ => outOfFuel
  | fuel + 1, lhs, cs =>
    match eat "&&" cs <|> eatKeyword "and" cs with
    | some rest => do
      let (rhs, rest) ← parseCmp fuel rest
      andLoop fuel (.and lhs rhs) rest
    | none => return (lhs, skipWhitespace cs)

def parseCmp : ℕ → List Char → Result (Expr F × List Char)
  | 0, _ => outOfFuel
  | fuel + 1, cs => do
    let (lhs, rest) ← parseTerm fuel cs
    match binOp? rest with
    | some (op, rest) => do
      let (rhs, rest) ← parseTerm fuel rest
      return (.binOp op lhs rhs, rest)
    | none => return (lhs, skipWhitespace rest)

def parseTerm : ℕ → List Char → Result (Expr F × List Char)
  | 0, _ => outOfFuel
  | fuel + 1, cs =>
    match skipWhitespace cs with
    | [] => throw (.unexpectedEof "term")
    | c :: rest =>
      if c = '(' then do
        let (e, rest) ← parseOr fuel rest
        let rest ← read (expect len ")" rest)
        return (e, rest)
      else if c = '"' ∨ c = '\'' then do
        let (s, rest) ← read (parseString len (c :: rest))
        return (.literal (.str s), rest)
      else if c.isDigit ∨ c = '-' ∨ c = '+' then do
        let (v, rest) ← read (parseNumeral len (c :: rest))
        return (.literal v, rest)
      else if c.isAlpha ∨ c = '_' then parseIdentExpr fuel (c :: rest)
      else throw (.unexpectedChar (position len (c :: rest)) c)

def parseIdentExpr : ℕ → List Char → Result (Expr F × List Char)
  | 0, _ => outOfFuel
  | fuel + 1, cs => do
    let (ident, rest) ← read (parseIdent len cs)
    if ident = "true".toList then return (.literal (.bool true), rest)
    else if ident = "false".toList then return (.literal (.bool false), rest)
    else
      match skipWhitespace rest with
      | '(' :: rest => do
        let (args, rest) ← parseArgs fuel rest
        let rest ← read (expect len ")" rest)
        return (.call ident args, rest)
      | rest => do
        let (segments, rest) ← parseSegments (F := F) len fuel rest
        return (.path ident segments, rest)

def parseArgs : ℕ → List Char → Result (List (Expr F) × List Char)
  | 0, _ => outOfFuel
  | fuel + 1, cs =>
    match skipWhitespace cs with
    | ')' :: rest => return ([], ')' :: rest)
    | cs => argsLoop fuel cs

def argsLoop : ℕ → List Char → Result (List (Expr F) × List Char)
  | 0, _ => outOfFuel
  | fuel + 1, cs => do
    let (arg, rest) ← parseOr fuel cs
    match eat "," rest with
    | some rest => do
      let (args, rest) ← argsLoop fuel rest
      return (arg :: args, rest)
    | none => return ([arg], skipWhitespace rest)

end

end

/-- The fuel is enough for every source. -/
def parse {F : Type} [F64 F] (src : List Char) : Result (Expr F) := do
  let cs := bytes src
  let (e, rest) ← parseOr cs.length (7 * cs.length + 7) cs
  match skipWhitespace rest with
  | [] => return e
  | rest => throw (.trailingInput (position cs.length rest) rest)

/-! ### Exact numbers -/

/-- An optional sign, and behind it. -/
def signed (text : List Char) : List Char × List Char :=
  let sign := (text.take 1).filter fun c => c = '-' || c = '+'
  (sign, text.drop sign.length)

/-- `text.parse::<f64>()` for a text without letters, which is no exponent and no infinity: digits with
    at most one point, and one digit at least. -/
def parseF64 (text : List Char) : Option ℚ :=
  let (sign, digits) := signed text
  let whole := digits.takeWhile Char.isDigit
  let frac := (digits.dropWhile Char.isDigit).drop 1
  let pointed := (digits.dropWhile Char.isDigit).take 1 = ['.'] ∧ frac.all Char.isDigit
  if whole ++ frac ≠ [] ∧ (digits = whole ∨ pointed) then
    let n : ℚ := Nat.ofDigitChars 10 (whole ++ frac) 0 / 10 ^ frac.length
    some (if sign = ['-'] then -n else n)
  else none

/-- Rationals for `f64`: its arithmetic, without rounding. `text` is right for whole numbers. -/
instance : F64 ℚ where
  ofInt i := i.toInt
  isIntegral q := q.den = 1
  asI64 q := .ofInt (max (-2 ^ 63) (min q.floor (2 ^ 63 - 1)))
  parse := parseF64
  text q := q.num.repr.toList ++ ".0".toList

end Midas.Dsl.Expression
