import Mathlib.Data.List.Basic

/-- A Python `str` as the list of its code points; unlike `String` it can hold the lone
surrogates `chr` returns for `\uD800` to `\uDFFF`. -/
abbrev PyStr := List Nat

def PyStr.ofString (s : String) : PyStr :=
  s.toList.map Char.toNat

instance : Coe String PyStr :=
  ⟨PyStr.ofString⟩

-- The characters Python's `re` matches with `\s` in a `str` pattern (`str.isspace`).
def isspace (c : Nat) : Bool :=
  (9 ≤ c && c ≤ 13) || (28 ≤ c && c ≤ 32) || c == 0x85 || c == 0xA0 || c == 0x1680 ||
    (0x2000 ≤ c && c ≤ 0x200A) || c == 0x2028 || c == 0x2029 || c == 0x202F || c == 0x205F ||
    c == 0x3000

-- [A-Za-z]
def isAsciiLetter (c : Nat) : Bool :=
  (65 ≤ c && c ≤ 90) || (97 ≤ c && c ≤ 122)

-- [A-Za-z0-9]
def isAsciiAlnum (c : Nat) : Bool :=
  isAsciiLetter c || (48 ≤ c && c ≤ 57)

-- What the code reads from Python's Unicode database besides `\s`: `str.isdigit`, which parsy's
-- `digit` tests, and the decimal value `int` and `float` give a character. The fields are facts
-- of that database: the ASCII digits are digits with their values, and no other ASCII character
-- is a digit.
class Unicode where
  isdigit : Nat → Bool
  decimal : Nat → Option Nat
  ascii_digit : ∀ d < 10, isdigit (48 + d) = true ∧ decimal (48 + d) = some d
  ascii_isdigit : ∀ c < 128, isdigit c = true → 48 ≤ c ∧ c < 58
  decimal_isdigit : ∀ c d, decimal c = some d → isdigit c = true

-- Python's table on Latin-1, `U+0000` to `U+00FF`: the ASCII digits and `¹ ² ³`, which `int`
-- does not read; no code point above `U+00FF` counts as a digit here.
def Unicode.latin1 : Unicode where
  isdigit c := (48 ≤ c && c < 58) || c == 0xB2 || c == 0xB3 || c == 0xB9
  decimal c := if 48 ≤ c ∧ c < 58 then some (c - 48) else none
  ascii_digit := by decide
  ascii_isdigit := by decide
  decimal_isdigit c d h := by
    by_cases hc : 48 ≤ c ∧ c < 58
    · simp [hc.1, hc.2]
    · simp [hc] at h

-- The Python exceptions the modelled code lets escape from a parser.
inductive PyException where
  -- `int(arg)` or `float(arg)` rejected its argument
  | valueError (arg : PyStr)
  -- "Given edge_type {edgeType} is not available. Use one of {allowed}"
  | attributeError (edgeType : PyStr) (allowed : List PyStr)

/-- What running a parsy parser from some position comes to: a value and the unconsumed input,
a parse failure, a Python exception raised inside the parser, or a run that never ends. -/
inductive Outcome (α : Type) where
  | success (value : α) (rest : PyStr)
  | failure
  | raise (e : PyException)
  | diverge

namespace Outcome

def bind : Outcome α → (α → PyStr → Outcome β) → Outcome β
  | success a r, f => f a r
  | failure, _ => failure
  | raise e, _ => raise e
  | diverge, _ => diverge

def map (f : α → β) (o : Outcome α) : Outcome β :=
  o.bind fun a r => success (f a) r

def orElse : Outcome α → Outcome α → Outcome α
  | failure, o => o
  | o, _ => o

end Outcome

def Parser (α : Type) : Type :=
  PyStr → Outcome α

namespace Parser

instance : Monad Parser where
  pure a := .success a
  bind p f s := (p s).bind f

protected def alt (p q : Parser α) : Parser α :=
  fun s => (p s).orElse (q s)

-- parsy's `p | q`: on failure `q` runs from where `p` started.
instance : OrElse (Parser α) :=
  ⟨fun p q => p.alt (q ())⟩

def success (a : α) : Parser α :=
  pure a

def fail : Parser α :=
  fun _ => .failure

def raise (e : PyException) : Parser α :=
  fun _ => .raise e

def diverge : Parser α :=
  fun _ => .diverge

def eof : Parser Unit
  | [] => .success () []
  | _ :: _ => .failure

-- `stream[index:index + slen] == s`
def string (t : PyStr) : Parser PyStr :=
  fun s => if s.take t.length = t then .success t (s.drop t.length) else .failure

def testChar (pred : Nat → Bool) : Parser PyStr
  | c :: s => if pred c then .success [c] s else .failure
  | [] => .failure

-- `regex("[cls]*")`
def regexStar (cls : Nat → Bool) : Parser PyStr :=
  fun s => .success (s.takeWhile cls) (s.dropWhile cls)

-- `regex("[head][tail]*")`
def regex (head tail : Nat → Bool) : Parser PyStr
  | c :: s => if head c then .success (c :: s.takeWhile tail) (s.dropWhile tail) else .failure
  | [] => .failure

-- `regex("[c₁][c₂]...[cₖ]")`: one character of each class in turn.
def regexFixed : List (Nat → Bool) → Parser PyStr
  | [] => success []
  | cls :: more => fun
    | c :: s => if cls c then ((c :: ·) <$> regexFixed more) s else .failure
    | [] => .failure

-- parsy's `reduce(lambda x, y: x | y, ps)`.
def choice : List (Parser α) → Parser α
  | [] => fail
  | p :: ps => ps.foldl (· <|> ·) p

def result (p : Parser α) (b : β) : Parser β :=
  p *> success b

def concat (p : Parser (List PyStr)) : Parser PyStr :=
  List.flatten <$> p

-- parsy's `p + q` on parsers of lists.
def plus (p q : Parser (List α)) : Parser (List α) := do
  let a ← p
  let b ← q
  pure (a ++ b)

-- parsy's `p.map(f)` for an `f` that may raise.
def mapRaising (p : Parser α) (f : α → Except PyException β) : Parser β :=
  fun s => (p s).bind fun a r =>
    match f a with
    | .ok b => .success b r
    | .error e => .raise e

-- Runs `f` with fuel one more than the input left. A loop or a recursion of a pure parser that
-- ends does so within that many rounds, each of them shortening the input, so the fuel never
-- decides a result: `.diverge` stands for a Python loop or recursion that does not end.
def withFuel (f : Nat → Parser α) : Parser α :=
  fun s => f (s.length + 1) s

-- The loop of parsy's `times(0, inf)`.
def manyLoop (p : Parser α) : Nat → Parser (List α)
  | 0 => diverge
  | n + 1 => fun s =>
    match p s with
    | .success a r => (manyLoop p n r).map (a :: ·)
    | .failure => .success [] s
    | .raise e => .raise e
    | .diverge => .diverge

def many (p : Parser α) : Parser (List α) :=
  withFuel p.manyLoop

-- `at_least(n)`, that is `times(n) + many()`.
def atLeast (p : Parser α) : Nat → Parser (List α)
  | 0 => p.many
  | n + 1 => do
    let a ← p
    let as ← p.atLeast n
    pure (a :: as)

-- `sep_by(sep)`, that is `(times(1) + (sep >> p).many()) | success([])`.
def sepBy (p : Parser α) (sep : Parser β) : Parser (List α) :=
  (do
    let a ← p
    let as ← (sep *> p).many
    pure (a :: as)) <|> success []

-- `optional()`, that is `times(0, 1)` mapped to its element or `None`.
def optional (p : Parser α) : Parser (Option α) :=
  (some <$> p) <|> success none

end Parser
