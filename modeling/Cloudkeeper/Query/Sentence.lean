import Cloudkeeper.Query.Theorems.Strings
import Mathlib.Data.List.Chain

/-! The sentences of the query language as the spec describes them: their abstract syntax, the
text each is written as, and the `Query` each denotes. -/

namespace Sentence

open QueryModel QueryParser

-- A decimal numeral, most significant digit first, no longer than `int()` accepts.
structure Numeral where
  digits : List (Fin 10)
  nonempty : digits ≠ []
  fits : digits.length ≤ intMaxStrDigits

def Numeral.text (n : Numeral) : PyStr :=
  n.digits.map fun d => 48 + d.val

def Numeral.value (n : Numeral) : Nat :=
  n.digits.foldl (fun v d => 10 * v + d.val) 0

-- A float `whole.frac`, with a digit on at least one side of the point.
structure Decimal where
  whole : List (Fin 10)
  frac : List (Fin 10)
  nonempty : whole ++ frac ≠ []

def Decimal.text (x : Decimal) : PyStr :=
  (x.whole.map fun d => 48 + d.val) ++ 46 :: x.frac.map fun d => 48 + d.val

-- The float is `mantissa / 10 ^ frac.length`.
def Decimal.mantissa (x : Decimal) : Nat :=
  (x.whole ++ x.frac).foldl (fun v d => 10 * v + d.val) 0

-- An edge type written in an arrow or a preamble: `[A-Za-z][A-Za-z0-9]*`.
structure Word where
  first : Nat
  rest : PyStr
  letter : isAsciiLetter first = true
  alnum : ∀ c ∈ rest, isAsciiAlnum c = true

def Word.text (w : Word) : PyStr :=
  w.first :: w.rest

-- A property name: `[A-Za-z][A-Za-z0-9.*\[\]]*`.
structure Name where
  first : Nat
  rest : PyStr
  letter : isAsciiLetter first = true
  chars : ∀ c ∈ rest, isVariableChar c = true

def Name.text (n : Name) : PyStr :=
  n.first :: n.rest

structure Op where
  text : PyStr
  mem : text ∈ operations

inductive Fn where
  | inSubnet
  | hasDesiredChange

def Fn.text : Fn → PyStr
  | .inSubnet => "in_subnet"
  | .hasDesiredChange => "has_desired_change"

inductive BoolOp where
  | and
  | or

def BoolOp.text : BoolOp → PyStr
  | .and => "and"
  | .or => "or"

mutual
inductive Lit where
  | int (n : Numeral)
  | float (x : Decimal)
  | str (pieces : List LitPiece)
  | bool (b : Bool)
  | null
  | array (elements : Lits)
inductive Lits where
  | nil
  | cons (head : Lit) (tail : Lits)
end

mutual
def Lit.text : Lit → PyStr
  | .int n => n.text
  | .float x => x.text
  | .str pieces => literal pieces
  | .bool true => "true"
  | .bool false => "false"
  | .null => "null"
  | .array elements => "[" ++ elements.text ++ "]"
-- `v₁, v₂, …`
def Lits.text : Lits → PyStr
  | .nil => []
  | .cons head tail => head.text ++ tail.more
-- `, v₁, v₂, …`
def Lits.more : Lits → PyStr
  | .nil => []
  | .cons head tail => ", " ++ head.text ++ tail.more
end

mutual
def Lit.denote : Lit → Value
  | .int n => .int n.value
  | .float x => .float x.mantissa x.frac.length
  | .str pieces => .str (pieces.map LitPiece.value).flatten
  | .bool b => .bool b
  | .null => .null
  | .array elements => .array elements.denote
def Lits.denote : Lits → List Value
  | .nil => []
  | .cons head tail => head.denote :: tail.denote
end

-- How deep arrays nest.
mutual
def Lit.depth : Lit → Nat
  | .array elements => elements.depth + 1
  | _ => 0
def Lits.depth : Lits → Nat
  | .nil => 0
  | .cons head tail => max head.depth tail.depth
end

mutual
inductive Simple where
  | paren (chain : Chain)
  | isInstance (kind : List LitPiece)
  | id (id : List LitPiece)
  | predicate (name : Name) (op : Op) (value : Lit)
  | function (fn : Fn) (name : Name) (args : Lits)
-- `s₁ o₁ s₂ … oₙ₋₁ sₙ`, read left to right.
inductive Chain where
  | mk (head : Simple) (tail : Tail)
inductive Tail where
  | nil
  | cons (op : BoolOp) (right : Simple) (tail : Tail)
end

mutual
def Simple.text : Simple → PyStr
  | .paren chain => "(" ++ chain.text ++ ")"
  | .isInstance kind => "isinstance(" ++ literal kind ++ ")"
  | .id id => "id(" ++ literal id ++ ")"
  | .predicate name op value => name.text ++ " " ++ op.text ++ " " ++ value.text
  | .function fn name args => fn.text ++ "(" ++ name.text ++ args.more ++ ")"
def Chain.text : Chain → PyStr
  | .mk head tail => head.text ++ tail.text
def Tail.text : Tail → PyStr
  | .nil => []
  | .cons op right tail => " " ++ op.text ++ " " ++ right.text ++ tail.text
end

mutual
def Simple.denote : Simple → Term
  | .paren chain => chain.denote
  | .isInstance kind => .isInstance (kind.map LitPiece.value).flatten
  | .id id => .id (id.map LitPiece.value).flatten
  | .predicate name op value => .predicate name.text op.text value.denote
  | .function fn name args => .function fn.text name.text args.denote
def Chain.denote : Chain → Term
  | .mk head tail => tail.fold head.denote
-- Both operators bind alike and group to the left.
def Tail.fold : Tail → Term → Term
  | .nil, left => left
  | .cons op right tail, left => tail.fold (.combined left op.text right.denote)
end

-- How deep parentheses nest.
mutual
def Simple.depth : Simple → Nat
  | .paren chain => chain.depth + 1
  | _ => 0
def Chain.depth : Chain → Nat
  | .mk head tail => max head.depth tail.depth
def Tail.depth : Tail → Nat
  | .nil => 0
  | .cons _ right tail => max right.depth tail.depth
end

inductive RangeSep where
  | colon
  | comma
  | dotdot

def RangeSep.text : RangeSep → PyStr
  | .colon => ":"
  | .comma => ","
  | .dotdot => ".."

inductive Range where
  | exact (n : Numeral)
  | bounded (n : Numeral) (sep : RangeSep) (m : Numeral)
  | atLeast (n : Numeral) (sep : RangeSep)

def Range.text : Range → PyStr
  | .exact n => "[" ++ n.text ++ "]"
  | .bounded n sep m => "[" ++ n.text ++ sep.text ++ m.text ++ "]"
  | .atLeast n sep => "[" ++ n.text ++ sep.text ++ "]"

-- The hops a range stands for: from `start` to `until`, `⊤` for no bound.
def Range.hops : Range → Nat × ℕ∞
  | .exact n => (n.value, n.value)
  | .bounded n _ m => (n.value, m.value)
  | .atLeast n _ => (n.value, ⊤)

structure Arrow where
  edgeType : Option Word
  range : Option Range
  direction : Direction

def Arrow.text (a : Arrow) : PyStr :=
  let body := (a.edgeType.map Word.text).getD [] ++ (a.range.map Range.text).getD []
  match a.direction with
  | .outbound => "-" ++ body ++ "->"
  | .inbound => "<-" ++ body ++ "-"
  | .inout => "-" ++ body ++ "-"

-- One hop when no range is written; the edge type `et` of the query when none is named.
def Arrow.denote (et : PyStr) (a : Arrow) : Navigation :=
  let hops := (a.range.map Range.hops).getD (1, 1)
  ⟨hops.1, hops.2, some ((a.edgeType.map Word.text).getD et), a.direction⟩

-- `term navigation? pin?`
structure PartText where
  term : Chain
  arrow : Option Arrow
  pinned : Bool

def PartText.text (p : PartText) : PyStr :=
  p.term.text ++ (p.arrow.map fun a => (" " : PyStr) ++ a.text).getD [] ++
    if p.pinned then (" +" : PyStr) else []

def PartText.denote (et : PyStr) (p : PartText) : QueryModel.Part :=
  ⟨p.term.denote, p.pinned, p.arrow.map (Arrow.denote et)⟩

def partsText : List PartText → PyStr
  | [] => []
  | [p] => p.text
  | p :: ps => p.text ++ " " ++ partsText ps

-- The text begins with `and` or `or`.
def StartsWithBoolOp (t : PyStr) : Prop :=
  "and" <+: t ∨ "or" <+: t

-- A part with neither navigation nor pin is not followed by a part that begins with `and` or
-- `or`: `boolOpP` would read on into it.
def Separated (p q : PartText) : Prop :=
  p.arrow = none → p.pinned = false → ¬StartsWithBoolOp q.text

end Sentence

open Sentence in
structure Sentence where
  preamble : Option Word
  parts : List PartText
  nonempty : parts ≠ []

namespace Sentence

open QueryModel

def text (s : Sentence) : PyStr :=
  (s.preamble.map fun w => ("edge_type=" : PyStr) ++ w.text ++ ": ").getD [] ++ partsText s.parts

-- The preamble's edge type, or the vocabulary's default.
def edgeType (E : EdgeType) (s : Sentence) : PyStr :=
  (s.preamble.map Word.text).getD E.default

def denote (E : EdgeType) (s : Sentence) : Query :=
  ⟨(s.parts.map (PartText.denote (s.edgeType E))).reverse⟩

end Sentence
