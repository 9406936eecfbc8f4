import Cloudkeeper.Parsy.Basic
import Mathlib.Data.ENat.Basic

/-- Modelled from the spec: `EdgeType` of `core.model.graph_access`, which src/ does not hold. The
graph model supplies a default edge type and the set of allowed ones; the default is one of them,
and edge types are non-empty names. -/
structure EdgeType where
  default : PyStr
  allowedEdgeTypes : List PyStr
  default_mem : default ∈ allowedEdgeTypes
  nil_not_mem : [] ∉ allowedEdgeTypes

-- The vocabulary holding only the edge type the spec names, `"default"`.
def EdgeType.defaultOnly : EdgeType :=
  ⟨"default", ["default"], by decide, by decide⟩

namespace QueryModel

-- The Python values a literal of the query language parses to. A float is kept as the decimal
-- `mantissa / 10 ^ scale` its text denotes; Python rounds that to the nearest binary64.
inductive Value where
  | str (s : PyStr)
  | int (n : Nat)
  | float (mantissa scale : Nat)
  | bool (b : Bool)
  | null
  | array (elements : List Value)

-- The terms `core.query.model` builds for the parser: `Predicate(name, op, value, {})`,
-- `CombinedTerm`, `IsInstanceTerm`, `IdTerm` and `FunctionTerm`.
inductive Term where
  | predicate (name op : PyStr) (value : Value)
  | combined (left : Term) (op : PyStr) (right : Term)
  | isInstance (kind : PyStr)
  | id (id : PyStr)
  | function (fn name : PyStr) (args : List Value)

-- The direction strings "out", "in" and "inout".
inductive Direction where
  | outbound
  | inbound
  | inout
  deriving DecidableEq

-- `until = ⊤` is `Navigation.Max`.
structure Navigation where
  start : Nat
  «until» : ℕ∞
  edgeType : Option PyStr
  direction : Direction
  deriving DecidableEq

def Navigation.Max : ℕ∞ :=
  ⊤

structure Part where
  term : Term
  pinned : Bool
  navigation : Option Navigation

-- The parts are kept last first: `Query(parts[::-1])`.
structure Query where
  parts : List Part

end QueryModel
