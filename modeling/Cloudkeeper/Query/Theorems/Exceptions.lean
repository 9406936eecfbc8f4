import Cloudkeeper.Query.Parser
import Cloudkeeper.Parsy.Theorems.Raises

namespace QueryParser

open QueryModel

open Parser

section Tokens

variable {P : PyException → Prop} {p : Parser α}

theorem stringEsc_raises : Raises stringEsc P := by
  apply_rules [Raises.seqRight, Raises.alt, Raises.string, Raises.result, Raises.map,
    Raises.regexFixed, Raises.success]

end Tokens

section Values

variable [Unicode]

end Values

section Terms

variable [Unicode]

end Terms

section Parts

variable [Unicode]

end Parts

-- `floatP` reads a bare `.`, and `digit` takes `²`, which `int()` refuses.
theorem parseQuery_value_error :
    @parseQuery Unicode.latin1 EdgeType.defaultOnly "a == ." = .raise (.valueError ".") ∧
      @parseQuery Unicode.latin1 EdgeType.defaultOnly "a == ²" = .raise (.valueError "²") :=
  ⟨rfl, rfl⟩

end QueryParser
