import Cloudkeeper.Query.Parser
import Cloudkeeper.Parsy.Theorems.Basic
import Mathlib.Data.List.Forall2

namespace QueryParser

open QueryModel

open Parser

theorem lexeme_yields {P : α → Prop} {p : Parser α} (h : Yields p P) : Yields (lexeme p) P :=
  h.seqRight.seqLeft

section

variable [Unicode]

end

end QueryParser
