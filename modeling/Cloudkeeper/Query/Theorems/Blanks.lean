import Cloudkeeper.Query.Theorems.Termination
import Cloudkeeper.Query.Theorems.Tokens
import Cloudkeeper.Parsy.Theorems.Fuel

/-! Blanks before a query change nothing: every parser a query can start with reads past them, and
the fuel the outer loops run with, which grows with the blanks, never decides a result. A query of
blanks alone is the exception: it is rejected, where the empty query reads as the empty `Query`. -/

namespace QueryParser

open QueryModel Parser

theorem optional_of_failure {p : Parser α} {s : PyStr} (h : p s = .failure) :
    p.optional s = .success none s := by
  rw [Parser.optional, alt_apply, map_apply, h]
  rfl

-- `p` starts by reading past blanks: it does on `s` what it does with the blanks dropped.
def SkipsSpace (p : Parser α) : Prop :=
  ∀ s, p s = p (s.dropWhile isspace)

namespace SkipsSpace

variable {p : Parser α} {q : Parser β}

theorem lexeme (p : Parser α) : SkipsSpace (lexeme p) := fun _ => lexeme_dropWhile.symm

theorem bind {f : α → Parser β} (hp : SkipsSpace p) : SkipsSpace (p >>= f) := fun s => by
  rw [bind_apply, bind_apply, hp s]

theorem map (g : α → β) (hp : SkipsSpace p) : SkipsSpace (g <$> p) := fun s => by
  rw [map_apply, map_apply, hp s]

theorem seqRight (hp : SkipsSpace p) : SkipsSpace (p *> q) :=
  bind hp

theorem seqLeft (hp : SkipsSpace p) : SkipsSpace (p <* q) :=
  bind hp

theorem alt {q : Parser α} (hp : SkipsSpace p) (hq : SkipsSpace q) : SkipsSpace (p <|> q) := fun s => by
  rw [alt_apply, alt_apply, hp s, hq s]

theorem choice {ps : List (Parser α)} (h : ∀ p ∈ ps, SkipsSpace p) : SkipsSpace (Parser.choice ps) :=
  choice_of_forall alt (fun _ => rfl) h

theorem choice_tokens (ts : List PyStr) : SkipsSpace (Parser.choice (ts.map fun a => QueryParser.lexeme (string a))) :=
  choice fun _ h => by obtain ⟨_, -, rfl⟩ := List.mem_map.mp h; exact lexeme _

-- `sep_by` answers `[]` where it started, and the parser after it reads past the blanks.
theorem sepBy_seqLeft {sep : Parser γ} (hp : SkipsSpace p) (hq : SkipsSpace q) :
    SkipsSpace (p.sepBy sep <* q) := fun s => by
  simp only [seqLeft_apply, sepBy, alt_apply, bind_apply, hp s]
  generalize (p (s.dropWhile isspace)).bind _ = o
  cases o
  case failure => exact congrArg (Outcome.map _) (hq s)
  all_goals rfl

-- `optional()` and `many()` answer where they started when `p` fails at once; otherwise the blanks
-- change nothing, the fuel of `many` included.
theorem optional_of_ne (hp : SkipsSpace p) {s : PyStr} (h : p s ≠ .failure) :
    p.optional s = p.optional (s.dropWhile isspace) := by
  rw [Parser.optional, alt_apply, alt_apply, map_apply, map_apply, ← hp s]
  cases hs : p s with
  | failure => exact absurd hs h
  | _ => rfl

theorem many_of_ne (hp : SkipsSpace p) (hh : ∀ k, Halts k p) (hc : Consumes p) {s : PyStr}
    (h : p s ≠ .failure) : p.many s = p.many (s.dropWhile isspace) := by
  rw [many, withFuel_apply, withFuel_apply]
  have hd := hp s
  cases hs : p s with
  | success a r =>
    have hlt : r.length < (s.dropWhile isspace).length := hc (hd ▸ hs)
    have hlen : (s.dropWhile isspace).length ≤ s.length := (List.dropWhile_suffix _).length_le
    have halts (n : Nat) (hn : r.length < n) : p.manyLoop n r ≠ .diverge :=
      (Halts.manyLoop (hh (r.length + 1)) hc n).halts r (by omega)
    rw [manyLoop_succ_success hs, manyLoop_succ_success (hd ▸ hs),
      Refines.fuel_agree (Refines.manyLoop_succ p) (halts _ (by omega)) (halts _ hlt)]
  | failure => exact absurd hs h
  | raise e => simp only [Parser.manyLoop, hs, ← hd]
  | diverge => simp only [Parser.manyLoop, hs, ← hd]

end SkipsSpace

section Fuel

variable {simple simple' inner inner' : Parser Term}

theorem combinedLoop_refines (hs : Refines simple simple') :
    ∀ n t, Refines (combinedLoop simple n t) (combinedLoop simple' n t)
  | 0, _ => Refines.refl _
  | n + 1, t => Refines.bind (Refines.refl _) fun
    | none => Refines.refl _
    | some op => Refines.bind hs fun right => combinedLoop_refines hs n (.combined t op right)

theorem combinedTermWith_refines (hs : Refines simple simple') :
    Refines (combinedTermWith simple) (combinedTermWith simple') :=
  Refines.bind hs fun left => Refines.withFuel fun n => combinedLoop_refines hs n left

variable [Unicode]

theorem simpleTermWith_refines (h : Refines inner inner') :
    Refines (simpleTermWith inner) (simpleTermWith inner') :=
  Refines.alt ((Refines.refl _).seqRight h |>.seqLeft (Refines.refl _)) (Refines.refl _)

theorem combinedFuel_succ : ∀ n, Refines (combinedFuel n) (combinedFuel (n + 1))
  | 0 => combinedTermWith_refines (simpleTermWith_refines (Refines.diverge _))
  | n + 1 => combinedTermWith_refines (simpleTermWith_refines (combinedFuel_succ n))

-- `combined_term` needs no more fuel than the input is long.
theorem combinedFuel_agree {n m : Nat} {s : PyStr} (hn : s.length ≤ n) (hm : s.length ≤ m) :
    combinedFuel n s = combinedFuel m s :=
  Refines.fuel_agree combinedFuel_succ ((combinedFuel_halts n).halts s (by omega))
    ((combinedFuel_halts m).halts s (by omega))

end Fuel

section Starts

variable [Unicode]

theorem leafTermP_skips : SkipsSpace leafTermP :=
  ((SkipsSpace.lexeme _).map _).alt (((SkipsSpace.lexeme _).map _).alt
    ((SkipsSpace.lexeme _).bind.alt (SkipsSpace.choice_tokens _).bind))

theorem simpleTermWith_skips (inner : Parser Term) : SkipsSpace (simpleTermWith inner) :=
  (SkipsSpace.lexeme _).seqRight.seqLeft.alt leafTermP_skips

theorem combinedFuel_skips (n : Nat) : SkipsSpace (combinedFuel n) := by
  cases n <;> exact (simpleTermWith_skips _).bind

theorem combinedTerm_skips : SkipsSpace combinedTerm := fun s => by
  have hlen : (s.dropWhile isspace).length ≤ s.length := (List.dropWhile_suffix _).length_le
  rw [combinedTerm, withFuel_apply, withFuel_apply, combinedFuel_skips _ s]
  exact combinedFuel_agree (by omega) (by omega)

theorem partParser_skips : SkipsSpace partParser :=
  (combinedTerm_skips.alt (simpleTermWith_skips _)).bind

end Starts

theorem preambleP_skips : SkipsSpace preambleP :=
  SkipsSpace.sepBy_seqLeft (SkipsSpace.choice_tokens _).bind (SkipsSpace.lexeme _)

section Queries

variable [Unicode] {E : EdgeType}

-- A query that opens with a preamble or a part reads past the blanks before it.
theorem queryParser_skips {t : PyStr}
    (h : preambleP (t.dropWhile isspace) ≠ .failure ∨ partParser (t.dropWhile isspace) ≠ .failure) :
    queryParser E t = queryParser E (t.dropWhile isspace) := by
  by_cases hpre : preambleP (t.dropWhile isspace) = .failure
  · have hpart : partParser t ≠ .failure := (partParser_skips t).trans_ne (h.resolve_left (not_not.mpr hpre))
    simp only [queryParser, bind_apply, optional_of_failure ((preambleP_skips t).trans hpre),
      optional_of_failure hpre, Outcome.bind_success,
      SkipsSpace.many_of_ne partParser_skips (fun _ => partParser_halts) partParser_consumes hpart]
  · simp only [queryParser, bind_apply,
      SkipsSpace.optional_of_ne preambleP_skips ((preambleP_skips t).trans_ne hpre)]

theorem parseQuery_skips {t : PyStr}
    (h : preambleP (t.dropWhile isspace) ≠ .failure ∨ partParser (t.dropWhile isspace) ≠ .failure) :
    parseQuery E t = parseQuery E (t.dropWhile isspace) := by
  rw [parseQuery, parseQuery, seqLeft_apply, seqLeft_apply, queryParser_skips h]

-- With neither a preamble nor a part to read, the query has no parts and `eof` decides.
theorem parseQuery_of_failure {t : PyStr} (hpre : preambleP (t.dropWhile isspace) = .failure)
    (hpart : partParser (t.dropWhile isspace) = .failure) :
    parseQuery E t = if t = [] then .success ⟨[]⟩ [] else .failure := by
  simp only [parseQuery, queryParser, seqLeft_apply, bind_apply, pure_apply,
    optional_of_failure ((preambleP_skips t).trans hpre), many, withFuel_apply,
    manyLoop_succ_failure ((partParser_skips t).trans hpart), Outcome.bind_success, Option.getD_none,
    dictGet, List.reverse_nil, List.lookup_nil, E.default_mem, not_true_eq_false, ite_false]
  cases t <;> rfl

/-- Blanks before a query never change what `parse_query` makes of it: the same `Query`, a
`ParseError` (whose position the model leaves out) or the same exception. -/
theorem parseQuery_leading_blanks (E : EdgeType) {w s : PyStr} (hw : ∀ c ∈ w, isspace c = true) (hs : s ≠ []) :
    parseQuery E (w ++ s) = parseQuery E s := by
  have hd : (w ++ s).dropWhile isspace = s.dropWhile isspace := List.dropWhile_append_of_pos hw
  by_cases h : preambleP (s.dropWhile isspace) ≠ .failure ∨ partParser (s.dropWhile isspace) ≠ .failure
  · rw [parseQuery_skips (hd ▸ h), parseQuery_skips h, hd]
  · rw [not_or, not_not, not_not] at h
    rw [parseQuery_of_failure (hd ▸ h.1) (hd ▸ h.2), parseQuery_of_failure h.1 h.2, if_neg hs,
      if_neg (List.append_ne_nil_of_right_ne_nil w hs)]

end Queries

theorem parseQuery_leading_blanks_spaces :
    (∀ c ∈ ("  " : PyStr), isspace c = true) ∧ ("a == 1" : PyStr) ≠ [] ∧
      @parseQuery Unicode.latin1 EdgeType.defaultOnly (("  " : PyStr) ++ "a == 1") =
        @parseQuery Unicode.latin1 EdgeType.defaultOnly "a == 1" :=
  ⟨by decide, by decide, @parseQuery_leading_blanks Unicode.latin1 _ _ _ (by decide) (by decide)⟩

end QueryParser
