import Cloudkeeper.Query.Parser
import Cloudkeeper.Parsy.Theorems.Halts

namespace QueryParser

open QueryModel

open Parser

variable {k : Nat} {p : Parser α}

section Tokens

theorem whitespace_halts : Halts k whitespace :=
  .regexStar _

theorem lexeme_halts (hp : Halts k p) : Halts k (lexeme p) :=
  (whitespace_halts.seqRight hp).seqLeft whitespace_halts

theorem lexeme_consumes (hp : Consumes p) : Consumes (lexeme p) :=
  (Consumes.seqRight_right whitespace_halts hp).seqLeft whitespace_halts

theorem token_consumes {t : PyStr} (ht : t ≠ []) : Consumes (lexeme (string t)) :=
  lexeme_consumes (.string ht)

theorem choice_tokens_halts (ts : List PyStr) :
    Halts k (choice (ts.map fun a => lexeme (string a))) :=
  .choice fun _ h => by obtain ⟨_, -, rfl⟩ := List.mem_map.mp h; exact lexeme_halts (.string _)

theorem choice_tokens_consumes {ts : List PyStr} (h : ∀ t ∈ ts, t ≠ []) :
    Consumes (choice (ts.map fun a => lexeme (string a))) :=
  .choice fun _ hp => by obtain ⟨t, ht, rfl⟩ := List.mem_map.mp hp; exact token_consumes (h t ht)

theorem token_halts (t : PyStr) : Halts k (lexeme (string t)) :=
  lexeme_halts (.string t)

theorem lparenP_consumes : Consumes lparenP := token_consumes (by decide)
theorem commaP_consumes : Consumes commaP := token_consumes (by decide)

theorem variableP_halts : Halts k variableP :=
  lexeme_halts (.regex _ _)

theorem variableP_consumes : Consumes variableP :=
  lexeme_consumes (.regex _ _)

theorem literalP_halts : Halts k literalP :=
  lexeme_halts (.regex _ _)

theorem stringEsc_halts : Halts k stringEsc := by
  apply_rules [Halts.seqRight, Halts.alt, Halts.string, Halts.result, Halts.map, Halts.regexFixed,
    Halts.success]

theorem stringEsc_consumes : Consumes stringEsc := by
  refine Consumes.seqRight (.string (by decide)) ?_
  apply_rules [Halts.alt, Halts.string, Halts.result, Halts.map, Halts.regexFixed, Halts.success]

theorem stringP_halts : Halts k stringP :=
  ((Halts.regex _ _).alt stringEsc_halts).many ((Consumes.regex _ _).alt stringEsc_consumes) |>.concat

theorem quotedStringP_halts : Halts k quotedStringP :=
  lexeme_halts (((Halts.string _).seqRight stringP_halts).seqLeft (.string _))

theorem boolOpP_consumes : Consumes boolOpP :=
  lexeme_consumes (.alt (.string (by decide)) (.string (by decide)))

-- The loop's test `boolOpP | success(None)` consumes whenever it finds an operator.
theorem boolOpOrNone_eq_success {s r : PyStr} {o : Option PyStr}
    (h : ((some <$> boolOpP) <|> success none : Parser (Option PyStr)) s = .success o r) :
    (o = none ∧ r = s) ∨ (o.isSome ∧ r.length < s.length) := by
  rcases Outcome.orElse_eq_success.mp h with h | ⟨-, h⟩
  · obtain ⟨op, -, rfl⟩ := Outcome.map_eq_success.mp h
    exact .inr ⟨rfl, boolOpP_consumes.map some h⟩
  · cases h
    exact .inl ⟨rfl, rfl⟩

theorem boolOpOrNone_halts : Halts k ((some <$> boolOpP) <|> success none : Parser (Option PyStr)) :=
  ((lexeme_halts ((Halts.string _).alt (.string _))).map _).alt (.success _)

theorem preambleP_halts : Halts k preambleP :=
  ((((choice_tokens_halts _).bind fun _ => (token_halts _).bind fun _ =>
    (quotedStringP_halts.alt literalP_halts).bind fun _ => .pure _).sepBy (token_halts _)
      commaP_consumes)).seqLeft (token_halts _)

end Tokens

theorem arrayParserWith_halts {inner : Parser Value} (h : Halts k inner) :
    Halts (k + 1) (arrayParserWith inner) :=
  (lexeme_halts (.string _)).bind_consumes (token_consumes (by decide)) fun _ =>
    (h.sepBy (lexeme_halts (.string _)) (token_consumes (by decide))).bind fun _ =>
      (lexeme_halts (.string _)).bind fun _ => .pure _

variable [Unicode]

section Values

theorem integerP_halts : Halts k integerP :=
  ((Halts.testChar _).atLeast (.testChar _) 1).concat.mapRaising

theorem floatP_halts : Halts k floatP :=
  ((((Halts.testChar _).many (.testChar _)).plus ((Halts.string _).result _)).plus
    ((Halts.testChar _).many (.testChar _))).concat.mapRaising

theorem valueWith_halts {arr : Parser Value} (h : Halts k arr) : Halts k (valueWith arr) := by
  apply_rules [Halts.alt, Halts.map, quotedStringP_halts, floatP_halts, integerP_halts,
    Halts.result, lexeme_halts, Halts.string]

theorem valueFuel_halts : ∀ n, Halts (n + 1) (valueFuel n)
  | 0 => valueWith_halts (arrayParserWith_halts .diverge)
  | n + 1 => valueWith_halts (arrayParserWith_halts (valueFuel_halts n))

theorem valueP_halts : Halts k valueP :=
  .withFuel fun n => (valueFuel_halts n).mono (by omega)

end Values

section Terms

-- What `function_term` parses after the function's name.
theorem functionTerm_args_halts {fn : PyStr} :
    Halts k (do
      let _ ← lparenP
      let name ← variableP
      let args ← (commaP *> valueP).many
      let _ ← rparenP
      pure (Term.function fn name args)) :=
  (lexeme_halts (.string _)).bind fun _ => variableP_halts.bind fun _ =>
    (((lexeme_halts (.string _)).seqRight valueP_halts).many
      (commaP_consumes.seqRight valueP_halts)).bind fun _ =>
    (lexeme_halts (.string _)).bind fun _ => .pure _

theorem predicateTerm_halts : Halts k predicateTerm :=
  variableP_halts.bind fun _ => (choice_tokens_halts _).bind fun _ => valueP_halts.bind fun _ => .pure _

theorem predicateTerm_consumes : Consumes predicateTerm :=
  variableP_consumes.bind fun _ => (choice_tokens_halts _).bind fun _ =>
    valueP_halts.bind fun _ => .pure _

theorem functionTerm_halts : Halts k functionTerm :=
  (choice_tokens_halts _).bind fun _ => functionTerm_args_halts

theorem functionTerm_consumes : Consumes functionTerm :=
  (choice_tokens_consumes (by decide)).bind fun _ => functionTerm_args_halts

theorem leafTermP_halts : Halts k leafTermP := by
  apply_rules [quotedStringP_halts, predicateTerm_halts, functionTerm_halts, Halts.alt, Halts.map,
    lexeme_halts, Halts.seqLeft, Halts.seqRight, Halts.string]

theorem leafTermP_consumes : Consumes leafTermP := by
  refine .alt ?_ (.alt ?_ (.alt predicateTerm_consumes functionTerm_consumes)) <;>
    refine .map _ (lexeme_consumes (.seqLeft (.seqRight (.seqRight (.string (by decide)) ?_) ?_) ?_)) <;>
    apply_rules [quotedStringP_halts, Halts.seqRight, lexeme_halts, Halts.string]

omit [Unicode] in
theorem combinedLoop_halts {simple : Parser Term} (hs : Halts k simple) :
    ∀ n acc, Halts (min n k) (combinedLoop simple n acc)
  | 0, _ => Halts.diverge.mono (by simp)
  | n + 1, acc => by
    have ih := combinedLoop_halts hs n
    constructor
    · intro s a r h
      obtain ⟨o, r', h₁, h₂⟩ := Outcome.bind_eq_success.mp h
      rcases boolOpOrNone_eq_success h₁ with ⟨rfl, rfl⟩ | ⟨ho, hlt⟩
      · cases h₂; rfl
      · obtain ⟨op, rfl⟩ := Option.isSome_iff_exists.mp ho
        obtain ⟨right, r'', h₃, h₄⟩ := Outcome.bind_eq_success.mp h₂
        have := (ih _).shrinks h₄
        have := hs.shrinks h₃
        omega
    · intro s hlt h
      rcases Outcome.bind_eq_diverge.mp h with h | ⟨o, r', h₁, h₂⟩
      · exact boolOpOrNone_halts.halts s (Nat.lt_succ_self _) h
      rcases boolOpOrNone_eq_success h₁ with ⟨rfl, rfl⟩ | ⟨ho, hlt'⟩
      · cases h₂
      · obtain ⟨op, rfl⟩ := Option.isSome_iff_exists.mp ho
        rcases Outcome.bind_eq_diverge.mp h₂ with h | ⟨right, r'', h₃, h₄⟩
        · exact hs.halts r' (by omega) h
        · have := hs.shrinks h₃
          exact (ih _).halts r'' (by omega) h₄

omit [Unicode] in
theorem combinedTermWith_halts {simple : Parser Term} (hs : Halts k simple) :
    Halts k (combinedTermWith simple) :=
  hs.bind fun left => .withFuel fun n => combinedLoop_halts hs n left

omit [Unicode] in
theorem combinedTermWith_consumes {simple : Parser Term} (hs : Halts 0 simple)
    (hc : Consumes simple) : Consumes (combinedTermWith simple) :=
  hc.bind fun left => .withFuel fun n => combinedLoop_halts hs n left

theorem simpleTermWith_halts {inner : Parser Term} (h : Halts k inner) :
    Halts (k + 1) (simpleTermWith inner) :=
  (((token_halts _).seqRight_consumes lparenP_consumes h).seqLeft (token_halts _)).alt
    leafTermP_halts

theorem simpleTermWith_consumes {inner : Parser Term} (h : Halts 0 inner) :
    Consumes (simpleTermWith inner) :=
  ((lparenP_consumes.seqRight h).seqLeft (token_halts _)).alt leafTermP_consumes

theorem combinedFuel_halts : ∀ n, Halts (n + 1) (combinedFuel n)
  | 0 => combinedTermWith_halts (simpleTermWith_halts .diverge)
  | n + 1 => combinedTermWith_halts (simpleTermWith_halts (combinedFuel_halts n))

theorem combinedFuel_consumes : ∀ n, Consumes (combinedFuel n)
  | 0 => combinedTermWith_consumes ((simpleTermWith_halts .diverge).mono (Nat.zero_le _))
      (simpleTermWith_consumes .diverge)
  | n + 1 => combinedTermWith_consumes
      ((simpleTermWith_halts (combinedFuel_halts n)).mono (Nat.zero_le _))
      (simpleTermWith_consumes ((combinedFuel_halts n).mono (Nat.zero_le _)))

theorem combinedTerm_halts : Halts k combinedTerm :=
  .withFuel fun n => (combinedFuel_halts n).mono (by omega)

theorem simpleTermP_halts : Halts k simpleTermP :=
  (simpleTermWith_halts (combinedTerm_halts : Halts k _)).mono (by omega)

theorem termParser_halts : Halts k termParser :=
  combinedTerm_halts.alt simpleTermP_halts

theorem termParser_consumes : Consumes termParser :=
  (Consumes.withFuel combinedFuel_consumes).alt (simpleTermWith_consumes combinedTerm_halts)

end Terms

section Parts

theorem rangeParser_halts : Halts k rangeParser :=
  (token_halts _).bind fun _ => integerP_halts.bind fun _ =>
    ((token_halts _).alt ((token_halts _).alt (token_halts _))).optional.bind fun _ =>
    integerP_halts.optional.bind fun _ => (token_halts _).bind fun _ => .pure _

theorem navigationParser_halts : Halts k navigationParser := by
  have edge : Halts k edgeDefinition :=
    literalP_halts.optional.bind fun _ => rangeParser_halts.optional.bind fun _ => .pure _
  exact (lexeme_halts (((Halts.string _).seqRight edge).seqLeft (.string _)) |>.map _).alt
    ((lexeme_halts (((Halts.string _).seqRight edge).seqLeft (.string _)) |>.map _).alt
      (lexeme_halts (((Halts.string _).seqRight edge).seqLeft (.string _)) |>.map _))

-- What `part_parser` parses after the term.
theorem partParser_tail_halts {term : Term} :
    Halts k (do
      let _ ← whitespace
      let nav ← (some <$> navigationParser) <|> success none
      let pinned ← pinParser
      pure (QueryModel.Part.mk term pinned nav)) :=
  whitespace_halts.bind fun _ => ((navigationParser_halts.map _).alt (.success _)).bind fun _ =>
    ((token_halts _).optional.map _).bind fun _ => .pure _

theorem partParser_halts : Halts k partParser :=
  termParser_halts.bind fun _ => partParser_tail_halts

theorem partParser_consumes : Consumes partParser :=
  termParser_consumes.bind fun _ => partParser_tail_halts

theorem queryParser_halts (E : EdgeType) : Halts k (queryParser E) :=
  preambleP_halts.optional.bind fun _ => (partParser_halts.many partParser_consumes).bind fun _ =>
    .ite (Halts.raise.bind fun _ => .pure _) ((Halts.pure _).bind fun _ => .pure _)

theorem parseQuery_terminates (E : EdgeType) (query : PyStr) : parseQuery E query ≠ .diverge :=
  ((queryParser_halts E).seqLeft .eof).halts query (Nat.lt_succ_self _)

end Parts

end QueryParser
