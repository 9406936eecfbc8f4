import Cloudkeeper.Query.Theorems.Navigation

/-! What the parser accepts is well formed: every term of a query `parse_query` returns names
property paths as `variableP` reads them, and only the operators, functions and connectives the
grammar lists, however deeply the terms nest. -/

namespace QueryModel

open QueryParser

-- A property path as `variableP` reads it: `[A-Za-z][A-Za-z0-9.*\[\]]*`.
def IsVariable (w : PyStr) : Prop :=
  ∃ c t, w = c :: t ∧ isAsciiLetter c ∧ ∀ x ∈ t, isVariableChar x

/-- A term the parser can build: predicates and function calls on property paths, with an operator
of `operationP` and a function of `functionP`, joined by `and` and `or`. -/
def Term.WellFormed : Term → Prop
  | .predicate name op _ => IsVariable name ∧ op ∈ operations
  | .combined left op right => left.WellFormed ∧ (op = "and" ∨ op = "or") ∧ right.WellFormed
  | .isInstance _ | .id _ => True
  | .function fn name _ => fn ∈ functions ∧ IsVariable name

end QueryModel

namespace QueryParser

open QueryModel Parser

theorem variableP_yields : Yields variableP IsVariable := lexeme_yields fun _ _ _ h => by
  obtain ⟨c, t, rfl, hc, rfl, rfl⟩ := regex_eq_success.mp h
  exact ⟨c, _, rfl, hc, fun _ hx => List.mem_takeWhile_imp hx⟩

theorem choice_tokens_yields (ts : List PyStr) :
    Yields (choice (ts.map fun a => lexeme (string a))) (· ∈ ts) :=
  Yields.choice fun _ h => by
    obtain ⟨t, ht, rfl⟩ := List.mem_map.mp h
    exact lexeme_yields ((Yields.string t).mono fun _ h => h ▸ ht)

theorem boolOpP_yields : Yields boolOpP fun op => op = "and" ∨ op = "or" :=
  lexeme_yields (((Yields.string _).mono fun _ => .inl).alt ((Yields.string _).mono fun _ => .inr))

theorem backfill_term (et : PyStr) (p : QueryModel.Part) : (backfill et p).term = p.term := by
  unfold backfill
  split
  · split <;> rfl
  · rfl

theorem combinedLoop_yields {simple : Parser Term} (hs : Yields simple Term.WellFormed) :
    ∀ n t, t.WellFormed → Yields (combinedLoop simple n t) Term.WellFormed
  | 0, _, _ => Yields.diverge
  | n + 1, _, ht => boolOpP_yields.optional.bind fun o ho => match o, ho with
    | none, _ => .pure ht
    | some _, ho => hs.bind fun _ hr => combinedLoop_yields hs n _ ⟨ht, ho _ rfl, hr⟩

theorem combinedTermWith_yields {simple : Parser Term} (hs : Yields simple Term.WellFormed) :
    Yields (combinedTermWith simple) Term.WellFormed :=
  hs.bind fun left hl => Yields.withFuel fun n => combinedLoop_yields hs n left hl

section Terms

variable [Unicode]

theorem leafTermP_yields : Yields leafTermP Term.WellFormed :=
  (Yields.trivial.map fun _ _ => trivial).alt ((Yields.trivial.map fun _ _ => trivial).alt
    ((variableP_yields.bind fun _ hn => (choice_tokens_yields _).bind fun _ ho =>
        Yields.trivial.bind fun _ _ => .pure ⟨hn, ho⟩).alt
      ((choice_tokens_yields _).bind fun _ hf => Yields.trivial.bind fun _ _ =>
        variableP_yields.bind fun _ hn => Yields.trivial.bind fun _ _ =>
          Yields.trivial.bind fun _ _ => .pure ⟨hf, hn⟩)))

theorem simpleTermWith_yields {inner : Parser Term} (hi : Yields inner Term.WellFormed) :
    Yields (simpleTermWith inner) Term.WellFormed :=
  hi.seqRight.seqLeft.alt leafTermP_yields

theorem combinedFuel_yields : ∀ n, Yields (combinedFuel n) Term.WellFormed
  | 0 => combinedTermWith_yields (simpleTermWith_yields Yields.diverge)
  | n + 1 => combinedTermWith_yields (simpleTermWith_yields (combinedFuel_yields n))

theorem termParser_yields : Yields termParser Term.WellFormed :=
  (Yields.withFuel combinedFuel_yields).alt (simpleTermWith_yields (Yields.withFuel combinedFuel_yields))

theorem queryParser_terms_yields (E : EdgeType) :
    Yields (queryParser E) fun q => ∀ p ∈ q.parts, p.term.WellFormed :=
  have part : Yields partParser fun p => p.term.WellFormed :=
    termParser_yields.bind fun _ ht => Yields.trivial.bind fun _ _ => Yields.trivial.bind fun _ _ =>
      Yields.trivial.bind fun _ _ => .pure ht
  Yields.trivial.bind fun _ _ => part.many.bind fun parts hparts => by
    dsimp only
    split
    case isTrue => exact fun _ _ _ h => by simp at h
    case isFalse =>
      refine .pure fun p hp => ?_
      obtain ⟨p, hp', rfl⟩ := List.mem_map.mp (List.mem_reverse.mp hp)
      rw [backfill_term]
      exact hparts p hp'

/-- Every term of a query `parse_query` returns is well formed. -/
theorem parseQuery_wellFormed {E : EdgeType} {s : PyStr} {q : Query} (h : parseQuery E s = .success q []) :
    ∀ p ∈ q.parts, p.term.WellFormed :=
  (queryParser_terms_yields E).seqLeft h

end Terms

theorem parseQuery_wellFormed_or :
    @parseQuery Unicode.latin1 EdgeType.defaultOnly "a.b != 1 or c < 2" =
        .success ⟨[⟨.combined (.predicate "a.b" "!=" (.int 1)) "or" (.predicate "c" "<" (.int 2)), false, none⟩]⟩ [] ∧
      ∀ p ∈ ([⟨.combined (.predicate "a.b" "!=" (.int 1)) "or" (.predicate "c" "<" (.int 2)), false, none⟩] :
        List QueryModel.Part), p.term.WellFormed :=
  have h : @parseQuery Unicode.latin1 EdgeType.defaultOnly "a.b != 1 or c < 2" =
      .success ⟨[⟨.combined (.predicate "a.b" "!=" (.int 1)) "or" (.predicate "c" "<" (.int 2)), false, none⟩]⟩ [] :=
    rfl
  ⟨h, @parseQuery_wellFormed Unicode.latin1 _ _ _ h⟩

end QueryParser
