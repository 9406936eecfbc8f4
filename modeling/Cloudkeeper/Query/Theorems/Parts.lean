import Cloudkeeper.Query.Theorems.Terms

/-! The parts of a sentence read back: ranges, arrows and pins, each part, and the run of parts
that makes up a query. -/

namespace Sentence

open QueryModel

-- The navigation an arrow writes, before the query's edge type fills in a missing one.
def Arrow.written (a : Arrow) : Navigation :=
  let hops := (a.range.map Range.hops).getD (1, 1)
  ⟨hops.1, hops.2, a.edgeType.map Word.text, a.direction⟩

def PartText.written (p : PartText) : QueryModel.Part :=
  ⟨p.term.denote, p.pinned, p.arrow.map Arrow.written⟩

end Sentence

namespace QueryParser

open Parser QueryModel Sentence

-- What may follow a part: nothing, or spaces and then a text that begins no navigation and no pin,
-- and, after a part with neither, no `and` or `or`.
def PartStop (p : PartText) (rest : PyStr) : Prop :=
  (∀ c ∈ rest.head?, c = 32) ∧ (∀ c ∈ (rest.dropWhile isspace).head?, c ≠ 45 ∧ c ≠ 60 ∧ c ≠ 43) ∧
    (p.arrow = none → p.pinned = false → ¬StartsWithBoolOp (rest.dropWhile isspace))

theorem rangeSep_text (sep : RangeSep) (rest : PyStr) :
    (colonP <|> commaP <|> dotdotP) (sep.text ++ rest) = .success sep.text (rest.dropWhile isspace) := by
  cases sep <;> rfl

section Ranges

variable [Unicode] {rest : PyStr}

theorem integerP_optional_rbrack (rest : PyStr) :
    integerP.optional (93 :: rest) = .success none (93 :: rest) := by
  have h : Unicode.isdigit 93 = false := isdigit_ascii (by decide) (by decide)
  simp only [Parser.optional, alt_apply, map_apply, integerP_nondigit h, Outcome.map_failure,
    Outcome.orElse_failure, success_apply]

theorem rangeParser_text (r : Range) (rest : PyStr) :
    rangeParser (r.text ++ rest) = .success r.hops (rest.dropWhile isspace) := by
  have hclose : rbrackP (93 :: rest) = .success "]" (rest.dropWhile isspace) :=
    lexeme_string_append "]" (by decide)
  have hopen (n : Numeral) (s : PyStr) : lbrackP (91 :: (n.text ++ s)) = .success "[" (n.text ++ s) :=
    lexeme_string_cons (by decide) (isspace_head_of_dropWhile (Numeral.dropWhile_text n s))
  have hstop : ∀ c ∈ (93 :: rest).head?, Unicode.isdigit c = false := fun c hc => by
    cases Option.some.inj hc; exact isdigit_ascii (by decide) (by decide)
  match r with
  | .exact n =>
    have hnone : (colonP <|> commaP <|> dotdotP).optional (93 :: rest) = .success none (93 :: rest) := rfl
    have h : (Range.exact n).text ++ rest = 91 :: (n.text ++ 93 :: rest) := by
      simp only [Range.text, List.append_assoc]
      rfl
    simp only [rangeParser, h, bind_apply, hopen, integerP_numeral n hstop, hnone, integerP_optional_rbrack,
      hclose, Outcome.bind_success]
    rfl
  | .bounded n sep m =>
    have h : (Range.bounded n sep m).text ++ rest = 91 :: (n.text ++ (sep.text ++ (m.text ++ 93 :: rest))) := by
      simp only [Range.text, List.append_assoc]
      rfl
    have hsep : ∀ c ∈ (sep.text ++ (m.text ++ 93 :: rest)).head?, Unicode.isdigit c = false := by
      cases sep <;> exact fun c hc => by cases Option.some.inj hc; exact isdigit_ascii (by decide) (by decide)
    have hsome : (colonP <|> commaP <|> dotdotP).optional (sep.text ++ (m.text ++ 93 :: rest)) =
        .success (some sep.text) (m.text ++ 93 :: rest) := by
      rw [Parser.optional, alt_apply, map_apply, rangeSep_text, Numeral.dropWhile_text]
      rfl
    have hm : integerP.optional (m.text ++ 93 :: rest) = .success (some m.value) (93 :: rest) := by
      simp only [Parser.optional, alt_apply, map_apply, integerP_numeral m hstop, Outcome.map_success,
        Outcome.orElse_success]
    simp only [rangeParser, h, bind_apply, hopen, integerP_numeral n hsep, hsome, hm, hclose,
      Outcome.bind_success]
    rfl
  | .atLeast n sep =>
    have h : (Range.atLeast n sep).text ++ rest = 91 :: (n.text ++ (sep.text ++ 93 :: rest)) := by
      simp only [Range.text, List.append_assoc]
      rfl
    have hsep : ∀ c ∈ (sep.text ++ 93 :: rest).head?, Unicode.isdigit c = false := by
      cases sep <;> exact fun c hc => by cases Option.some.inj hc; exact isdigit_ascii (by decide) (by decide)
    have hsome : (colonP <|> commaP <|> dotdotP).optional (sep.text ++ 93 :: rest) =
        .success (some sep.text) (93 :: rest) := by
      rw [Parser.optional, alt_apply, map_apply, rangeSep_text]
      rfl
    simp only [rangeParser, h, bind_apply, hopen, integerP_numeral n hsep, hsome, integerP_optional_rbrack,
      hclose, Outcome.bind_success]
    rfl

end Ranges

theorem Arrow.head_text (a : Arrow) (s : PyStr) : ∀ c ∈ (a.text ++ s).head?, c = 45 ∨ c = 60 := by
  obtain ⟨_, _, dir⟩ := a
  cases dir <;> exact fun c hc => by cases Option.some.inj hc; simp

theorem Arrow.dropWhile_text (a : Arrow) (s : PyStr) : (a.text ++ s).dropWhile isspace = a.text ++ s :=
  dropWhile_isspace_eq_self fun c hc => by rcases Arrow.head_text a s c hc with rfl | rfl <;> rfl

theorem pinParser_plus (rest : PyStr) : pinParser (43 :: rest) = .success true (rest.dropWhile isspace) := by
  have h : lexeme (string "+") (43 :: rest) = .success "+" (rest.dropWhile isspace) :=
    lexeme_string_append "+" (by decide)
  simp only [pinParser, map_apply, Parser.optional, alt_apply, h, Outcome.map_success,
    Outcome.orElse_success]
  rfl

theorem pinParser_none {s : PyStr} (hs : ∀ c ∈ (s.dropWhile isspace).head?, c ≠ 43) :
    pinParser s = .success false s := by
  have h : lexeme (string "+") s = .failure := lexeme_string_failure hs
  simp only [pinParser, map_apply, Parser.optional, alt_apply, h, Outcome.map_failure,
    Outcome.orElse_failure, success_apply, Outcome.map_success]
  rfl

theorem literalP_optional (et : Option Word) (range : Option Range) (rest : PyStr) :
    literalP.optional ((et.map Word.text).getD [] ++ ((range.map Range.text).getD [] ++ 45 :: rest)) =
      .success (et.map Word.text) ((range.map Range.text).getD [] ++ 45 :: rest) := by
  cases et with
  | none => rcases range with _ | (_ | _ | _) <;> rfl
  | some w =>
    have hX : ∀ c ∈ ((range.map Range.text).getD [] ++ 45 :: rest).head?,
        isAsciiAlnum c = false ∧ isspace c = false := by
      rcases range with _ | (_ | _ | _) <;> exact fun c hc => by cases Option.some.inj hc; decide
    simp only [Option.map_some', Option.getD_some, Parser.optional, alt_apply, map_apply,
      literalP_word w fun c hc => (hX c hc).1, dropWhile_isspace_eq_self fun c hc => (hX c hc).2,
      Outcome.map_success, Outcome.orElse_success]

section Arrows

variable [Unicode]

theorem arrowP_of_failure {opening closing : PyStr} {d : Direction} {s : PyStr}
    (h : string opening (s.dropWhile isspace) = .failure) : arrowP opening closing d s = .failure := by
  rw [arrowP, map_apply, lexeme_of_failure (seqLeft_of_failure (seqRight_of_failure h))]
  rfl

theorem navigationParser_failure {s : PyStr} (hs : ∀ c ∈ (s.dropWhile isspace).head?, c ≠ 45 ∧ c ≠ 60) :
    navigationParser s = .failure := by
  have h₁ : string "-" (s.dropWhile isspace) = .failure := string_failure_head fun c hc => (hs c hc).1
  have h₂ : string "<-" (s.dropWhile isspace) = .failure := string_failure_head fun c hc => (hs c hc).2
  simp only [navigationParser, outP, inP, inOutP, alt_apply, arrowP_of_failure h₁, arrowP_of_failure h₂,
    Outcome.orElse_failure]

theorem rangeParser_optional (range : Option Range) (rest : PyStr) :
    rangeParser.optional ((range.map Range.text).getD [] ++ 45 :: rest) =
      .success (range.map Range.hops) (45 :: rest) := by
  cases range with
  | none =>
    have h : rangeParser (45 :: rest) = .failure := rfl
    simp only [Option.map_none', Option.getD_none, List.nil_append, Parser.optional, alt_apply,
      map_apply, h, Outcome.map_failure, Outcome.orElse_failure, success_apply]
  | some r =>
    simp only [Option.map_some', Option.getD_some, Parser.optional, alt_apply, map_apply,
      rangeParser_text, List.dropWhile_cons_of_neg (by decide : ¬isspace 45 = true),
      Outcome.map_success, Outcome.orElse_success]

theorem edgeDefinition_text (et : Option Word) (range : Option Range) (rest : PyStr) :
    edgeDefinition ((et.map Word.text).getD [] ++ ((range.map Range.text).getD [] ++ 45 :: rest)) =
      .success (((range.map Range.hops).getD (1, 1)).1, ((range.map Range.hops).getD (1, 1)).2,
        et.map Word.text) (45 :: rest) := by
  simp only [edgeDefinition, bind_apply, literalP_optional, rangeParser_optional, Outcome.bind_success]
  rfl

-- Past an arrow's opening, edge type and range, the arrow rests on its closing.
theorem arrowP_apply (opening closing : PyStr) (d : Direction) (et : Option Word) (range : Option Range)
    (X : PyStr) (ho : ∃ o os, opening = o :: os ∧ isspace o = false) :
    arrowP opening closing d (opening ++ ((et.map Word.text).getD [] ++ ((range.map Range.text).getD [] ++ 45 :: X))) =
      (string closing (45 :: X)).bind fun _ r => .success (Arrow.written ⟨et, range, d⟩) (r.dropWhile isspace) := by
  obtain ⟨o, os, rfl, ho⟩ := ho
  rw [arrowP, map_apply, lexeme_apply, List.cons_append, List.dropWhile_cons_of_neg (by simp [ho]),
    ← List.cons_append]
  simp only [seqLeft_apply, seqRight_apply, string_append, edgeDefinition_text, Outcome.bind_success]
  cases string closing (45 :: X) <;> rfl

theorem navigationParser_text (a : Arrow) (rest : PyStr) (hr : ∀ c ∈ rest.head?, c = 32) :
    navigationParser (a.text ++ rest) = .success a.written (rest.dropWhile isspace) := by
  obtain ⟨et, range, dir⟩ := a
  have dash : ∃ o os, ("-" : PyStr) = o :: os ∧ isspace o = false := ⟨45, [], rfl, rfl⟩
  have hdash : string "-" (45 :: rest) = .success "-" rest := string_append _ rest
  cases dir with
  | outbound =>
    have h : (Arrow.mk et range .outbound).text ++ rest =
        "-" ++ ((et.map Word.text).getD [] ++ ((range.map Range.text).getD [] ++ 45 :: 62 :: rest)) := by
      simp only [Arrow.text, List.append_assoc]
      rfl
    have harrow : string "->" (45 :: 62 :: rest) = .success "->" rest := string_append _ rest
    rw [navigationParser, alt_apply, outP, h, arrowP_apply _ _ _ _ _ _ dash, harrow]
    rfl
  | inbound =>
    have h : (Arrow.mk et range .inbound).text ++ rest =
        "<-" ++ ((et.map Word.text).getD [] ++ ((range.map Range.text).getD [] ++ 45 :: rest)) := by
      simp only [Arrow.text, List.append_assoc]
      rfl
    have hout : outP ((Arrow.mk et range .inbound).text ++ rest) = .failure :=
      arrowP_of_failure (by rw [h]; rfl)
    rw [navigationParser, alt_apply, hout, Outcome.orElse_failure, alt_apply, inP, h,
      arrowP_apply "<-" _ _ _ _ _ ⟨60, [45], rfl, rfl⟩, hdash]
    rfl
  | inout =>
    have h : (Arrow.mk et range .inout).text ++ rest =
        "-" ++ ((et.map Word.text).getD [] ++ ((range.map Range.text).getD [] ++ 45 :: rest)) := by
      simp only [Arrow.text, List.append_assoc]
      rfl
    have hnot : string "->" (45 :: rest) = .failure := by
      rw [show (PyStr.ofString "->") = 45 :: [62] from rfl, string_cons_cons,
        string_failure_head fun c hc => by rw [hr c hc]; decide]
      rfl
    have hin : inP ((Arrow.mk et range .inout).text ++ rest) = .failure :=
      arrowP_of_failure (by rw [h]; rfl)
    rw [navigationParser, alt_apply, outP, h, arrowP_apply _ _ _ _ _ _ dash, hnot, Outcome.bind_failure,
      Outcome.orElse_failure, alt_apply, ← h, hin, Outcome.orElse_failure, inOutP, h,
      arrowP_apply _ _ _ _ _ _ dash, hdash]
    rfl

theorem navigationParser_optional (arrow : Option Arrow) (X : PyStr) (hX : ∀ c ∈ X.head?, c = 32)
    (hX' : arrow = none → ∀ c ∈ (X.dropWhile isspace).head?, c ≠ 45 ∧ c ≠ 60) :
    ((some <$> navigationParser <|> success none : Parser (Option Navigation))
        (((arrow.map fun a => (" " : PyStr) ++ a.text).getD [] ++ X).dropWhile isspace)) =
      .success (arrow.map Arrow.written) (X.dropWhile isspace) := by
  cases arrow with
  | none =>
    have h : navigationParser (X.dropWhile isspace) = .failure :=
      navigationParser_failure (by rw [dropWhile_isspace_idem]; exact hX' rfl)
    simp only [Option.map_none', Option.getD_none, List.nil_append, alt_apply, map_apply, h,
      Outcome.map_failure, Outcome.orElse_failure, success_apply]
  | some a =>
    have h : ((" " : PyStr) ++ a.text ++ X).dropWhile isspace = a.text ++ X := by
      rw [List.append_assoc, dropWhile_space_append, Arrow.dropWhile_text]
    simp only [Option.map_some', Option.getD_some, h, alt_apply, map_apply, navigationParser_text a X hX,
      Outcome.map_success, Outcome.orElse_success]

theorem partParser_text (p : PartText) (rest : PyStr) (hr : PartStop p rest) :
    partParser (p.text ++ rest) = .success p.written (rest.dropWhile isspace) := by
  obtain ⟨term, arrow, pinned⟩ := p
  obtain ⟨hsp, hnext, hsep⟩ := hr
  -- what follows the navigation: the pin, then `rest`
  have hX : ∀ c ∈ ((if pinned then (" +" : PyStr) else []) ++ rest).head?, c = 32 := by
    cases pinned
    · exact hsp
    · exact fun c hc => (Option.some.inj hc).symm
  have hXtrim : ((if pinned then (" +" : PyStr) else []) ++ rest).dropWhile isspace =
      if pinned then 43 :: rest else rest.dropWhile isspace := by
    cases pinned
    · rfl
    · exact (List.dropWhile_cons_of_pos (by decide)).trans (List.dropWhile_cons_of_neg (by decide))
  have hpin : pinParser (((if pinned then (" +" : PyStr) else []) ++ rest).dropWhile isspace) =
      .success pinned (rest.dropWhile isspace) := by
    cases pinned
    · show pinParser (rest.dropWhile isspace) = .success false (rest.dropWhile isspace)
      exact pinParser_none (by rw [dropWhile_isspace_idem]; exact fun c hc => (hnext c hc).2.2)
    · rw [hXtrim]
      exact pinParser_plus rest
  have hnav := navigationParser_optional arrow _ hX fun _ c hc => by
    rw [hXtrim] at hc
    cases pinned
    · exact ⟨(hnext c hc).1, (hnext c hc).2.1⟩
    · cases Option.some.inj hc; decide
  -- what follows the term: the arrow, the pin, then `rest`
  have hstop : ChainStop ((arrow.map fun a => (" " : PyStr) ++ a.text).getD [] ++
      ((if pinned then (" +" : PyStr) else []) ++ rest)) := by
    cases arrow with
    | none =>
      refine ⟨fun c hc => Or.inl (hX c hc), ?_⟩
      simp only [Option.map_none', Option.getD_none, List.nil_append, hXtrim]
      cases pinned
      · exact hsep rfl rfl
      · exact not_startsWithBoolOp_of_head fun c hc => by cases Option.some.inj hc; decide
    | some a =>
      refine ⟨fun c hc => Or.inl (Option.some.inj hc).symm, ?_⟩
      rw [Option.map_some', Option.getD_some, List.append_assoc, dropWhile_space_append,
        Arrow.dropWhile_text]
      exact not_startsWithBoolOp_of_head fun c hc => by
        rcases Arrow.head_text a _ c hc with rfl | rfl <;> decide
  obtain ⟨r, hterm, hr⟩ := termParser_text term _ hstop
  simp only [partParser, PartText.text, List.append_assoc, bind_apply, hterm, whitespace_apply, hr,
    hnav, hpin, Outcome.bind_success]
  rfl

end Arrows

section Sentences

variable {rest : PyStr}

theorem Simple.text_ne_nil (x : Simple) : x.text ≠ [] := by
  match x with
  | .predicate _ _ _ => rw [← List.append_nil (Simple.text _), Simple.predicate_text]; exact List.cons_ne_nil _ _
  | .paren _ | .isInstance _ | .id _ | .function .inSubnet _ _ | .function .hasDesiredChange _ _ =>
    exact List.cons_ne_nil _ _

theorem Simple.three_le_length (x : Simple) : 3 ≤ x.text.length := by
  have hp : (PyStr.ofString "(").length = 1 ∧ (PyStr.ofString ")").length = 1 ∧
      (PyStr.ofString " ").length = 1 := ⟨rfl, rfl, rfl⟩
  match x with
  | .paren ⟨head, tail⟩ =>
    have := List.length_pos.mpr (Simple.text_ne_nil head)
    simp only [Simple.text, Chain.text, List.length_append]
    omega
  | .predicate name _ _ =>
    have : name.text.length = name.rest.length + 1 := rfl
    simp only [Simple.text, List.length_append]
    omega
  | .isInstance _ | .id _ | .function .inSubnet _ _ | .function .hasDesiredChange _ _ =>
    exact Nat.le_add_left _ _

theorem PartText.text_append (p : PartText) (s : PyStr) : ∃ (x : Simple) (t : PyStr), p.text ++ s = x.text ++ t := by
  obtain ⟨⟨head, tail⟩, arrow, pinned⟩ := p
  exact ⟨head, tail.text ++ ((arrow.map fun a => (" " : PyStr) ++ a.text).getD [] ++
    ((if pinned then (" +" : PyStr) else []) ++ s)), by simp only [PartText.text, Chain.text, List.append_assoc]⟩

theorem PartText.three_le_length (p : PartText) : 3 ≤ p.text.length := by
  obtain ⟨x, t, h⟩ := PartText.text_append p []
  have := Simple.three_le_length x
  rw [List.append_nil] at h
  simp only [h, List.length_append]
  omega

theorem PartText.head_text (p : PartText) (s : PyStr) :
    ∀ c ∈ (p.text ++ s).head?, isspace c = false ∧ c ≠ 45 ∧ c ≠ 60 ∧ c ≠ 43 ∧ c ≠ 58 := by
  obtain ⟨x, t, h⟩ := PartText.text_append p s
  rw [h]
  match x with
  | .predicate name op value =>
    rw [Simple.predicate_text]
    intro c hc
    cases Option.some.inj hc
    have := name.letter
    simp only [isAsciiLetter, Bool.or_eq_true, Bool.and_eq_true, decide_eq_true_eq] at this
    exact ⟨isspace_of_letter name.letter, by omega, by omega, by omega, by omega⟩
  | .paren _ | .isInstance _ | .id _ | .function .inSubnet _ _ | .function .hasDesiredChange _ _ =>
    exact fun c hc => by cases Option.some.inj hc; decide

theorem not_startsWithBoolOp_append {t : PyStr} (u : PyStr) (ht : 3 ≤ t.length)
    (h : ¬StartsWithBoolOp t) : ¬StartsWithBoolOp (t ++ u) := by
  rintro (h' | h')
  · exact h (Or.inl (List.prefix_of_prefix_length_le h' (List.prefix_append t u) ht))
  · exact h (Or.inr (List.prefix_of_prefix_length_le h' (List.prefix_append t u) (Nat.le_of_succ_le ht)))

theorem partsText_cons_cons (p q : PartText) (ps : List PartText) :
    partsText (p :: q :: ps) = p.text ++ " " ++ partsText (q :: ps) := rfl

theorem partsText_head : ∀ (ps : List PartText), ps ≠ [] →
    ∀ c ∈ (partsText ps).head?, isspace c = false ∧ c ≠ 45 ∧ c ≠ 60 ∧ c ≠ 43 ∧ c ≠ 58
  | [p], _ => by simpa [partsText] using PartText.head_text p []
  | p :: q :: ps, _ => by
    rw [partsText_cons_cons, List.append_assoc]
    exact PartText.head_text p _

theorem partsText_length : ∀ ps : List PartText, ps.length ≤ (partsText ps).length
  | [] => le_refl 0
  | [p] => by have := PartText.three_le_length p; simp only [partsText, List.length_singleton]; omega
  | p :: q :: ps => by
    have := partsText_length (q :: ps)
    have := PartText.three_le_length p
    simp only [partsText_cons_cons, List.length_append, List.length_cons] at *
    omega

-- Two parts in a row: the first can't read on into the second.
theorem partStop_of_separated (p q : PartText) (ps : List PartText) (h : Separated p q) :
    PartStop p (" " ++ partsText (q :: ps)) := by
  have hhead := partsText_head (q :: ps) (List.cons_ne_nil _ _)
  have htrim : ((" " : PyStr) ++ partsText (q :: ps)).dropWhile isspace = partsText (q :: ps) := by
    rw [dropWhile_space_append, dropWhile_isspace_eq_self fun c hc => (hhead c hc).1]
  refine ⟨fun c hc => (Option.some.inj hc).symm, fun c hc => ?_, fun ha hp => ?_⟩
  · rw [htrim] at hc
    exact ⟨(hhead c hc).2.1, (hhead c hc).2.2.1, (hhead c hc).2.2.2.1⟩
  · rw [htrim]
    cases ps with
    | nil => exact h ha hp
    | cons r ps =>
      rw [partsText_cons_cons, List.append_assoc]
      exact not_startsWithBoolOp_append _ (PartText.three_le_length q) (h ha hp)

theorem partStop_nil (p : PartText) : PartStop p [] :=
  ⟨fun _ h => (nomatch h), fun _ h => (nomatch h),
    fun _ _ => not_startsWithBoolOp_of_head fun _ h => (nomatch h)⟩

end Sentences

section Preambles

variable {Y : PyStr}

-- A keyword with a character no word has does not begin a word and the space after it.
theorem string_word_failure {Q : Nat → Bool} :
    ∀ (W k : PyStr), (∀ c ∈ W, Q c = true) → (∀ c ∈ k, isspace c = false) → (∃ c ∈ k, Q c = false) →
      string k (W ++ 32 :: Y) = .failure
  | _, [], _, _, ⟨_, h, _⟩ => nomatch h
  | [], a :: _, _, hk, _ => string_cons_ne fun h => by
      subst h
      exact absurd (hk 32 (List.mem_cons_self _ _)) (by decide)
  | w :: W, a :: k, hW, hk, ⟨c, hc, hQ⟩ => by
    by_cases hwa : w = a
    · subst hwa
      have hck : c ∈ k := by
        rcases List.mem_cons.mp hc with rfl | hc
        · simp [hW c (List.mem_cons_self _ _)] at hQ
        · exact hc
      rw [List.cons_append, string_cons_cons, string_word_failure W k
        (fun c h => hW c (List.mem_cons_of_mem _ h)) (fun c h => hk c (List.mem_cons_of_mem _ h)) ⟨c, hck, hQ⟩]
      rfl
    · exact string_cons_ne hwa

theorem Word.dropWhile_text (w : Word) (s : PyStr) : (w.text ++ s).dropWhile isspace = w.text ++ s :=
  List.dropWhile_cons_of_neg (by simp [isspace_of_letter w.letter])

theorem preamblePropP_part (p : PartText) (s : PyStr) : preamblePropP (p.text ++ s) = .failure := by
  obtain ⟨x, t, h⟩ := PartText.text_append p s
  rw [h]
  refine lexeme_of_failure ?_
  rw [Simple.dropWhile_text]
  match x with
  | .predicate name op value =>
    rw [Simple.predicate_text]
    exact @string_word_failure _ isVariableChar name.text _ (fun c hc => by
      rcases List.mem_cons.mp hc with rfl | hc
      · simp [isVariableChar, isAsciiAlnum, name.letter]
      · exact name.chars c hc) (by decide) ⟨95, by decide, rfl⟩
  | .paren _ | .isInstance _ | .id _ | .function .inSubnet _ _ | .function .hasDesiredChange _ _ => rfl

theorem partsText_append :
    ∀ ps : List PartText, ps ≠ [] → ∃ (p : PartText) (t : PyStr), partsText ps = p.text ++ t
  | [p], _ => ⟨p, [], (List.append_nil _).symm⟩
  | p :: q :: ps, _ => ⟨p, _, (partsText_cons_cons p q ps).trans (List.append_assoc _ _ _)⟩

theorem preambleP_part (ps : List PartText) (hps : ps ≠ []) :
    preambleP.optional (partsText ps) = .success none (partsText ps) := by
  obtain ⟨p, t, h⟩ := partsText_append ps hps
  have hval : preambleValueParser (partsText ps) = .failure := by
    rw [preambleValueParser, bind_apply, h, preamblePropP_part]
    rfl
  have hcolon : colonP (partsText ps) = .failure := by
    refine lexeme_string_failure fun c hc => ?_
    have hhead := partsText_head ps hps
    rw [dropWhile_isspace_eq_self fun c hc => (hhead c hc).1] at hc
    exact (hhead c hc).2.2.2.2
  simp only [Parser.optional, preambleP, alt_apply, map_apply, seqLeft_apply, sepBy_of_failure hval,
    Outcome.bind_success, hcolon, Outcome.map_failure, Outcome.orElse_failure, success_apply]

theorem preambleP_word (w : Word) (P : PyStr) (hP : ∀ c ∈ P.head?, isspace c = false) :
    preambleP.optional (("edge_type=" : PyStr) ++ w.text ++ ": " ++ P) =
      .success (some [("edge_type", w.text)]) P := by
  have htext : ("edge_type=" : PyStr) ++ w.text ++ ": " ++ P =
      "edge_type=" ++ (w.text ++ 58 :: 32 :: P) := by
    simp only [List.append_assoc]
    rfl
  have hkey : preamblePropP ("edge_type=" ++ (w.text ++ 58 :: 32 :: P)) =
      .success "edge_type" ("=" ++ (w.text ++ 58 :: 32 :: P)) := rfl
  have heq : equalsP ("=" ++ (w.text ++ 58 :: 32 :: P)) = .success "=" (w.text ++ 58 :: 32 :: P) := by
    rw [equalsP, lexeme_string_append "=" (by decide), Word.dropWhile_text]
  have hletter := w.letter
  simp only [isAsciiLetter, Bool.or_eq_true, Bool.and_eq_true, decide_eq_true_eq] at hletter
  have hval : (quotedStringP <|> literalP) (w.text ++ 58 :: 32 :: P) = .success w.text (58 :: 32 :: P) := by
    rw [alt_apply, Word.text, List.cons_append,
      quotedStringP_cons_ne (isspace_of_letter w.letter) (by omega), Outcome.orElse_failure,
      ← List.cons_append, ← Word.text, literalP_word w fun c hc => by cases Option.some.inj hc; rfl]
    rfl
  have hfirst : preambleValueParser ("edge_type=" ++ (w.text ++ 58 :: 32 :: P)) =
      .success ("edge_type", w.text) (58 :: 32 :: P) := by
    simp only [preambleValueParser, bind_apply, hkey, heq, hval, Outcome.bind_success]
    rfl
  have hmany : (commaP *> preambleValueParser).many (58 :: 32 :: P) = .success [] (58 :: 32 :: P) := by
    rw [many, withFuel_apply]
    exact manyLoop_succ_failure rfl
  have hcolon : colonP (58 :: 32 :: P) = .success ":" P := by
    rw [colonP, show (58 :: 32 :: P : PyStr) = ":" ++ 32 :: P from rfl, lexeme_string_append ":" (by decide),
      List.dropWhile_cons_of_pos (by decide), dropWhile_isspace_eq_self hP]
  simp only [htext, Parser.optional, preambleP, alt_apply, map_apply, seqLeft_apply,
    sepBy_of_success hfirst hmany, Outcome.bind_success, hcolon, Outcome.map_success,
    Outcome.orElse_success]

end Preambles

section Queries

variable [Unicode]

theorem partParser_nil : partParser [] = .failure := rfl

theorem manyLoop_parts : ∀ (ps : List PartText) (fuel : Nat), ps.Chain' Separated → ps.length < fuel →
    partParser.manyLoop fuel (partsText ps) = .success (ps.map PartText.written) []
  | [], _ + 1, _, _ => manyLoop_succ_failure partParser_nil
  | [p], fuel + 1, _, hlen => by
    have h : partParser (partsText [p]) = .success p.written [] := by
      simpa using partParser_text p [] (partStop_nil p)
    obtain _ | fuel := fuel
    · simp at hlen
    · rw [manyLoop_succ_success h, manyLoop_succ_failure partParser_nil]
      rfl
  | p :: q :: ps, fuel + 1, hsep, hlen => by
    have hhead := partsText_head (q :: ps) (List.cons_ne_nil _ _)
    have h : partParser (partsText (p :: q :: ps)) = .success p.written (partsText (q :: ps)) := by
      rw [partsText_cons_cons, List.append_assoc,
        partParser_text p _ (partStop_of_separated p q ps (List.chain'_cons.mp hsep).1),
        dropWhile_space_append, dropWhile_isspace_eq_self fun c hc => (hhead c hc).1]
    rw [manyLoop_succ_success h,
      manyLoop_parts (q :: ps) fuel (List.chain'_cons.mp hsep).2 (by simp only [List.length_cons] at hlen ⊢; omega)]
    rfl

end Queries

end QueryParser
