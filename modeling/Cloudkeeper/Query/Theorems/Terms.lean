import Cloudkeeper.Query.Theorems.Values

/-! The terms of a sentence read back: `termParser` reads the text of every term chain as the
`Term` it denotes, and stops before what may follow a term in a sentence. -/

namespace QueryParser

open Parser QueryModel Sentence

-- What may follow a simple term: a space, `)`, or nothing.
def SimpleStop (rest : PyStr) : Prop :=
  ∀ c ∈ rest.head?, c = 32 ∨ c = 41

-- What may follow a whole term: as after a simple term, and no `and` or `or` after the spaces.
def ChainStop (rest : PyStr) : Prop :=
  SimpleStop rest ∧ ¬StartsWithBoolOp (rest.dropWhile isspace)

section Keywords

variable {rest s : PyStr}

theorem SimpleStop.valueStop (h : SimpleStop rest) : ValueStop rest := fun c hc => by
  rcases h c hc with h | h <;> simp [h]

theorem not_startsWithBoolOp_of_head (h : ∀ c ∈ s.head?, c ≠ 97 ∧ c ≠ 111) : ¬StartsWithBoolOp s := by
  rintro (⟨u, hu⟩ | ⟨u, hu⟩) <;> subst hu
  · exact (h 97 rfl).1 rfl
  · exact (h 111 rfl).2 rfl

theorem ChainStop.rparen (rest : PyStr) : ChainStop (41 :: rest) := by
  refine ⟨fun c hc => Or.inr (Option.some.inj hc).symm, ?_⟩
  rw [List.dropWhile_cons_of_neg (by decide)]
  exact not_startsWithBoolOp_of_head fun c hc => by cases Option.some.inj hc; decide

theorem isspace_of_variableChar {c : Nat} (h : isVariableChar c = true) :
    isspace c = false ∧ c ≠ 40 := by
  simp only [isVariableChar, isAsciiAlnum, isAsciiLetter, Bool.or_eq_true, Bool.and_eq_true,
    decide_eq_true_eq, beq_iff_eq] at h
  simp only [isspace, Bool.or_eq_false_iff, Bool.and_eq_false_iff, decide_eq_false_iff_not,
    beq_eq_false_iff_ne]
  omega

theorem Name.word (n : Name) : ∀ c ∈ n.text, isspace c = false ∧ c ≠ 40 := by
  rintro c (_ | ⟨_, hc⟩)
  · exact isspace_of_variableChar (by simp [isVariableChar, isAsciiAlnum, n.letter])
  · exact isspace_of_variableChar (n.chars c hc)

theorem Name.dropWhile_text (n : Name) (s : PyStr) :
    (n.text ++ s).dropWhile isspace = n.text ++ s :=
  List.dropWhile_cons_of_neg (by simp [isspace_of_letter n.letter])

theorem Op.head_text (op : Op) (s : PyStr) :
    ∀ c ∈ (op.text ++ s).head?, isspace c = false ∧ c ≠ 40 := by
  obtain ⟨t, ht⟩ := op
  simp only [operations, List.mem_cons, List.mem_singleton, List.not_mem_nil, or_false] at ht
  rcases ht with rfl | rfl | rfl | rfl | rfl | rfl | rfl | rfl | rfl | rfl <;>
    exact fun c hc => by cases Option.some.inj hc; decide

theorem Op.dropWhile_text (op : Op) (s : PyStr) :
    (op.text ++ s).dropWhile isspace = op.text ++ s :=
  dropWhile_isspace_eq_self fun c hc => (Op.head_text op s c hc).1

theorem operationP_op (op : Op) (s : PyStr) :
    operationP (op.text ++ 32 :: s) = .success op.text (s.dropWhile isspace) := by
  obtain ⟨t, ht⟩ := op
  simp only [operations, List.mem_cons, List.mem_singleton, List.not_mem_nil, or_false] at ht
  rcases ht with rfl | rfl | rfl | rfl | rfl | rfl | rfl | rfl | rfl | rfl <;> rfl

theorem boolOpP_op (op : BoolOp) (s : PyStr) :
    boolOpP (op.text ++ 32 :: s) = .success op.text (s.dropWhile isspace) := by
  cases op <;> rfl

theorem boolOpP_failure (h : ¬StartsWithBoolOp (s.dropWhile isspace)) : boolOpP s = .failure :=
  lexeme_of_failure (by
    rw [alt_apply, string_of_not_prefix (not_or.mp h).1, string_of_not_prefix (not_or.mp h).2]
    rfl)

theorem functionP_fn (fn : Fn) (s : PyStr) : functionP (fn.text ++ 40 :: s) = .success fn.text (40 :: s) := by
  cases fn <;> rfl

theorem lparenP_cons (hs : ∀ c ∈ s.head?, isspace c = false) : lparenP (40 :: s) = .success "(" s :=
  lexeme_string_cons (by decide) hs

theorem Simple.predicate_text (name : Name) (op : Op) (value : Lit) (rest : PyStr) :
    (Simple.predicate name op value).text ++ rest =
      name.text ++ 32 :: (op.text ++ 32 :: (value.text ++ rest)) := by
  simp only [Simple.text, List.append_assoc]
  rfl

theorem Simple.function_text (fn : Fn) (name : Name) (args : Lits) (rest : PyStr) :
    (Simple.function fn name args).text ++ rest =
      fn.text ++ 40 :: (name.text ++ (args.more ++ 41 :: rest)) := by
  simp only [Simple.text, List.append_assoc]
  rfl

theorem Simple.dropWhile_text (x : Simple) (rest : PyStr) :
    (x.text ++ rest).dropWhile isspace = x.text ++ rest := by
  match x with
  | .predicate name op value => rw [Simple.predicate_text, Name.dropWhile_text]
  | .paren _ | .isInstance _ | .id _ | .function .inSubnet _ _ | .function .hasDesiredChange _ _ => rfl

theorem lparenP_word {Y : PyStr} (hY : ∀ c ∈ Y.head?, isspace c = false ∧ c ≠ 40) (W : PyStr)
    (hW : ∀ c ∈ W, isspace c = false ∧ c ≠ 40) : lparenP (W ++ 32 :: Y) = .failure := by
  refine lexeme_string_failure fun c hc => ?_
  cases W with
  | nil =>
    rw [List.nil_append, List.dropWhile_cons_of_pos (by decide),
      dropWhile_isspace_eq_self fun c hc => (hY c hc).1] at hc
    exact (hY c hc).2
  | cons w W =>
    have hw := hW w (List.mem_cons_self _ _)
    rw [List.cons_append, List.dropWhile_cons_of_neg (by simp [hw.1])] at hc
    cases Option.some.inj hc
    exact hw.2

-- A keyword of letters that the name of a predicate begins with is followed by the rest of the
-- name, or by the space and the operation after it: never by `(`.
theorem string_lparenP_word {Y : PyStr} (hY : ∀ c ∈ Y.head?, isspace c = false ∧ c ≠ 40) :
    ∀ (W k : PyStr), k ≠ [] → (∀ c ∈ k, isspace c = false) →
      (∀ c ∈ W, isspace c = false ∧ c ≠ 40) → (string k *> lparenP) (W ++ 32 :: Y) = .failure
  | _, [], hk, _, _ => absurd rfl hk
  | [], a :: _, _, hk, _ => seqRight_of_failure (string_cons_ne fun h => by
      subst h
      exact absurd (hk 32 (List.mem_cons_self _ _)) (by decide))
  | w :: W, a :: k, _, hk, hW => by
    by_cases hwa : w = a
    · subst hwa
      rw [seqRight_apply, List.cons_append, string_cons_cons, Outcome.bind_map]
      cases k with
      | nil => exact lparenP_word hY W fun c hc => hW c (List.mem_cons_of_mem _ hc)
      | cons b k =>
        exact string_lparenP_word hY W (b :: k) (List.cons_ne_nil _ _)
          (fun c hc => hk c (List.mem_cons_of_mem _ hc)) (fun c hc => hW c (List.mem_cons_of_mem _ hc))
    · exact seqRight_of_failure (string_cons_ne hwa)

theorem keyword_predicate (k : PyStr) (hk : k ≠ []) (hsp : ∀ c ∈ k, isspace c = false)
    (name : Name) (op : Op) (value : Lit) (rest : PyStr) :
    (string k *> lparenP) ((Simple.predicate name op value).text ++ rest) = .failure := by
  rw [Simple.predicate_text]
  exact string_lparenP_word (Op.head_text op _) name.text k hk hsp (Name.word name)

theorem isinstanceTerm_predicate (name : Name) (op : Op) (value : Lit) :
    isinstanceTerm ((Simple.predicate name op value).text ++ rest) = .failure := by
  rw [isinstanceTerm, map_apply, lexeme_of_failure, Outcome.map_failure]
  rw [Simple.dropWhile_text]
  exact seqLeft_of_failure (seqRight_of_failure
    (keyword_predicate "isinstance" (by decide) (by decide) name op value rest))

theorem idTerm_predicate (name : Name) (op : Op) (value : Lit) :
    idTerm ((Simple.predicate name op value).text ++ rest) = .failure := by
  rw [idTerm, map_apply, lexeme_of_failure, Outcome.map_failure]
  rw [Simple.dropWhile_text]
  exact seqLeft_of_failure (seqRight_of_failure
    (keyword_predicate "id" (by decide) (by decide) name op value rest))

theorem keywordTerm_text (k : PyStr) (hk : ∀ c ∈ k, isspace c = false) (ps : List LitPiece)
    (rest : PyStr) :
    lexeme (string k *> lparenP *> quotedStringP <* rparenP) (k ++ 40 :: (literal ps ++ 41 :: rest)) =
      .success (ps.map LitPiece.value).flatten (rest.dropWhile isspace) := by
  have hstart : (k ++ 40 :: (literal ps ++ 41 :: rest)).dropWhile isspace =
      k ++ 40 :: (literal ps ++ 41 :: rest) := by
    refine dropWhile_isspace_eq_self fun c hc => ?_
    cases k with
    | nil => cases Option.some.inj hc; rfl
    | cons a k => cases Option.some.inj hc; exact hk _ (List.mem_cons_self _ _)
  have hopen : lparenP (40 :: (literal ps ++ 41 :: rest)) = .success "(" (literal ps ++ 41 :: rest) :=
    lparenP_cons fun c hc => by cases Option.some.inj hc; rfl
  have hq := quotedStringP_append ps (41 :: rest)
  rw [List.dropWhile_cons_of_neg (by decide)] at hq
  have hclose : rparenP (41 :: rest) = .success ")" (rest.dropWhile isspace) :=
    lexeme_string_append ")" (by decide)
  simp only [lexeme_apply, hstart, seqLeft_apply, seqRight_apply, string_append, hopen, hq, hclose,
    Outcome.bind_success, Outcome.map_success, dropWhile_isspace_idem]

theorem Chain.dropWhile_text (c : Chain) (rest : PyStr) :
    (c.text ++ rest).dropWhile isspace = c.text ++ rest := by
  obtain ⟨head, tail⟩ := c
  rw [Chain.text, List.append_assoc, Simple.dropWhile_text]

theorem lparenP_leaf (x : Simple) (hx : x.depth = 0) : lparenP (x.text ++ rest) = .failure := by
  match x with
  | .paren _ => simp [Simple.depth] at hx
  | .predicate name op value =>
    refine lexeme_string_failure fun c hc => ?_
    rw [Simple.predicate_text, Name.dropWhile_text] at hc
    cases Option.some.inj hc
    exact (Name.word name _ (List.mem_cons_self _ _)).2
  | .isInstance _ | .id _ | .function .inSubnet _ _ | .function .hasDesiredChange _ _ => rfl

theorem BoolOp.dropWhile_text (op : BoolOp) (s : PyStr) :
    (op.text ++ s).dropWhile isspace = op.text ++ s := by
  cases op <;> rfl

theorem Tail.cons_text (op : BoolOp) (right : Simple) (t : Tail) (rest : PyStr) :
    (Tail.cons op right t).text ++ rest =
      32 :: (op.text ++ 32 :: (right.text ++ (t.text ++ rest))) := by
  simp only [Tail.text, List.append_assoc]
  rfl

theorem Tail.simpleStop (t : Tail) (h : SimpleStop rest) : SimpleStop (t.text ++ rest) := by
  cases t with
  | nil => exact h
  | cons op right t =>
    rw [Tail.cons_text]
    exact fun c hc => Or.inl (Option.some.inj hc).symm

theorem Tail.length_cons (op : BoolOp) (right : Simple) (t : Tail) :
    t.text.length + 2 ≤ (Tail.cons op right t).text.length := by
  have : (PyStr.ofString " ").length = 1 := rfl
  simp only [Tail.text, List.length_append]
  omega

-- Reading a tail drops only the space before its first operator.
theorem Tail.length_le (t : Tail) (rest : PyStr) :
    t.text.length ≤ ((t.text ++ rest).dropWhile isspace).length + 1 := by
  cases t with
  | nil => exact Nat.zero_le _
  | cons op right t =>
    have h : ((Tail.cons op right t).text ++ rest).length = (Tail.cons op right t).text.length + rest.length :=
      List.length_append _ _
    rw [Tail.cons_text, List.dropWhile_cons_of_pos (by decide), BoolOp.dropWhile_text]
    rw [Tail.cons_text] at h
    simp only [List.length_cons] at h
    omega

end Keywords

section Leaves

variable [Unicode] {rest : PyStr}

theorem predicateTerm_text (name : Name) (op : Op) (value : Lit) :
    Reads predicateTerm (Simple.predicate name op value).text
      (Simple.predicate name op value).denote SimpleStop := fun rest hr => by
  have hname : variableP (name.text ++ 32 :: (op.text ++ 32 :: (value.text ++ rest))) =
      .success name.text (op.text ++ 32 :: (value.text ++ rest)) := by
    rw [variableP_name name fun c hc => by cases Option.some.inj hc; rfl,
      List.dropWhile_cons_of_pos (by decide), Op.dropWhile_text]
  have hop : operationP (op.text ++ 32 :: (value.text ++ rest)) = .success op.text (value.text ++ rest) := by
    rw [operationP_op, Lit.dropWhile_text]
  obtain ⟨r, hv, hr'⟩ := valueP_text value rest hr.valueStop
  refine ⟨r, ?_, hr'⟩
  rw [Simple.predicate_text]
  simp only [predicateTerm, bind_apply, hname, hop, hv, Outcome.bind_success]
  rfl

theorem functionTerm_text (fn : Fn) (name : Name) (args : Lits) :
    Reads functionTerm (Simple.function fn name args).text
      (Simple.function fn name args).denote SimpleStop := fun rest _ => by
  have htrim := (Lits.more_close args (Or.inl rfl) rest).2
  have hname : variableP (name.text ++ (args.more ++ 41 :: rest)) =
      .success name.text (args.more ++ 41 :: rest) := by
    refine (variableP_name name fun c hc => ?_).trans (by rw [htrim])
    cases args <;> (cases Option.some.inj hc; rfl)
  obtain ⟨r, hargs, hr⟩ := many_more (fun l _ => valueP_text l) (Or.inl rfl) args le_rfl htrim
  have hclose : rparenP r = .success ")" (rest.dropWhile isspace) := by
    rw [rparenP, ← lexeme_dropWhile, hr]
    exact lexeme_string_append ")" (by decide)
  refine ⟨_, ?_, dropWhile_isspace_idem rest⟩
  rw [Simple.function_text]
  simp only [functionTerm, bind_apply, functionP_fn, lparenP_cons (Name.dropWhile_text name _ ▸
      dropWhile_isspace_head _), Outcome.bind_success, hname, hargs, hclose]
  rfl

end Leaves

section Chains

variable {simpleP : Parser Term} {n : Nat} {rest : PyStr}

theorem combinedLoop_tail
    (hsimple : ∀ x : Simple, x.depth ≤ n → Reads simpleP x.text x.denote SimpleStop)
    (hr : ChainStop rest) :
    ∀ (t : Tail) (fuel : Nat) (left : Term) (s : PyStr), t.depth ≤ n → t.text.length ≤ fuel →
      0 < fuel → s.dropWhile isspace = (t.text ++ rest).dropWhile isspace →
      ∃ r, combinedLoop simpleP fuel left s = .success (t.fold left) r ∧
        r.dropWhile isspace = rest.dropWhile isspace
  | .nil, fuel + 1, left, s, _, _, _, hs => by
    have hb : boolOpP s = .failure := by
      rw [boolOpP, ← lexeme_dropWhile, hs, ← boolOpP]
      exact boolOpP_failure (by simpa only [Tail.text, List.nil_append, dropWhile_isspace_idem] using hr.2)
    refine ⟨s, ?_, hs⟩
    simp only [combinedLoop, bind_apply, alt_apply, map_apply, hb, Outcome.map_failure,
      Outcome.orElse_failure, success_apply, Outcome.bind_success]
    rfl
  | .cons op right t, fuel + 1, left, s, hd, hlen, _, hs => by
    have hdepth : right.depth ≤ n ∧ t.depth ≤ n := by simpa [Tail.depth] using hd
    have hb : boolOpP s = .success op.text (right.text ++ (t.text ++ rest)) := by
      rw [boolOpP, ← lexeme_dropWhile, hs, Tail.cons_text, List.dropWhile_cons_of_pos (by decide),
        BoolOp.dropWhile_text, ← boolOpP, boolOpP_op, Simple.dropWhile_text]
    obtain ⟨r, hright, hr'⟩ := hsimple right hdepth.1 _ (Tail.simpleStop t hr.1)
    have := Tail.length_cons op right t
    obtain ⟨r', hloop, hr''⟩ := combinedLoop_tail hsimple hr t fuel (.combined left op.text right.denote)
      r hdepth.2 (by omega) (by omega) hr'
    refine ⟨r', ?_, hr''⟩
    simp only [combinedLoop, bind_apply, alt_apply, map_apply, hb, Outcome.map_success,
      Outcome.orElse_success, Outcome.bind_success, hright, hloop]
    rfl

theorem combinedTermWith_text
    (hsimple : ∀ x : Simple, x.depth ≤ n → Reads simpleP x.text x.denote SimpleStop)
    (c : Chain) (hc : c.depth ≤ n) : Reads (combinedTermWith simpleP) c.text c.denote ChainStop :=
  fun rest hr => by
    obtain ⟨head, tail⟩ := c
    have hdepth : head.depth ≤ n ∧ tail.depth ≤ n := by simpa [Chain.depth] using hc
    obtain ⟨r, hh, hr'⟩ := hsimple head hdepth.1 _ (Tail.simpleStop tail hr.1)
    have hfuel : tail.text.length ≤ r.length + 1 := by
      have h₁ := Tail.length_le tail rest
      have h₂ : (r.dropWhile isspace).length ≤ r.length := (List.dropWhile_sublist _).length_le
      rw [hr'] at h₂
      omega
    obtain ⟨r', hl, hr''⟩ := combinedLoop_tail hsimple hr tail (r.length + 1) head.denote r hdepth.2
      hfuel (Nat.succ_pos _) hr'
    refine ⟨r', ?_, hr''⟩
    simp only [combinedTermWith, Chain.text, Chain.denote, List.append_assoc, bind_apply, hh,
      Outcome.bind_success, withFuel_apply, hl]

end Chains

section Terms

variable [Unicode] {n : Nat}

theorem leafTermP_text : ∀ x : Simple, x.depth = 0 → Reads leafTermP x.text x.denote SimpleStop
  | .paren _, h => by simp [Simple.depth] at h
  | .isInstance ps, _ => Reads.of_eq fun rest _ => by
    have h : (Simple.isInstance ps).text ++ rest = "isinstance" ++ 40 :: (literal ps ++ 41 :: rest) := by
      simp only [Simple.text, List.append_assoc]
      rfl
    rw [leafTermP, alt_apply, isinstanceTerm, map_apply, h, keywordTerm_text _ (by decide)]
    rfl
  | .id ps, _ => Reads.of_eq fun rest _ => by
    have h : (Simple.id ps).text ++ rest = "id" ++ 40 :: (literal ps ++ 41 :: rest) := by
      simp only [Simple.text, List.append_assoc]
      rfl
    have hi : isinstanceTerm ((Simple.id ps).text ++ rest) = .failure := rfl
    rw [leafTermP, alt_apply, hi, Outcome.orElse_failure, alt_apply, idTerm, map_apply, h,
      keywordTerm_text _ (by decide)]
    rfl
  | .predicate name op value, _ => fun rest hr => by
    obtain ⟨r, h, hr'⟩ := predicateTerm_text name op value rest hr
    refine ⟨r, ?_, hr'⟩
    simp only [leafTermP, alt_apply, isinstanceTerm_predicate, idTerm_predicate, h,
      Outcome.orElse_failure, Outcome.orElse_success]
  | .function fn name args, _ => fun rest hr => by
    obtain ⟨r, h, hr'⟩ := functionTerm_text fn name args rest hr
    have hi : isinstanceTerm ((Simple.function fn name args).text ++ rest) = .failure := by
      cases fn <;> rfl
    have hd : idTerm ((Simple.function fn name args).text ++ rest) = .failure := by
      cases fn <;> rfl
    have hp : predicateTerm ((Simple.function fn name args).text ++ rest) = .failure := by
      cases fn <;> rfl
    refine ⟨r, ?_, hr'⟩
    simp only [leafTermP, alt_apply, hi, hd, hp, h, Outcome.orElse_failure]

theorem simpleTermWith_leaf {inner : Parser Term} (x : Simple) (hx : x.depth = 0) :
    Reads (simpleTermWith inner) x.text x.denote SimpleStop := fun rest hr => by
  obtain ⟨r, h, hr'⟩ := leafTermP_text x hx rest hr
  refine ⟨r, ?_, hr'⟩
  rw [simpleTermWith, alt_apply, seqLeft_of_failure (seqRight_of_failure (lparenP_leaf x hx)),
    Outcome.orElse_failure, h]

theorem simpleTermWith_text {inner : Parser Term}
    (hinner : ∀ c : Chain, c.depth < n → Reads inner c.text c.denote ChainStop) :
    ∀ x : Simple, x.depth ≤ n → Reads (simpleTermWith inner) x.text x.denote SimpleStop
  | .paren c, hx => Reads.of_eq fun rest _ => by
    have hopen : lparenP ((Simple.paren c).text ++ rest) = .success "(" (c.text ++ 41 :: rest) := by
      have h : (Simple.paren c).text ++ rest = 40 :: (c.text ++ 41 :: rest) := by
        simp only [Simple.text, List.append_assoc]
        rfl
      rw [h]
      exact lparenP_cons (Chain.dropWhile_text c _ ▸ dropWhile_isspace_head _)
    obtain ⟨r, hc, hr⟩ := hinner c (by simpa [Simple.depth] using hx) _ (ChainStop.rparen rest)
    have hclose : rparenP r = .success ")" (rest.dropWhile isspace) := by
      rw [rparenP, ← lexeme_dropWhile, hr, List.dropWhile_cons_of_neg (by decide)]
      exact lexeme_string_append ")" (by decide)
    simp only [simpleTermWith, alt_apply, seqLeft_apply, seqRight_apply, hopen, hc, hclose,
      Outcome.bind_success, Outcome.map_success, Outcome.orElse_success]
    rfl
  | .isInstance _, _ => simpleTermWith_leaf _ rfl
  | .id _, _ => simpleTermWith_leaf _ rfl
  | .predicate .., _ => simpleTermWith_leaf _ rfl
  | .function .., _ => simpleTermWith_leaf _ rfl

theorem combinedFuel_text : ∀ n (c : Chain), c.depth ≤ n → Reads (combinedFuel n) c.text c.denote ChainStop
  | 0, c, hc => combinedTermWith_text (simpleTermWith_text fun _ h => absurd h (Nat.not_lt_zero _)) c hc
  | n + 1, c, hc =>
    combinedTermWith_text (simpleTermWith_text fun c h => combinedFuel_text n c (Nat.lt_succ_iff.mp h))
      c hc

end Terms

mutual
theorem Simple.depth_le_length : ∀ x : Simple, x.depth ≤ x.text.length
  | .paren c => by
    have := Chain.depth_le_length c
    have : (PyStr.ofString "(").length = 1 ∧ (PyStr.ofString ")").length = 1 := ⟨rfl, rfl⟩
    simp only [Simple.depth, Simple.text, List.length_append]
    omega
  | .isInstance _ | .id _ | .predicate .. | .function .. => Nat.zero_le _
theorem Chain.depth_le_length : ∀ c : Chain, c.depth ≤ c.text.length
  | .mk head tail => by
    have := Simple.depth_le_length head
    have := Tail.depth_le_length tail
    simp only [Chain.depth, Chain.text, List.length_append]
    omega
theorem Tail.depth_le_length : ∀ t : Tail, t.depth ≤ t.text.length
  | .nil => le_refl 0
  | .cons _ right t => by
    have := Simple.depth_le_length right
    have := Tail.depth_le_length t
    simp only [Tail.depth, Tail.text, List.length_append]
    omega
end

section Terms

variable [Unicode]

theorem combinedTerm_text (c : Chain) : Reads combinedTerm c.text c.denote ChainStop := fun rest hr =>
  combinedFuel_text _ c (by have := Chain.depth_le_length c; simp only [List.length_append]; omega) rest hr

theorem termParser_text (c : Chain) : Reads termParser c.text c.denote ChainStop := fun rest hr => by
  obtain ⟨r, h, hr'⟩ := combinedTerm_text c rest hr
  exact ⟨r, by rw [termParser, alt_apply, h]; rfl, hr'⟩

end Terms

end QueryParser
