import Cloudkeeper.Query.Theorems.Tokens

namespace QueryParser

open Parser QueryModel Sentence

-- What may follow a value in a sentence: a space, `)`, `,` or `]`, or nothing.
def ValueStop (rest : PyStr) : Prop :=
  ∀ c ∈ rest.head?, c = 32 ∨ c = 41 ∨ c = 44 ∨ c = 93

-- `p` reads `text` as `v` whenever what follows satisfies `Stop`, and leaves what follows, up to
-- the spaces before it.
def Reads (p : Parser α) (text : PyStr) (v : α) (Stop : PyStr → Prop) : Prop :=
  ∀ rest, Stop rest → ∃ r, p (text ++ rest) = .success v r ∧
    r.dropWhile isspace = rest.dropWhile isspace

theorem Reads.of_eq {p : Parser α} {text : PyStr} {v : α} {Stop : PyStr → Prop}
    (h : ∀ rest, Stop rest → p (text ++ rest) = .success v (rest.dropWhile isspace)) :
    Reads p text v Stop :=
  fun rest hr => ⟨_, h rest hr, dropWhile_isspace_idem rest⟩

def ReadsValue (p : Parser Value) (l : Lit) : Prop :=
  Reads p l.text l.denote ValueStop

-- A float's text begins with a digit or the point.
theorem Decimal.text_head (x : Decimal) : ∃ c t, x.text = c :: t ∧ isspace c = false ∧ c ≠ 34 := by
  obtain ⟨_ | ⟨d, ds⟩, frac, _⟩ := x
  · exact ⟨46, _, rfl, by decide, by decide⟩
  · have := d.isLt
    exact ⟨48 + d.val, _, rfl, isspace_of_digit (by omega) (by omega), by omega⟩

theorem Lit.dropWhile_text (l : Lit) (rest : PyStr) :
    (l.text ++ rest).dropWhile isspace = l.text ++ rest := by
  match l with
  | .int ⟨d :: ds, _, _⟩ =>
    have := d.isLt
    exact List.dropWhile_cons_of_neg (by simp [@isspace_of_digit (48 + d.val) (by omega) (by omega)])
  | .float x =>
    obtain ⟨c, t, ht, hc, -⟩ := Decimal.text_head x
    rw [Lit.text, ht]
    exact List.dropWhile_cons_of_neg (by simp [hc])
  | .str _ | .bool true | .bool false | .null | .array _ => rfl

theorem Numeral.dropWhile_text (n : Numeral) (rest : PyStr) :
    (n.text ++ rest).dropWhile isspace = n.text ++ rest :=
  Lit.dropWhile_text (.int n) rest

theorem Lits.more_close (t : Lits) {close : Nat} (hclose : close = 41 ∨ close = 93) (rest : PyStr) :
    ValueStop (t.more ++ close :: rest) ∧
      (t.more ++ close :: rest).dropWhile isspace = t.more ++ close :: rest := by
  match t with
  | .nil =>
    refine ⟨fun c hc => ?_, List.dropWhile_cons_of_neg ?_⟩
    · cases Option.some.inj hc
      omega
    · rcases hclose with rfl | rfl <;> decide
  | .cons _ _ =>
    refine ⟨fun c hc => ?_, rfl⟩
    cases Option.some.inj hc
    decide

theorem Lits.more_cons (l : Lit) (t : Lits) (s : PyStr) :
    (Lits.cons l t).more ++ s = "," ++ 32 :: (l.text ++ (t.more ++ s)) := by
  simp only [Lits.more, List.append_assoc]
  rfl

theorem Lits.denote_length_le : ∀ t : Lits, t.denote.length ≤ t.more.length
  | .nil => le_refl 0
  | .cons _ t => by
    have := Lits.denote_length_le t
    have : (PyStr.ofString ", ").length = 2 := rfl
    simp only [Lits.denote, Lits.more, List.length_cons, List.length_append]
    omega

theorem Lits.dropWhile_text (t : Lits) (rest : PyStr) :
    (t.text ++ 93 :: rest).dropWhile isspace = t.text ++ 93 :: rest := by
  match t with
  | .nil => exact List.dropWhile_cons_of_neg (by decide)
  | .cons l t => simp only [Lits.text, List.append_assoc, Lit.dropWhile_text]

theorem lexeme_cons_failure {p : Parser α} {c : Nat} {s : PyStr} (hc : isspace c = false)
    (h : p (c :: s) = .failure) : lexeme p (c :: s) = .failure := by
  rw [lexeme_apply, List.dropWhile_cons_of_neg (by simp [hc]), h]
  rfl

theorem token_cons_ne {t : PyStr} {c d : Nat} {s : PyStr} (hc : isspace c = false) (hd : c ≠ d) :
    lexeme (string (d :: t)) (c :: s) = .failure :=
  lexeme_cons_failure hc (string_cons_ne hd)

theorem quotedStringP_cons_ne {c : Nat} {s : PyStr} (hc : isspace c = false) (h : c ≠ 34) :
    quotedStringP (c :: s) = .failure :=
  lexeme_cons_failure hc (by
    have : string "\"" (c :: s) = .failure := string_cons_ne h
    simp [this])

theorem arrayParserWith_cons_ne {inner : Parser Value} {c : Nat} {s : PyStr}
    (hc : isspace c = false) (h : c ≠ 91) : arrayParserWith inner (c :: s) = .failure := by
  have : lbrackP (c :: s) = .failure := token_cons_ne hc h
  simp [arrayParserWith, this]

section Arrays

variable {inner : Parser Value} {rest : PyStr} {n : Nat}

theorem manyLoop_more (hinner : ∀ l : Lit, l.depth ≤ n → ReadsValue inner l) {close : Nat}
    (hclose : close = 41 ∨ close = 93) :
    ∀ (t : Lits) (fuel : Nat) (s rest : PyStr), t.depth ≤ n → t.denote.length < fuel →
      s.dropWhile isspace = t.more ++ close :: rest →
      ∃ r, (commaP *> inner).manyLoop fuel s = .success t.denote r ∧ r.dropWhile isspace = close :: rest
  | .nil, fuel + 1, s, rest, _, _, hs => by
    have hcomma : commaP s = .failure := by
      rw [commaP, ← lexeme_dropWhile, hs]
      rcases hclose with rfl | rfl <;> rfl
    exact ⟨s, manyLoop_succ_failure (by rw [seqRight_apply, hcomma]; rfl), hs⟩
  | .cons l t, fuel + 1, s, rest, hd, hf, hs => by
    have hdepth : l.depth ≤ n ∧ t.depth ≤ n := by simpa [Lits.depth] using hd
    obtain ⟨hstop, htrim⟩ := Lits.more_close t hclose rest
    have hcomma : commaP s = .success "," (l.text ++ (t.more ++ close :: rest)) := by
      rw [commaP, ← lexeme_dropWhile, hs, Lits.more_cons, lexeme_string_append "," (by decide),
        List.dropWhile_cons_of_pos (by decide), Lit.dropWhile_text]
    obtain ⟨r, hl, hr⟩ := hinner l hdepth.1 _ hstop
    obtain ⟨r', ht, hr'⟩ := manyLoop_more hinner hclose t fuel r rest hdepth.2
      (by simp only [Lits.denote, List.length_cons] at hf; omega) (hr.trans htrim)
    refine ⟨r', ?_, hr'⟩
    rw [manyLoop_succ_success (by rw [seqRight_apply, hcomma]; exact hl), ht]
    rfl

theorem many_more (hinner : ∀ l : Lit, l.depth ≤ n → ReadsValue inner l) {close : Nat}
    (hclose : close = 41 ∨ close = 93) (t : Lits) (ht : t.depth ≤ n) {s : PyStr}
    (hs : s.dropWhile isspace = t.more ++ close :: rest) :
    ∃ r, (commaP *> inner).many s = .success t.denote r ∧ r.dropWhile isspace = close :: rest := by
  have hlen : (s.dropWhile isspace).length ≤ s.length := (List.dropWhile_sublist isspace).length_le
  have := Lits.denote_length_le t
  rw [hs, List.length_append] at hlen
  exact manyLoop_more hinner hclose t _ s rest ht (by omega) hs

theorem sepBy_elements (hinner : ∀ l : Lit, l.depth ≤ n → ReadsValue inner l)
    (hfail : ∀ s, inner (93 :: s) = .failure) (t : Lits) (ht : t.depth ≤ n) (rest : PyStr) :
    ∃ r, inner.sepBy commaP (t.text ++ 93 :: rest) = .success t.denote r ∧
      r.dropWhile isspace = 93 :: rest := by
  match t with
  | .nil => exact ⟨_, sepBy_of_failure (hfail rest), List.dropWhile_cons_of_neg (by decide)⟩
  | .cons l t =>
    have hdepth : l.depth ≤ n ∧ t.depth ≤ n := by simpa [Lits.depth] using ht
    obtain ⟨hstop, htrim⟩ := Lits.more_close t (Or.inr rfl) rest
    obtain ⟨r, hl, hr⟩ := hinner l hdepth.1 _ hstop
    obtain ⟨r', hm, hr'⟩ := many_more hinner (Or.inr rfl) t hdepth.2 (hr.trans htrim)
    exact ⟨r', sepBy_of_success (by rw [Lits.text, List.append_assoc]; exact hl) hm, hr'⟩

theorem arrayParserWith_text (hinner : ∀ l : Lit, l.depth ≤ n → ReadsValue inner l)
    (hfail : ∀ s, inner (93 :: s) = .failure) (t : Lits) (ht : t.depth ≤ n) :
    arrayParserWith inner ((Lit.array t).text ++ rest) =
      .success (.array t.denote) (rest.dropWhile isspace) := by
  have htext : (Lit.array t).text ++ rest = "[" ++ (t.text ++ 93 :: rest) := by
    simp only [Lit.text, List.append_assoc]
    rfl
  have hopen : lbrackP ((Lit.array t).text ++ rest) = .success "[" (t.text ++ 93 :: rest) := by
    rw [htext, lbrackP, lexeme_string_append "[" (by decide), Lits.dropWhile_text]
  obtain ⟨r, helems, hr⟩ := sepBy_elements hinner hfail t ht rest
  have hclose : rbrackP r = .success "]" (rest.dropWhile isspace) := by
    rw [rbrackP, ← lexeme_dropWhile, hr]
    exact lexeme_string_append "]" (by decide)
  simp only [arrayParserWith, bind_apply, hopen, helems, hclose, Outcome.bind_success]
  rfl

end Arrays

section Values

variable [Unicode] {inner : Parser Value} {rest : PyStr} {n : Nat}

theorem ValueStop.nondigit (h : ValueStop rest) :
    ∀ c ∈ rest.head?, Unicode.isdigit c = false ∧ c ≠ 46 := fun c hc => by
  rcases h c hc with rfl | rfl | rfl | rfl <;>
    exact ⟨isdigit_ascii (by decide) (by decide), by decide⟩

-- On a character that begins no number and no string only the array and the keywords are tried.
theorem valueWith_cons {c : Nat} {s : PyStr} (hc : isspace c = false) (h34 : c ≠ 34)
    (hd : Unicode.isdigit c = false) (h46 : c ≠ 46) :
    valueWith (arrayParserWith inner) (c :: s) =
      (arrayParserWith inner <|> trueP <|> falseP <|> nullP) (c :: s) := by
  simp only [valueWith, alt_apply, map_apply, quotedStringP_cons_ne hc h34, floatP_nondigit hd h46,
    integerP_nondigit hd, Outcome.map_failure, Outcome.orElse_failure]

theorem valueWith_numeral (n : Numeral) (hr : ValueStop rest) :
    valueWith (arrayParserWith inner) (n.text ++ rest) = .success (.int n.value) rest := by
  have hq : quotedStringP (n.text ++ rest) = .failure := by
    obtain ⟨_ | ⟨d, ds⟩, hne⟩ := n
    · exact absurd rfl hne
    have := d.isLt
    exact @quotedStringP_cons_ne (48 + d.val) _ (isspace_of_digit (by omega) (by omega)) (by omega)
  simp only [valueWith, alt_apply, map_apply, hq, floatP_numeral n hr.nondigit,
    integerP_numeral n fun c hc => (hr.nondigit c hc).1, Outcome.map_failure,
    Outcome.orElse_failure, Outcome.map_success, Outcome.orElse_success]

theorem valueWith_decimal (x : Decimal) (hr : ValueStop rest) :
    valueWith (arrayParserWith inner) (x.text ++ rest) = .success (.float x.mantissa x.frac.length) rest := by
  have hq : quotedStringP (x.text ++ rest) = .failure := by
    obtain ⟨c, t, ht, hc, h34⟩ := Decimal.text_head x
    rw [ht]
    exact quotedStringP_cons_ne hc h34
  simp only [valueWith, alt_apply, map_apply, hq, floatP_decimal x fun c hc => (hr.nondigit c hc).1,
    Outcome.map_failure, Outcome.orElse_failure, Outcome.orElse_success]

theorem valueWith_literal (ps : List LitPiece) :
    valueWith (arrayParserWith inner) (literal ps ++ rest) =
      .success (.str (ps.map LitPiece.value).flatten) (rest.dropWhile isspace) := by
  simp only [valueWith, alt_apply, map_apply, quotedStringP_append, Outcome.map_success,
    Outcome.orElse_success]

theorem valueWith_keyword {t : PyStr} {c : Nat} {v : Value} (ht : t = c :: t.tail)
    (hc : isspace c = false) (h34 : c ≠ 34) (hd : Unicode.isdigit c = false) (h46 : c ≠ 46)
    (h91 : c ≠ 91) (hk : (trueP <|> falseP <|> nullP) (t ++ rest) = .success v (rest.dropWhile isspace)) :
    valueWith (arrayParserWith inner) (t ++ rest) = .success v (rest.dropWhile isspace) := by
  rw [ht, List.cons_append, valueWith_cons hc h34 hd h46, alt_apply, arrayParserWith_cons_ne hc h91,
    Outcome.orElse_failure, ← List.cons_append, ← ht, hk]

theorem valueWith_scalar (l : Lit) (hl : l.depth = 0) :
    ReadsValue (valueWith (arrayParserWith inner)) l := fun rest hr => by
  match l with
  | .int n => exact ⟨rest, valueWith_numeral n hr, rfl⟩
  | .float x => exact ⟨rest, valueWith_decimal x hr, rfl⟩
  | .str ps => exact ⟨_, valueWith_literal ps, dropWhile_isspace_idem rest⟩
  | .bool true =>
    refine ⟨_, valueWith_keyword rfl (by decide) (by decide) (isdigit_ascii (by decide) (by decide))
      (by decide) (by decide) ?_, dropWhile_isspace_idem rest⟩
    simp only [alt_apply, trueP, result_apply, lexeme_string_append "true" (by decide)]
    rfl
  | .bool false =>
    refine ⟨_, valueWith_keyword rfl (by decide) (by decide) (isdigit_ascii (by decide) (by decide))
      (by decide) (by decide) ?_, dropWhile_isspace_idem rest⟩
    have : trueP ((Lit.bool false).text ++ rest) = .failure := rfl
    simp only [alt_apply, this, Outcome.orElse_failure, falseP, result_apply,
      lexeme_string_append "false" (by decide)]
    rfl
  | .null =>
    refine ⟨_, valueWith_keyword rfl (by decide) (by decide) (isdigit_ascii (by decide) (by decide))
      (by decide) (by decide) ?_, dropWhile_isspace_idem rest⟩
    have ht : trueP (Lit.null.text ++ rest) = .failure := rfl
    have hf : falseP (Lit.null.text ++ rest) = .failure := rfl
    simp only [alt_apply, ht, hf, Outcome.orElse_failure, nullP, result_apply,
      lexeme_string_append "null" (by decide)]
    rfl
  | .array _ => simp [Lit.depth] at hl

theorem valueWith_rbrack (s : PyStr) : valueWith (arrayParserWith inner) (93 :: s) = .failure := by
  rw [valueWith_cons (by decide) (by decide) (isdigit_ascii (by decide) (by decide)) (by decide)]
  rfl

theorem valueWith_array (hinner : ∀ l : Lit, l.depth ≤ n → ReadsValue inner l)
    (hfail : ∀ s, inner (93 :: s) = .failure) (t : Lits) (ht : t.depth ≤ n) :
    valueWith (arrayParserWith inner) ((Lit.array t).text ++ rest) =
      .success (.array t.denote) (rest.dropWhile isspace) := by
  have htext : (Lit.array t).text ++ rest = 91 :: (t.text ++ 93 :: rest) := by
    simp only [Lit.text, List.append_assoc]
    rfl
  rw [htext, valueWith_cons (by decide) (by decide) (isdigit_ascii (by decide) (by decide))
    (by decide), alt_apply, ← htext, arrayParserWith_text hinner hfail t ht, Outcome.orElse_success]

theorem valueFuel_rbrack : ∀ n s, valueFuel n (93 :: s) = .failure
  | 0, s | _ + 1, s => valueWith_rbrack s

theorem valueFuel_text : ∀ n (l : Lit), l.depth ≤ n → ReadsValue (valueFuel n) l
  | 0, l, hl => valueWith_scalar l (Nat.le_zero.mp hl)
  | n + 1, .array t, hl => fun rest _ =>
    ⟨_, valueWith_array (fun l h => valueFuel_text n l h) (valueFuel_rbrack n) t
      (by simpa [Lit.depth] using hl), dropWhile_isspace_idem rest⟩
  | _ + 1, .int _, _ | _ + 1, .float _, _ | _ + 1, .str _, _ | _ + 1, .bool _, _ | _ + 1, .null, _ =>
    valueWith_scalar _ rfl

end Values

mutual
theorem Lit.depth_le_length : ∀ l : Lit, l.depth ≤ l.text.length
  | .array .nil => by decide
  | .array (.cons l t) => by
    have := Lit.depth_le_length l
    have := Lits.depth_le_length t
    have : (PyStr.ofString "[").length = 1 ∧ (PyStr.ofString "]").length = 1 := ⟨rfl, rfl⟩
    simp only [Lit.depth, Lits.depth, Lit.text, Lits.text, List.length_append]
    omega
  | .int _ | .float _ | .str _ | .bool _ | .null => Nat.zero_le _
theorem Lits.depth_le_length : ∀ t : Lits, t.depth ≤ t.more.length
  | .nil => le_refl 0
  | .cons l t => by
    have := Lit.depth_le_length l
    have := Lits.depth_le_length t
    have : (PyStr.ofString ", ").length = 2 := rfl
    simp only [Lits.depth, Lits.more, List.length_append]
    omega
end

theorem valueP_text [Unicode] (l : Lit) : ReadsValue valueP l := fun rest hr =>
  valueFuel_text _ l (by have := Lit.depth_le_length l; simp only [List.length_append]; omega) rest hr

end QueryParser
