import Cloudkeeper.Query.Sentence

namespace QueryParser

open Parser QueryModel Sentence

section Lexemes

variable {p : Parser α} {s rest : PyStr}

@[simp] theorem whitespace_apply : whitespace s = .success (s.takeWhile isspace) (s.dropWhile isspace) :=
  rfl

theorem dropWhile_isspace_idem : ∀ s : PyStr, (s.dropWhile isspace).dropWhile isspace = s.dropWhile isspace
  | [] => rfl
  | c :: s => by
    by_cases h : isspace c
    · simp only [List.dropWhile_cons_of_pos h, dropWhile_isspace_idem s]
    · simp only [List.dropWhile_cons_of_neg h]

theorem dropWhile_isspace_eq_self (hs : ∀ c ∈ s.head?, isspace c = false) :
    s.dropWhile isspace = s := by
  cases s with
  | nil => rfl
  | cons c s => exact List.dropWhile_cons_of_neg (by simp [hs c rfl])

theorem dropWhile_space_append (s : PyStr) :
    ((" " : PyStr) ++ s).dropWhile isspace = s.dropWhile isspace :=
  List.dropWhile_cons_of_pos (by decide)

theorem lexeme_apply :
    lexeme p s = (p (s.dropWhile isspace)).bind fun a r => .success a (r.dropWhile isspace) := by
  simp only [lexeme, seqLeft_apply, seqRight_apply, whitespace_apply, Outcome.bind_success]
  cases p (s.dropWhile isspace) <;> rfl

-- A lexeme reads past the whitespace in front of it.
theorem lexeme_dropWhile : lexeme p (s.dropWhile isspace) = lexeme p s := by
  rw [lexeme_apply, lexeme_apply, dropWhile_isspace_idem]

theorem lexeme_string_append (t : PyStr) (ht : ∀ c ∈ t.head?, isspace c = false) :
    lexeme (string t) (t ++ rest) = .success t (rest.dropWhile isspace) := by
  cases t with
  | nil => simp [lexeme_apply, string, dropWhile_isspace_idem]
  | cons c t =>
    rw [lexeme_apply, List.cons_append, List.dropWhile_cons_of_neg (by simpa using ht),
      ← List.cons_append, string_append]
    rfl

theorem string_cons_ne {t : PyStr} {c d : Nat} (hd : c ≠ d) : string (d :: t) (c :: s) = .failure :=
  string_of_not_prefix fun h => hd (List.cons_prefix_cons.mp h).1.symm

theorem lexeme_of_failure (h : p (s.dropWhile isspace) = .failure) : lexeme p s = .failure := by
  rw [lexeme_apply, h]
  rfl

theorem string_failure_head {d : Nat} {t : PyStr} (h : ∀ c ∈ s.head?, c ≠ d) :
    string (d :: t) s = .failure := by
  cases s with
  | nil => rfl
  | cons c s => exact string_cons_ne (h c rfl)

theorem lexeme_string_failure {d : Nat} {t : PyStr} (h : ∀ c ∈ (s.dropWhile isspace).head?, c ≠ d) :
    lexeme (string (d :: t)) s = .failure :=
  lexeme_of_failure (string_failure_head h)

theorem lexeme_string_cons {d : Nat} (hd : isspace d = false) (hs : ∀ c ∈ s.head?, isspace c = false) :
    lexeme (string [d]) (d :: s) = .success [d] s := by
  have h : string [d] (d :: s) = .success [d] s := string_append [d] s
  rw [lexeme_apply, List.dropWhile_cons_of_neg (by simp [hd]), h, Outcome.bind_success,
    dropWhile_isspace_eq_self hs]

end Lexemes

theorem flatten_digits (ds : List (Fin 10)) :
    (ds.map fun d => [48 + d.val]).flatten = ds.map fun d => 48 + d.val := by
  induction ds <;> simp_all

section Numerals

variable [Unicode] {rest : PyStr}

theorem isdigit_numeral (d : Fin 10) : Unicode.isdigit (48 + d.val) = true :=
  (Unicode.ascii_digit d.val d.isLt).1

theorem isdigit_ascii {c : Nat} (hc : c < 128) (h : ¬(48 ≤ c ∧ c < 58)) :
    Unicode.isdigit c = false := by
  cases hd : Unicode.isdigit c
  · rfl
  · exact absurd (Unicode.ascii_isdigit c hc hd) h

theorem digit_loop : ∀ (ds : List (Fin 10)) (n : Nat) (rest : PyStr), ds.length < n →
    (∀ c ∈ rest.head?, Unicode.isdigit c = false) →
    digit.manyLoop n ((ds.map fun d => 48 + d.val) ++ rest) =
      .success (ds.map fun d => [48 + d.val]) rest
  | [], n + 1, [], _, _ => rfl
  | [], n + 1, c :: r, _, hr => by
    simp [Parser.manyLoop, digit, hr c rfl]
  | d :: ds, n + 1, rest, h, hr => by
    simp only [List.length_cons, Nat.add_lt_add_iff_right] at h
    have hd : digit ((48 + d.val) :: ((ds.map fun d => 48 + d.val) ++ rest)) =
        .success [48 + d.val] ((ds.map fun d => 48 + d.val) ++ rest) := by
      simp [digit, isdigit_numeral]
    simp only [List.map_cons, List.cons_append, Parser.manyLoop, hd, digit_loop ds n rest h hr,
      Outcome.map_success]

theorem decimalValue_digits : ∀ (ds : List (Fin 10)) (acc : Nat),
    (ds.map fun d => 48 + d.val).foldlM (fun n c => (10 * n + ·) <$> Unicode.decimal c) acc =
      some (ds.foldl (fun v d => 10 * v + d.val) acc)
  | [], _ => rfl
  | d :: ds, acc => by
    rw [List.map_cons, List.foldlM_cons, List.foldl_cons, ← decimalValue_digits ds]
    simp [(Unicode.ascii_digit d.val d.isLt).2]

theorem int_numeral (n : Numeral) : int n.text = .ok n.value := by
  unfold int decimalValue Numeral.text
  rw [decimalValue_digits]
  exact if_pos (by simpa using n.fits)

theorem integerP_numeral (n : Numeral) (hr : ∀ c ∈ rest.head?, Unicode.isdigit c = false) :
    integerP (n.text ++ rest) = .success n.value rest := by
  have hint := int_numeral n
  obtain ⟨_ | ⟨d, ds⟩, hne, hfits⟩ := n
  · exact absurd rfl hne
  have hd : digit ((48 + d.val) :: ((ds.map fun d => 48 + d.val) ++ rest)) =
      .success [48 + d.val] ((ds.map fun d => 48 + d.val) ++ rest) := by
    simp [digit, isdigit_numeral]
  have hmany : digit.many ((ds.map fun d => 48 + d.val) ++ rest) =
      .success (ds.map fun d => [48 + d.val]) rest :=
    digit_loop ds _ rest (by simp; omega) hr
  simp only [integerP, Numeral.text, Numeral.value, List.map_cons, List.cons_append, mapRaising,
    concat, atLeast, bind_apply, map_apply, hd, Outcome.bind_success, hmany, pure_apply,
    Outcome.map_success]
  simp only [Numeral.text, Numeral.value, List.map_cons] at hint
  simp only [List.flatten_cons, List.singleton_append, flatten_digits, hint]

-- Digits not followed by `.` are no float: `digit.many() + string(".")` fails.
theorem floatP_digits (ds : List (Fin 10))
    (hr : ∀ c ∈ rest.head?, Unicode.isdigit c = false ∧ c ≠ 46) :
    floatP ((ds.map fun d => 48 + d.val) ++ rest) = .failure := by
  have hmany : digit.many ((ds.map fun d => 48 + d.val) ++ rest) =
      .success (ds.map fun d => [48 + d.val]) rest :=
    digit_loop ds _ rest (by simp; omega) fun c hc => (hr c hc).1
  have hdot : string "." rest = .failure := by
    cases rest with
    | nil => rfl
    | cons c r => exact string_cons_ne (hr c rfl).2
  simp only [floatP, mapRaising, concat, plus, map_apply, bind_apply, hmany, Outcome.bind_success,
    result_apply, hdot, Outcome.map_failure, Outcome.bind_failure]

theorem floatP_numeral (n : Numeral)
    (hr : ∀ c ∈ rest.head?, Unicode.isdigit c = false ∧ c ≠ 46) :
    floatP (n.text ++ rest) = .failure :=
  floatP_digits n.digits hr

-- `float()` of `whole.frac` is the decimal its digits spell.
theorem float_decimal (x : Decimal) : float x.text = .ok (.float x.mantissa x.frac.length) := by
  have hdig (ds : List (Fin 10)) : ∀ c ∈ ds.map (fun d => 48 + d.val), (c != 46) = true := by
    simp only [List.mem_map, bne_iff_ne]
    rintro _ ⟨d, -, rfl⟩
    omega
  obtain ⟨h₁, h₂⟩ := takeWhile_dropWhile_append (hdig x.whole) (t := 46 :: x.frac.map fun d => 48 + d.val)
    fun c hc => by cases hc; rfl
  obtain ⟨d, ds, hds⟩ := List.exists_cons_of_ne_nil x.nonempty
  have hval : decimalValue ((x.whole.map fun d => 48 + d.val) ++ x.frac.map fun d => 48 + d.val) =
      some x.mantissa := by
    rw [← List.map_append]
    exact decimalValue_digits _ 0
  have hspell : (x.whole.map fun d => 48 + d.val) ++ x.frac.map (fun d => 48 + d.val) =
      (48 + d.val) :: ds.map fun d => 48 + d.val := by
    rw [← List.map_append, hds, List.map_cons]
  simp only [float, Decimal.text, h₁, h₂, List.drop_one, List.tail_cons]
  rw [hval, hspell, List.length_map]

theorem floatP_decimal (x : Decimal) (hr : ∀ c ∈ rest.head?, Unicode.isdigit c = false) :
    floatP (x.text ++ rest) = .success (.float x.mantissa x.frac.length) rest := by
  have hwhole : digit.many (x.text ++ rest) = .success (x.whole.map fun d => [48 + d.val])
      (46 :: ((x.frac.map fun d => 48 + d.val) ++ rest)) := by
    rw [Decimal.text, List.append_assoc, List.cons_append]
    exact digit_loop _ _ _ (by simp; omega) fun c hc => by
      cases hc
      exact isdigit_ascii (by decide) (by decide)
  have hdot : string "." (46 :: ((x.frac.map fun d => 48 + d.val) ++ rest)) =
      .success "." ((x.frac.map fun d => 48 + d.val) ++ rest) :=
    string_append "." _
  have hfrac : digit.many ((x.frac.map fun d => 48 + d.val) ++ rest) =
      .success (x.frac.map fun d => [48 + d.val]) rest :=
    digit_loop _ _ rest (by simp; omega) hr
  have hspell : ((x.whole.map fun (d : Fin 10) => [48 + d.val]) ++ [(↑"." : PyStr)] ++
      x.frac.map fun (d : Fin 10) => [48 + d.val]).flatten = x.text := by
    simp only [List.flatten_append, flatten_digits, Decimal.text, List.append_assoc]
    rfl
  simp only [floatP, mapRaising, concat, plus, map_apply, bind_apply, hwhole, hdot, hfrac, result_apply,
    Outcome.bind_success, Outcome.map_success, pure_apply, hspell, float_decimal]

theorem floatP_nondigit {c : Nat} {s : PyStr} (hc : Unicode.isdigit c = false) (h46 : c ≠ 46) :
    floatP (c :: s) = .failure :=
  @floatP_digits _ (c :: s) [] fun _ h => by cases h; exact ⟨hc, h46⟩

theorem integerP_nondigit {c : Nat} {s : PyStr} (hc : Unicode.isdigit c = false) :
    integerP (c :: s) = .failure := by
  simp [integerP, mapRaising, concat, atLeast, digit, hc]

end Numerals

section Words

variable {rest : PyStr}

theorem isspace_of_letter {c : Nat} (h : isAsciiLetter c = true) : isspace c = false := by
  simp only [isAsciiLetter, Bool.or_eq_true, Bool.and_eq_true, decide_eq_true_eq] at h
  simp only [isspace, Bool.or_eq_false_iff, Bool.and_eq_false_iff, decide_eq_false_iff_not,
    beq_eq_false_iff_ne]
  omega

theorem isspace_of_digit {c : Nat} (h₁ : 48 ≤ c) (h₂ : c < 58) : isspace c = false := by
  simp only [isspace, Bool.or_eq_false_iff, Bool.and_eq_false_iff, decide_eq_false_iff_not,
    beq_eq_false_iff_ne]
  omega

theorem dropWhile_isspace_head : ∀ s : PyStr, ∀ c ∈ (s.dropWhile isspace).head?, isspace c = false
  | [] => by simp
  | c :: s => by
    by_cases h : isspace c
    · simpa [List.dropWhile_cons_of_pos h] using dropWhile_isspace_head s
    · simpa [List.dropWhile_cons_of_neg h] using h

theorem isspace_head_of_dropWhile {s : PyStr} (h : s.dropWhile isspace = s) :
    ∀ c ∈ s.head?, isspace c = false :=
  h ▸ dropWhile_isspace_head s

theorem variableP_name (n : Name) (hr : ∀ c ∈ rest.head?, isVariableChar c = false) :
    variableP (n.text ++ rest) = .success n.text (rest.dropWhile isspace) := by
  rw [variableP, lexeme_apply, Name.text, List.cons_append,
    List.dropWhile_cons_of_neg (by simp [isspace_of_letter n.letter]),
    regex_append n.letter n.chars hr]
  rfl

theorem literalP_word (w : Word) (hr : ∀ c ∈ rest.head?, isAsciiAlnum c = false) :
    literalP (w.text ++ rest) = .success w.text (rest.dropWhile isspace) := by
  rw [literalP, lexeme_apply, Word.text, List.cons_append,
    List.dropWhile_cons_of_neg (by simp [isspace_of_letter w.letter]),
    regex_append w.letter w.alnum hr]
  rfl

theorem quotedStringP_append (ps : List LitPiece) (rest : PyStr) :
    quotedStringP (literal ps ++ rest) =
      .success (ps.map LitPiece.value).flatten (rest.dropWhile isspace) := by
  have h : literal ps ++ rest = 34 :: ((ps.map LitPiece.text).flatten ++ 34 :: rest) := by
    simp [literal]
  have quote (t : PyStr) : string "\"" (34 :: t) = .success "\"" t := string_append _ t
  rw [quotedStringP, lexeme_apply, h, List.dropWhile_cons_of_neg (by decide)]
  simp only [seqLeft_apply, seqRight_apply, quote, stringP_body, Outcome.bind_success,
    Outcome.map_success]

end Words

end QueryParser
