import Cloudkeeper.Query.Theorems.Blanks
import Cloudkeeper.Query.Theorems.Parts
import Cloudkeeper.Query.Theorems.Exceptions
import Cloudkeeper.Parsy.Theorems.Trailing

/-! Blanks after a query change nothing either. Every parser of the grammar gives on a text followed
by blanks the same value, a parse failure or the same exception as on the text, and leaves
over only blanks more. A string left open at the end of the text is the one place the blanks are
read, into the string, whose closing quote is then missing either way. -/

namespace QueryParser

open Parser QueryModel

section Blank

variable {c : Nat} {s w : PyStr}

theorem dropWhile_isspace_append (hw : ∀ c ∈ w, isspace c = true) :
    (s ++ w).dropWhile isspace = if s.dropWhile isspace = [] then [] else s.dropWhile isspace ++ w := by
  by_cases h : s.dropWhile isspace = []
  · simp only [List.dropWhile_append, h, List.isEmpty_nil, if_true, List.dropWhile_eq_nil_iff.mpr hw]
  · rw [List.dropWhile_append, if_neg (by simpa using h), if_neg h]

theorem isspace_of_alnum (h : isAsciiAlnum c = true) : isspace c = false := by
  simp only [isAsciiAlnum, Bool.or_eq_true, Bool.and_eq_true, decide_eq_true_eq] at h
  exact h.elim isspace_of_letter fun h => isspace_of_digit h.1 (by omega)

theorem isspace_of_hexDigit (h : isHexDigit c = true) : isspace c = false := by
  simp only [isHexDigit, Bool.or_eq_true, Bool.and_eq_true, decide_eq_true_eq] at h
  simp only [isspace, Bool.or_eq_false_iff, Bool.and_eq_false_iff, decide_eq_false_iff_not,
    beq_eq_false_iff_ne]
  omega

variable [Unicode]

/-- A blank a query may end with: a `\s` character the Unicode table does not count as a digit,
as no `\s` character of Python's table is. -/
def Blank (c : Nat) : Bool :=
  isspace c && !Unicode.isdigit c

theorem isspace_of_blank (h : Blank c = true) : isspace c = true :=
  ((Bool.and_eq_true _ _).mp h).1

theorem isdigit_of_blank (h : Blank c = true) : Unicode.isdigit c = false := by
  simpa using ((Bool.and_eq_true _ _).mp h).2

-- A class without `\s` characters has no blanks.
theorem not_blank {f : Nat → Bool} (hf : ∀ c, f c = true → isspace c = false) (c : Nat)
    (hc : Blank c = true) : f c = false :=
  Bool.eq_false_iff.mpr fun h => by simp [Blank, hf c h] at hc

theorem not_blank_last {t : PyStr} (ht : ∀ c ∈ t.getLast?, isspace c = false) :
    ∀ c ∈ t.getLast?, Blank c = false :=
  fun c hc => by simp [Blank, ht c hc]

theorem whitespace_seqRight_trails {p : Parser α} (hp : Trails Blank p) : Trails Blank (whitespace *> p) :=
  fun s w hw => by
    simp only [seqRight_apply, whitespace_apply, Outcome.bind_success]
    rw [dropWhile_isspace_append fun c hc => isspace_of_blank (hw c hc)]
    split_ifs with h
    · rw [h]
      exact Ext.refl _
    · exact hp _ w hw

theorem seqLeft_whitespace_trails {p : Parser α} (hp : Trails Blank p) : Trails Blank (p <* whitespace) :=
  fun s w hw => by
    simp only [seqLeft_apply, whitespace_apply, Outcome.map_success]
    refine (hp s w hw).bind fun a r w' hw' => ?_
    rw [dropWhile_isspace_append fun c hc => isspace_of_blank (hw' c hc)]
    split_ifs with h
    · rw [h]
      exact Ext.refl _
    · exact ⟨w', hw', rfl⟩

theorem lexeme_trails {p : Parser α} (hp : Trails Blank p) : Trails Blank (lexeme p) :=
  seqLeft_whitespace_trails (whitespace_seqRight_trails hp)

theorem token_trails {t : PyStr} (ht : ∀ c ∈ t.getLast?, isspace c = false) : Trails Blank (lexeme (string t)) :=
  lexeme_trails (Trails.string (not_blank_last ht))

theorem choice_tokens_trails {ts : List PyStr} (h : ∀ t ∈ ts, ∀ c ∈ t.getLast?, isspace c = false) :
    Trails Blank (choice (ts.map fun a => lexeme (string a))) :=
  Trails.choice fun _ hp => by
    obtain ⟨t, ht, rfl⟩ := List.mem_map.mp hp
    exact token_trails (h t ht)

theorem digit_trails : Trails Blank digit :=
  Trails.testChar fun _ => isdigit_of_blank

theorem integerP_trails : Trails Blank integerP :=
  ((Trails.atLeast digit_trails 1).concat).mapRaising

theorem floatP_trails : Trails Blank floatP :=
  (((Trails.many digit_trails).plus ((Trails.string (not_blank_last (by decide))).result _)).plus
    (Trails.many digit_trails)).concat.mapRaising

theorem variableP_trails : Trails Blank variableP :=
  lexeme_trails (Trails.regex (not_blank fun _ => isspace_of_letter)
    (not_blank fun _ h => (isspace_of_variableChar h).1))

theorem literalP_trails : Trails Blank literalP :=
  lexeme_trails (Trails.regex (not_blank fun _ => isspace_of_letter) (not_blank fun _ => isspace_of_alnum))

theorem stringEsc_trails : Trails Blank stringEsc :=
  have str (t : PyStr) (ht : ∀ c ∈ t.getLast?, isspace c = false) : Trails Blank (string t) :=
    Trails.string (not_blank_last ht)
  have hex : ∀ cls ∈ [(· == 117), isHexDigit, isHexDigit, isHexDigit, isHexDigit],
      ∀ c, Blank c = true → cls c = false := by
    simp only [List.mem_cons, List.mem_singleton, or_self, List.not_mem_nil, or_false, forall_eq_or_imp,
      forall_eq]
    exact ⟨not_blank fun c h => by simp only [beq_iff_eq] at h; subst h; rfl,
      not_blank fun _ => isspace_of_hexDigit⟩
  (str _ (by decide)).seqRight ((str _ (by decide)).alt ((str _ (by decide)).alt ((str _ (by decide)).alt
    (((str _ (by decide)).result _).alt (((str _ (by decide)).result _).alt (((str _ (by decide)).result _).alt
      (((str _ (by decide)).result _).alt (((str _ (by decide)).result _).alt ((Trails.regexFixed hex).map _)))))))))

end Blank

section Strings

variable {s w : PyStr}

-- A piece of a string, `string_part | string_esc`, never raises and always ends.
theorem stringPiece_cases (s : PyStr) :
    (stringPart <|> stringEsc) s = .failure ∨ ∃ a r, (stringPart <|> stringEsc) s = .success a r := by
  have hr : ∀ e, stringEsc s ≠ .raise e := fun _ h => (stringEsc_raises (P := fun _ => False)).raises h
  have hd : stringEsc s ≠ .diverge := (stringEsc_halts (k := s.length + 1)).halts s (by omega)
  rw [alt_apply]
  rcases regex_eq_failure_or isStringChar isStringChar s with h | ⟨a, r, h⟩
  · rw [show stringPart s = _ from h, Outcome.orElse_failure]
    cases h' : stringEsc s with
    | success a r => exact .inr ⟨a, r, rfl⟩
    | failure => exact .inl rfl
    | raise e => exact absurd h' (hr e)
    | diverge => exact absurd h' hd
  · exact .inr ⟨a, r, by rw [show stringPart s = _ from h]; rfl⟩

theorem stringPart_append_failure (hp : stringPart s = .failure) (hs : s ≠ []) (w : PyStr) :
    stringPart (s ++ w) = .failure := by
  obtain ⟨c, t, rfl⟩ := List.exists_cons_of_ne_nil hs
  rw [show stringPart (c :: t) = _ from regex_cons] at hp
  rw [List.cons_append, show stringPart (c :: (t ++ w)) = _ from regex_cons]
  split at hp
  · cases hp
  · rw [if_neg ‹_›]

theorem stringLoop_nil : ∀ n {as r}, (stringPart <|> stringEsc).manyLoop n [] = .success as r → r = []
  | 0, _, _, h => by cases h
  | _ + 1, _, _, h => by rw [manyLoop_succ_failure rfl] at h; cases h; rfl

theorem stringP_success (s : PyStr) : ∃ v r, stringP s = .success v r := by
  cases h : stringP s with
  | success v r => exact ⟨v, r, rfl⟩
  | failure =>
    simp only [stringP, concat, map_apply, many, withFuel_apply] at h
    cases hm : (stringPart <|> stringEsc).manyLoop (s.length + 1) s <;> rw [hm] at h <;> try cases h
    exact absurd hm (manyLoop_ne_failure _ _ _)
  | raise e =>
    exact (((Raises.regex _ _).alt (stringEsc_raises (P := fun _ => False))).many.concat).raises h |>.elim
  | diverge => exact absurd h ((stringP_halts (k := s.length + 1)).halts s (by omega))

variable [Unicode]

theorem isStringChar_of_blank {c : Nat} (h : Blank c = true) : isStringChar c = true := by
  have hc := isspace_of_blank h
  simp only [isStringChar, Bool.and_eq_true, bne_iff_ne, ne_eq]
  constructor <;> rintro rfl <;> exact absurd hc (by decide)

-- `string_part` reads a text of blanks whole.
theorem stringPiece_blank (hw : ∀ c ∈ w, Blank c = true) (hne : w ≠ []) :
    (stringPart <|> stringEsc) w = .success w [] := by
  obtain ⟨c, w, rfl⟩ := List.exists_cons_of_ne_nil hne
  have hs : ∀ x ∈ w, isStringChar x = true := fun x hx => isStringChar_of_blank (hw x (.tail _ hx))
  rw [alt_apply, show stringPart (c :: w) = _ from regex_cons, if_pos (isStringChar_of_blank (hw c (.head _))),
    List.takeWhile_eq_self_iff.mpr hs, List.dropWhile_eq_nil_iff.mpr hs]
  rfl

theorem stringPiece_failure (hw : ∀ c ∈ w, Blank c = true) (h : (stringPart <|> stringEsc) s = .failure)
    (hs : s ≠ []) : (stringPart <|> stringEsc) (s ++ w) = .failure := by
  rw [alt_apply] at h ⊢
  cases hp : stringPart s <;> rw [hp] at h <;> try cases h
  rw [Outcome.orElse_failure] at h
  have he := stringEsc_trails s w hw
  rw [h] at he
  rw [stringPart_append_failure hp hs, Outcome.orElse_failure]
  exact he

-- A piece reads on into the blanks only where it reached the end of the text.
theorem stringPiece_append (hw : ∀ c ∈ w, Blank c = true) {a r : PyStr}
    (h : (stringPart <|> stringEsc) s = .success a r) :
    ∃ a' w', (∀ c ∈ w', Blank c = true) ∧ (stringPart <|> stringEsc) (s ++ w) = .success a' (r ++ w') ∧
      (r ≠ [] → a' = a) := by
  rw [alt_apply] at h ⊢
  rcases regex_eq_failure_or isStringChar isStringChar s with hp | ⟨a₀, r₀, hp⟩
  · rw [show stringPart s = _ from hp, Outcome.orElse_failure] at h
    have hs : s ≠ [] := by rintro rfl; cases h
    have he := stringEsc_trails s w hw
    rw [h] at he
    obtain ⟨w', hw', h'⟩ := he
    exact ⟨a, w', hw', by rw [stringPart_append_failure hp hs, Outcome.orElse_failure, h'], fun _ => rfl⟩
  · rw [show stringPart s = _ from hp, Outcome.orElse_success] at h
    obtain ⟨rfl, rfl⟩ := Outcome.success.inj h
    obtain ⟨c, t, rfl, hc, rfl, rfl⟩ := regex_eq_success.mp hp
    rw [List.cons_append, show stringPart (c :: (t ++ w)) = _ from regex_cons, if_pos hc]
    by_cases hr : t.dropWhile isStringChar = []
    · have ht : ∀ x ∈ t ++ w, isStringChar x = true := fun x hx => (List.mem_append.mp hx).elim
        (List.dropWhile_eq_nil_iff.mp hr x) fun hx => isStringChar_of_blank (hw x hx)
      refine ⟨c :: (t ++ w), [], by simp, ?_, fun h => absurd hr h⟩
      rw [List.takeWhile_eq_self_iff.mpr ht, List.dropWhile_eq_nil_iff.mpr ht, hr]
      rfl
    · obtain ⟨h₁, h₂⟩ := scan_append_of_ne hr w
      exact ⟨_, w, hw, by rw [h₁, h₂]; rfl, fun _ => rfl⟩

-- The loop of `stringP` on the text with blanks after it: the same pieces where it stopped inside
-- the text, and one more round at most where it reached the end.
theorem stringLoop_append : ∀ n {s w as r}, (∀ c ∈ w, Blank c = true) →
    (stringPart <|> stringEsc).manyLoop n s = .success as r →
    ∃ as' w', (∀ c ∈ w', Blank c = true) ∧
      (stringPart <|> stringEsc).manyLoop (n + 1) (s ++ w) = .success as' (r ++ w') ∧ (r ≠ [] → as' = as)
  | 0, _, _, _, _, _, h => by cases h
  | n + 1, s, w, as, r, hw, h => by
    rcases stringPiece_cases s with hE | ⟨a, r₁, hE⟩
    · rw [manyLoop_succ_failure hE] at h
      obtain ⟨rfl, rfl⟩ := Outcome.success.inj h
      by_cases hs : s = []
      · subst hs
        by_cases hw₀ : w = []
        · subst hw₀
          exact ⟨[], [], by simp, manyLoop_succ_failure rfl, fun h => absurd rfl h⟩
        · refine ⟨[w], [], by simp, ?_, fun h => absurd rfl h⟩
          rw [List.nil_append, manyLoop_succ_success (stringPiece_blank hw hw₀), manyLoop_succ_failure rfl]
          rfl
      · exact ⟨[], w, hw, manyLoop_succ_failure (stringPiece_failure hw hE hs), fun _ => rfl⟩
    · rw [manyLoop_succ_success hE] at h
      obtain ⟨as₀, h₀, rfl⟩ := Outcome.map_eq_success.mp h
      obtain ⟨a', w₁, hw₁, hE', ha⟩ := stringPiece_append hw hE
      obtain ⟨as₀', w₂, hw₂, h₀', has⟩ := stringLoop_append n hw₁ h₀
      refine ⟨a' :: as₀', w₂, hw₂, by rw [manyLoop_succ_success hE', h₀']; rfl, fun hr => ?_⟩
      have hr₁ : r₁ ≠ [] := fun h₁ => hr (stringLoop_nil n (h₁ ▸ h₀))
      rw [ha hr₁, has hr]

theorem stringP_append (hw : ∀ c ∈ w, Blank c = true) {v r : PyStr} (h : stringP s = .success v r) :
    ∃ v' w', (∀ c ∈ w', Blank c = true) ∧ stringP (s ++ w) = .success v' (r ++ w') ∧ (r ≠ [] → v' = v) := by
  by_cases hw₀ : w = []
  · subst hw₀
    exact ⟨v, [], by simp, by rw [List.append_nil, List.append_nil, h], fun _ => rfl⟩
  simp only [stringP, concat, map_apply, many, withFuel_apply] at h ⊢
  obtain ⟨as, hm, rfl⟩ := Outcome.map_eq_success.mp h
  obtain ⟨as', w', hw', h', has⟩ := stringLoop_append _ hw hm
  have hlen : s.length + 1 + 1 ≤ (s ++ w).length + 1 := by
    simp [List.length_append, Nat.one_le_iff_ne_zero.mpr (mt List.length_eq_zero.mp hw₀)]
  refine ⟨as'.flatten, w', hw', ?_, fun hr => by rw [has hr]⟩
  rw [Refines.fuel_mono (Refines.manyLoop_succ _) hlen _ (by rw [h']; exact nofun), h']
  rfl

-- A string left open at the end of the text misses its closing quote with the blanks too.
theorem stringP_closed_trails : Trails Blank (stringP <* string "\"") := fun s w hw => by
  obtain ⟨v, r, h⟩ := stringP_success s
  obtain ⟨v', w', hw', h', hv⟩ := stringP_append hw h
  rw [seqLeft_apply, seqLeft_apply, h, h', Outcome.bind_success, Outcome.bind_success]
  by_cases hr : r = []
  · subst hr
    have hq := Trails.string (B := Blank) (t := "\"") (not_blank_last (by decide)) [] w' hw'
    show Outcome.map _ (string "\"" ([] ++ w')) = .failure
    rw [show string "\"" ([] ++ w') = .failure from hq]
    rfl
  · rw [hv hr]
    exact (Trails.string (not_blank_last (by decide)) r w' hw').map _

theorem quotedStringP_trails : Trails Blank quotedStringP := by
  have h : (string "\"" *> stringP <* string "\"") = string "\"" *> (stringP <* string "\"") := by
    funext s
    simp only [seqLeft_apply, seqRight_apply]
    cases string "\"" s <;> rfl
  unfold quotedStringP
  rw [h]
  exact lexeme_trails ((Trails.string (not_blank_last (by decide))).seqRight stringP_closed_trails)

end Strings

section Values

theorem arrayParserWith_refines {v v' : Parser Value} (h : Refines v v') :
    Refines (arrayParserWith v) (arrayParserWith v') :=
  (Refines.refl _).bind fun _ => h.sepBy.bind fun _ => Refines.refl _

variable [Unicode]

theorem arrayParserWith_trails {valueP : Parser Value} (h : Trails Blank valueP) :
    Trails Blank (arrayParserWith valueP) :=
  (token_trails (by decide)).bind fun _ => (h.sepBy (token_trails (by decide))).bind fun _ =>
    (token_trails (by decide)).bind fun _ => Trails.success _

theorem valueWith_trails {arrayParser : Parser Value} (h : Trails Blank arrayParser) :
    Trails Blank (valueWith arrayParser) :=
  (quotedStringP_trails.map _).alt (floatP_trails.alt ((integerP_trails.map _).alt (h.alt
    (((token_trails (by decide)).result _).alt (((token_trails (by decide)).result _).alt
      ((token_trails (by decide)).result _))))))

theorem valueFuel_trails : ∀ n, Trails Blank (valueFuel n)
  | 0 => valueWith_trails (arrayParserWith_trails Trails.diverge)
  | n + 1 => valueWith_trails (arrayParserWith_trails (valueFuel_trails n))

theorem valueWith_refines {a a' : Parser Value} (h : Refines a a') : Refines (valueWith a) (valueWith a') :=
  (Refines.refl _).alt ((Refines.refl _).alt ((Refines.refl _).alt (h.alt (Refines.refl _))))

-- Array nesting needs no more fuel than the input is long.
theorem valueFuel_succ : ∀ n, Refines (valueFuel n) (valueFuel (n + 1))
  | 0 => valueWith_refines (arrayParserWith_refines (Refines.diverge _))
  | n + 1 => valueWith_refines (arrayParserWith_refines (valueFuel_succ n))

theorem valueP_trails : Trails Blank valueP :=
  Trails.withFuel valueFuel_trails valueFuel_succ

end Values

section Terms

variable {simple : Parser Term}

theorem combinedLoop_succ (simple : Parser Term) :
    ∀ n t, Refines (combinedLoop simple n t) (combinedLoop simple (n + 1) t)
  | 0, _ => Refines.diverge _
  | n + 1, t => Refines.bind (Refines.refl _) fun
    | none => Refines.refl _
    | some op => Refines.bind (Refines.refl _) fun right => combinedLoop_succ simple n (.combined t op right)

variable [Unicode]

theorem boolOpP_trails : Trails Blank boolOpP :=
  lexeme_trails ((Trails.string (not_blank_last (by decide))).alt (Trails.string (not_blank_last (by decide))))

theorem combinedLoop_trails (hs : Trails Blank simple) : ∀ n t, Trails Blank (combinedLoop simple n t)
  | 0, _ => Trails.diverge
  | n + 1, _ => ((boolOpP_trails.map some).alt (Trails.success none)).bind fun
    | none => Trails.success _
    | some _ => hs.bind fun _ => combinedLoop_trails hs n _

theorem combinedTermWith_trails (hs : Trails Blank simple) : Trails Blank (combinedTermWith simple) :=
  hs.bind fun left => Trails.withFuel (fun n => combinedLoop_trails hs n left) fun n => combinedLoop_succ simple n left

theorem isinstanceTerm_trails : Trails Blank isinstanceTerm :=
  (lexeme_trails ((((Trails.string (not_blank_last (by decide))).seqRight (token_trails (by decide))).seqRight
    quotedStringP_trails).seqLeft (token_trails (by decide)))).map _

theorem idTerm_trails : Trails Blank idTerm :=
  (lexeme_trails ((((Trails.string (not_blank_last (by decide))).seqRight (token_trails (by decide))).seqRight
    quotedStringP_trails).seqLeft (token_trails (by decide)))).map _

theorem predicateTerm_trails : Trails Blank predicateTerm :=
  variableP_trails.bind fun _ => (choice_tokens_trails (by decide)).bind fun _ =>
    valueP_trails.bind fun _ => Trails.success _

theorem functionTerm_trails : Trails Blank functionTerm :=
  (choice_tokens_trails (by decide)).bind fun _ => (token_trails (by decide)).bind fun _ =>
    variableP_trails.bind fun _ => ((token_trails (by decide)).seqRight valueP_trails).many.bind fun _ =>
      (token_trails (by decide)).bind fun _ => Trails.success _

theorem leafTermP_trails : Trails Blank leafTermP :=
  isinstanceTerm_trails.alt (idTerm_trails.alt (predicateTerm_trails.alt functionTerm_trails))

theorem simpleTermWith_trails {inner : Parser Term} (h : Trails Blank inner) :
    Trails Blank (simpleTermWith inner) :=
  (((token_trails (by decide)).seqRight h).seqLeft (token_trails (by decide))).alt leafTermP_trails

theorem combinedFuel_trails : ∀ n, Trails Blank (combinedFuel n)
  | 0 => combinedTermWith_trails (simpleTermWith_trails Trails.diverge)
  | n + 1 => combinedTermWith_trails (simpleTermWith_trails (combinedFuel_trails n))

theorem termParser_trails : Trails Blank termParser :=
  have combined : Trails Blank combinedTerm := Trails.withFuel combinedFuel_trails combinedFuel_succ
  combined.alt (simpleTermWith_trails combined)

end Terms

section Parts

variable [Unicode]

theorem rangeParser_trails : Trails Blank rangeParser :=
  (token_trails (by decide)).bind fun _ => integerP_trails.bind fun _ =>
    ((token_trails (by decide)).alt ((token_trails (by decide)).alt (token_trails (by decide)))).optional.bind
      fun _ => integerP_trails.optional.bind fun _ => (token_trails (by decide)).bind fun _ => Trails.success _

theorem arrowP_trails {opening closing : PyStr} (ho : ∀ c ∈ opening.getLast?, isspace c = false)
    (hc : ∀ c ∈ closing.getLast?, isspace c = false) (d : Direction) : Trails Blank (arrowP opening closing d) :=
  have edge : Trails Blank edgeDefinition :=
    literalP_trails.optional.bind fun _ => rangeParser_trails.optional.bind fun _ => Trails.success _
  (lexeme_trails (((Trails.string (not_blank_last ho)).seqRight edge).seqLeft
    (Trails.string (not_blank_last hc)))).map _

theorem partParser_trails : Trails Blank partParser :=
  have nav : Trails Blank navigationParser := (arrowP_trails (by decide) (by decide) _).alt
    ((arrowP_trails (by decide) (by decide) _).alt (arrowP_trails (by decide) (by decide) _))
  termParser_trails.bind fun _ => whitespace_seqRight_trails (((nav.map some).alt (Trails.success none)).bind
    fun _ => ((token_trails (by decide)).optional.map _).bind fun _ => Trails.success _)

theorem preambleP_trails : Trails Blank preambleP :=
  (((choice_tokens_trails (by decide)).bind fun _ => (token_trails (by decide)).bind fun _ =>
    (quotedStringP_trails.alt literalP_trails).bind fun _ => Trails.success _).sepBy
      (token_trails (by decide))).seqLeft (token_trails (by decide))

theorem queryParser_trails (E : EdgeType) : Trails Blank (queryParser E) :=
  preambleP_trails.optional.bind fun _ => (Trails.many partParser_trails).bind fun _ => by
    dsimp only
    split
    case isTrue => exact (Trails.raise _).bind fun _ => Trails.success _
    case isFalse => exact (Trails.success _).bind fun _ => Trails.success _

end Parts

section Queries

variable {s r : PyStr}

-- What a lexeme leaves over begins with no blank.
theorem lexeme_rest {p : Parser α} {a : α} (h : lexeme p s = .success a r) : ∀ c ∈ r.head?, isspace c = false := by
  rw [lexeme_apply] at h
  obtain ⟨_, r', -, h⟩ := Outcome.bind_eq_success.mp h
  cases h
  exact dropWhile_isspace_head r'

theorem manyLoop_rest {p : Parser α} (hp : ∀ ⦃s a r⦄, p s = .success a r → ∀ c ∈ r.head?, isspace c = false) :
    ∀ n {s r as}, p.manyLoop n s = .success as r → (∀ c ∈ s.head?, isspace c = false) →
      ∀ c ∈ r.head?, isspace c = false
  | 0, _, _, _, h, _ => by cases h
  | n + 1, s, _, _, h, hs => by
    cases hps : p s with
    | success a r₁ =>
      rw [manyLoop_succ_success hps] at h
      obtain ⟨_, h, -⟩ := Outcome.map_eq_success.mp h
      exact manyLoop_rest hp n h (hp hps)
    | failure => rw [manyLoop_succ_failure hps] at h; cases h; exact hs
    | _ => simp [Parser.manyLoop, hps] at h

theorem preambleP_rest {d : List (PyStr × PyStr)} (h : preambleP s = .success d r) :
    ∀ c ∈ r.head?, isspace c = false := by
  rw [preambleP, seqLeft_apply] at h
  obtain ⟨_, _, -, h⟩ := Outcome.bind_eq_success.mp h
  obtain ⟨_, h, -⟩ := Outcome.map_eq_success.mp h
  exact lexeme_rest h

variable [Unicode] {E : EdgeType}

theorem partParser_rest {part : QueryModel.Part} (h : partParser s = .success part r) :
    ∀ c ∈ r.head?, isspace c = false := by
  obtain ⟨_, _, -, h⟩ := Outcome.bind_eq_success.mp h
  obtain ⟨_, r₁, hws, h⟩ := Outcome.bind_eq_success.mp h
  obtain ⟨_, r₂, hnav, h⟩ := Outcome.bind_eq_success.mp h
  obtain ⟨_, _, hpin, h⟩ := Outcome.bind_eq_success.mp h
  cases h
  cases hws
  -- the navigation, a lexeme, or none where the blanks after the term were dropped
  have h₂ : ∀ c ∈ r₂.head?, isspace c = false := by
    rcases Outcome.orElse_eq_success.mp hnav with h | ⟨-, h⟩
    · obtain ⟨_, h, -⟩ := Outcome.map_eq_success.mp h
      rcases Outcome.orElse_eq_success.mp h with h | ⟨-, h⟩
      on_goal 2 => rcases Outcome.orElse_eq_success.mp h with h | ⟨-, h⟩
      all_goals obtain ⟨_, h, -⟩ := Outcome.map_eq_success.mp h; exact lexeme_rest h
    · cases h
      exact dropWhile_isspace_head _
  -- the pin, a lexeme, or nothing read
  obtain ⟨_, h, -⟩ := Outcome.map_eq_success.mp hpin
  rcases Outcome.orElse_eq_success.mp h with h | ⟨-, h⟩
  · obtain ⟨_, h, -⟩ := Outcome.map_eq_success.mp h
    exact lexeme_rest h
  · cases h
    exact h₂

-- A query leaves over a text with no blank in front, where it was given one.
theorem queryParser_rest {q : Query} (h : queryParser E s = .success q r) (hs : ∀ c ∈ s.head?, isspace c = false) :
    ∀ c ∈ r.head?, isspace c = false := by
  obtain ⟨pre, r₁, hpre, h⟩ := Outcome.bind_eq_success.mp h
  have h₁ : ∀ c ∈ r₁.head?, isspace c = false := by
    rcases Outcome.orElse_eq_success.mp hpre with h | ⟨-, h⟩
    · obtain ⟨_, h, -⟩ := Outcome.map_eq_success.mp h
      exact preambleP_rest h
    · cases h
      exact hs
  obtain ⟨_, r₂, hparts, h⟩ := Outcome.bind_eq_success.mp h
  have h₂ := manyLoop_rest (fun _ _ _ => partParser_rest) _ hparts h₁
  dsimp only at h
  split at h
  · cases h
  · cases h
    exact h₂

-- A text that begins with no blank: the blanks after it are read past or left over alike.
theorem parseQuery_append_blanks (E : EdgeType) {t w : PyStr} (hw : ∀ c ∈ w, Blank c = true) (hne : t ≠ [])
    (ht : ∀ c ∈ t.head?, isspace c = false) : parseQuery E (t ++ w) = parseQuery E t := by
  have hq := queryParser_trails E t w hw
  rw [parseQuery, parseQuery, seqLeft_apply, seqLeft_apply]
  cases h : queryParser E t with
  | success q r =>
    rw [h] at hq
    obtain ⟨w', hw', h'⟩ := hq
    rw [h', Outcome.bind_success, Outcome.bind_success]
    cases r with
    | cons => rfl
    | nil =>
      have htw : ∀ c ∈ (t ++ w).head?, isspace c = false := by
        obtain ⟨c, t, rfl⟩ := List.exists_cons_of_ne_nil hne
        exact ht
      cases w' with
      | nil => rfl
      | cons c w' =>
        have := queryParser_rest h' htw c rfl
        rw [isspace_of_blank (hw' c (.head _))] at this
        cases this
  | failure => rw [h] at hq; rw [show queryParser E (t ++ w) = .failure from hq]
  | raise e => rw [h] at hq; rw [show queryParser E (t ++ w) = .raise e from hq]
  | diverge => exact absurd h ((queryParser_halts E).halts t (Nat.lt_succ_self _))

/-- Blanks after a query never change what `parse_query` makes of it: the same `Query`, a
`ParseError` (whose position the model leaves out) or the same exception. -/
theorem parseQuery_trailing_blanks (E : EdgeType) {s w : PyStr} (hw : ∀ c ∈ w, Blank c = true) (hs : s ≠ []) :
    parseQuery E (s ++ w) = parseQuery E s := by
  have hd := dropWhile_isspace_append (s := s) fun c hc => isspace_of_blank (hw c hc)
  by_cases h : preambleP (s.dropWhile isspace) ≠ .failure ∨ partParser (s.dropWhile isspace) ≠ .failure
  · have hne : s.dropWhile isspace ≠ [] := fun h₀ => by
      rw [h₀] at h
      exact h.elim (· rfl) (· rfl)
    rw [if_neg hne] at hd
    have h' : preambleP ((s ++ w).dropWhile isspace) ≠ .failure ∨ partParser ((s ++ w).dropWhile isspace) ≠ .failure := by
      rw [hd]
      exact h.imp (fun hp => (preambleP_trails _ w hw).ne_failure hp (preambleP_halts.halts _ (Nat.lt_succ_self _)))
        fun hp => (partParser_trails _ w hw).ne_failure hp (partParser_halts.halts _ (Nat.lt_succ_self _))
    rw [parseQuery_skips h', parseQuery_skips h, hd]
    exact parseQuery_append_blanks E hw hne (dropWhile_isspace_head s)
  · rw [not_or, not_not, not_not] at h
    have h' : preambleP ((s ++ w).dropWhile isspace) = .failure ∧ partParser ((s ++ w).dropWhile isspace) = .failure := by
      rw [hd]
      split_ifs with h₀
      · rw [← h₀]
        exact h
      · have hp := preambleP_trails (s.dropWhile isspace) w hw
        have hq := partParser_trails (s.dropWhile isspace) w hw
        rw [h.1] at hp
        rw [h.2] at hq
        exact ⟨hp, hq⟩
    rw [parseQuery_of_failure h'.1 h'.2, parseQuery_of_failure h.1 h.2, if_neg hs,
      if_neg (List.append_ne_nil_of_left_ne_nil hs w)]

end Queries

theorem parseQuery_trailing_blanks_newline :
    (∀ c ∈ ("\n  " : PyStr), @Blank Unicode.latin1 c = true) ∧ ("a == 1" : PyStr) ≠ [] ∧
      @parseQuery Unicode.latin1 EdgeType.defaultOnly (("a == 1" : PyStr) ++ "\n  ") =
        @parseQuery Unicode.latin1 EdgeType.defaultOnly "a == 1" :=
  ⟨by decide, by decide, @parseQuery_trailing_blanks Unicode.latin1 _ _ _ (by decide) (by decide)⟩

end QueryParser
