import Cloudkeeper.Query.Parser
import Cloudkeeper.Parsy.Theorems.Basic

namespace QueryParser

open Parser

-- The one-letter escapes of a JSON string, each with the character it stands for.
def escapes : List (Nat × Nat) :=
  [(92, 92), (47, 47), (34, 34), (98, 8), (102, 12), (110, 10), (114, 13), (116, 9)]

/-- One piece of the body of a JSON string literal: a character written as itself, a one-letter
escape, or `\u` with four hex digits. -/
inductive LitPiece where
  | raw (c : Nat) (unescaped : isStringChar c = true)
  | escape (e : Nat × Nat) (mem : e ∈ escapes)
  | unicode (digits : List Nat) (length : digits.length = 4)
      (hex : ∀ d ∈ digits, isHexDigit d = true)

namespace LitPiece

def text : LitPiece → PyStr
  | raw c _ => [c]
  | escape e _ => [92, e.1]
  | unicode digits _ _ => 92 :: 117 :: digits

-- What a piece stands for when `\uXXXX` is read as the one code point `XXXX`.
def value : LitPiece → PyStr
  | raw c _ => [c]
  | escape e _ => [e.2]
  | unicode digits _ _ => [hexValue digits]

def isRaw : LitPiece → Bool
  | raw .. => true
  | _ => false

end LitPiece

-- The literal `"…"` with the given pieces between its quotes.
def literal (pieces : List LitPiece) : PyStr :=
  34 :: (pieces.map LitPiece.text).flatten ++ [34]

open LitPiece

theorem stringEsc_escape {e : Nat × Nat} (h : e ∈ escapes) (t : PyStr) :
    stringEsc (92 :: e.1 :: t) = .success [e.2] t := by
  simp only [escapes, List.mem_cons, List.mem_singleton, List.not_mem_nil, or_false] at h
  rcases h with rfl | rfl | rfl | rfl | rfl | rfl | rfl | rfl <;> rfl

theorem stringEsc_unicode {digits : List Nat} (hl : digits.length = 4)
    (hex : ∀ d ∈ digits, isHexDigit d = true) (t : PyStr) :
    stringEsc (92 :: 117 :: (digits ++ t)) = .success [hexValue digits] t := by
  match digits, hl with
  | [a, b, c, d], _ =>
    have : stringEsc (92 :: 117 :: a :: b :: c :: d :: t) =
        ((fun s => [hexValue (s.drop 1)]) <$>
          regexFixed [(· == 117), isHexDigit, isHexDigit, isHexDigit, isHexDigit])
          (117 :: a :: b :: c :: d :: t) := rfl
    simp_all

theorem text_takeWhile_isRaw :
    ∀ ps : List LitPiece, ∀ x ∈ ((ps.takeWhile isRaw).map text).flatten, isStringChar x = true
  | [] => by simp
  | raw c hc :: ps => by
    simpa [isRaw, text, hc] using text_takeWhile_isRaw ps
  | escape .. :: _ | unicode .. :: _ => by simp [isRaw]

theorem value_takeWhile_isRaw : ∀ ps : List LitPiece,
    ((ps.takeWhile isRaw).map value).flatten = ((ps.takeWhile isRaw).map text).flatten
  | [] => rfl
  | raw c hc :: ps => by simpa [isRaw, text, value] using value_takeWhile_isRaw ps
  | escape .. :: _ | unicode .. :: _ => rfl

-- After a run of raw characters comes an escape or the closing quote.
theorem head_dropWhile_isRaw : ∀ (ps : List LitPiece) (more : PyStr),
    ∀ x ∈ (((ps.dropWhile isRaw).map text).flatten ++ 34 :: more).head?, isStringChar x = false
  | [], _ => by simp [isStringChar]
  | raw c hc :: ps, more => by simpa [isRaw] using head_dropWhile_isRaw ps more
  | escape .. :: _, _ | unicode .. :: _, _ => by simp [isRaw, text, isStringChar]

theorem text_takeWhile_append_dropWhile (ps : List LitPiece) :
    (ps.map text).flatten =
      ((ps.takeWhile isRaw).map text).flatten ++ ((ps.dropWhile isRaw).map text).flatten := by
  conv_lhs => rw [← List.takeWhile_append_dropWhile isRaw ps]
  rw [List.map_append, List.flatten_append]

-- One turn of the `(string_part | string_esc).many()` loop: escapes one at a time, and raw
-- characters a whole run at a time.
theorem stringLoop_body : ∀ n (ps : List LitPiece) (more : PyStr),
    (ps.map text).flatten.length < n → ∃ xs : List PyStr,
      (stringPart <|> stringEsc).manyLoop n ((ps.map text).flatten ++ 34 :: more) =
        .success xs (34 :: more) ∧ xs.flatten = (ps.map value).flatten
  | 0, _, _, h => absurd h (Nat.not_lt_zero _)
  | n + 1, [], more, _ => ⟨[], rfl, rfl⟩
  | n + 1, escape e he :: ps, more, h => by
    obtain ⟨xs, hxs, hv⟩ := stringLoop_body n ps more (by simp [text] at h ⊢; omega)
    have step : (stringPart <|> stringEsc) (92 :: e.1 :: ((ps.map text).flatten ++ 34 :: more)) =
        .success [e.2] ((ps.map text).flatten ++ 34 :: more) := by
      rw [alt_apply, stringEsc_escape he]; rfl
    exact ⟨[e.2] :: xs, by simp [text, Parser.manyLoop, step, hxs], by simp [value, hv]⟩
  | n + 1, unicode ds hl hex :: ps, more, h => by
    obtain ⟨xs, hxs, hv⟩ := stringLoop_body n ps more (by simp [text, hl] at h ⊢; omega)
    have step : (stringPart <|> stringEsc)
        (92 :: 117 :: (ds ++ ((ps.map text).flatten ++ 34 :: more))) =
        .success [hexValue ds] ((ps.map text).flatten ++ 34 :: more) := by
      rw [alt_apply, stringEsc_unicode hl hex]; rfl
    exact ⟨[hexValue ds] :: xs, by simp [text, Parser.manyLoop, step, hxs], by simp [value, hv]⟩
  | n + 1, raw c hc :: ps, more, h => by
    have hsplit := text_takeWhile_append_dropWhile ps
    obtain ⟨xs, hxs, hv⟩ := stringLoop_body n (ps.dropWhile isRaw) more (by
      simp only [List.map_cons, List.flatten_cons, List.length_append, text, hsplit] at h
      simp only [List.singleton_append, List.length_cons] at h
      omega)
    have step : stringPart (c :: (((ps.takeWhile isRaw).map text).flatten ++
        (((ps.dropWhile isRaw).map text).flatten ++ 34 :: more))) =
        .success (c :: ((ps.takeWhile isRaw).map text).flatten)
          (((ps.dropWhile isRaw).map text).flatten ++ 34 :: more) :=
      regex_append hc (text_takeWhile_isRaw ps) (head_dropWhile_isRaw ps more)
    refine ⟨(c :: ((ps.takeWhile isRaw).map text).flatten) :: xs, ?_, ?_⟩
    · simp [text, hsplit, Parser.manyLoop, step, hxs]
    · conv_rhs => rw [← List.takeWhile_append_dropWhile isRaw ps]
      simp only [List.map_cons, List.map_append, List.flatten_cons, List.flatten_append,
        value_takeWhile_isRaw, hv, value, List.singleton_append, List.cons_append, List.nil_append]

theorem stringP_body (ps : List LitPiece) (more : PyStr) :
    stringP ((ps.map text).flatten ++ 34 :: more) =
      .success (ps.map value).flatten (34 :: more) := by
  obtain ⟨xs, hxs, hv⟩ :=
    stringLoop_body (((ps.map text).flatten ++ 34 :: more).length + 1) ps more (by simp; omega)
  simp only [stringP, concat, many, map_apply, withFuel_apply, hxs, Outcome.map_success, hv]

/-- `quotedStringP` reads a JSON string literal, with the whitespace around it, piece by piece:
`\uXXXX` stands for the one code point `XXXX`. -/
theorem quotedStringP_literal (ps : List LitPiece) {ws ws' rest : PyStr}
    (hws : ∀ c ∈ ws, isspace c = true) (hws' : ∀ c ∈ ws', isspace c = true)
    (hrest : ∀ c ∈ rest.head?, isspace c = false) :
    quotedStringP (ws ++ literal ps ++ ws' ++ rest) = .success (ps.map value).flatten rest := by
  have h₁ : whitespace (ws ++ literal ps ++ ws' ++ rest) =
      .success ws (literal ps ++ ws' ++ rest) := by
    simpa using regexStar_append hws (by simp [literal, isspace])
  have h₂ : whitespace (ws' ++ rest) = .success ws' rest := regexStar_append hws' hrest
  have h₃ : literal ps ++ ws' ++ rest = 34 :: ((ps.map text).flatten ++ 34 :: (ws' ++ rest)) := by
    simp [literal]
  have quote (t : PyStr) : string "\"" (34 :: t) = .success "\"" t := string_append _ t
  simp only [quotedStringP, lexeme, seqLeft_apply, seqRight_apply, h₁, Outcome.bind_success]
  rw [h₃]
  simp only [quote, stringP_body, Outcome.bind_success, Outcome.map_success, h₂]

theorem quotedStringP_literal_example :
    quotedStringP ([32] ++ literal [.raw 97 rfl, .escape (110, 10) (by decide),
        .unicode [48, 48, 101, 57] rfl (by decide)] ++ [32] ++ [41]) =
      .success ([.raw 97 rfl, .escape (110, 10) (by decide),
        .unicode [48, 48, 101, 57] rfl (by decide)].map value).flatten [41] :=
  @quotedStringP_literal _ [32] [32] [41] (by decide) (by decide) (by decide)

-- A surrogate pair is read as two lone surrogates, not as the character JSON reads it as.
theorem quotedStringP_surrogate_pair :
    quotedStringP "\"\\ud83d\\ude00\"" = .success [0xD83D, 0xDE00] [] ∧
      ([0xD83D, 0xDE00] : PyStr) ≠ "😀" :=
  ⟨rfl, by decide⟩

end QueryParser
