import Cloudkeeper.Parsy.Basic

namespace Outcome

variable {o : Outcome α} {f : α → PyStr → Outcome β}

@[simp] theorem bind_success : (success a r).bind f = f a r := rfl
@[simp] theorem bind_failure : (failure : Outcome α).bind f = failure := rfl
@[simp] theorem bind_raise : (raise e : Outcome α).bind f = raise e := rfl
@[simp] theorem bind_diverge : (diverge : Outcome α).bind f = diverge := rfl

@[simp] theorem map_success (g : α → β) : (success a r).map g = success (g a) r := rfl
@[simp] theorem map_failure (g : α → β) : (failure : Outcome α).map g = failure := rfl
@[simp] theorem map_raise (g : α → β) : (raise e : Outcome α).map g = raise e := rfl
@[simp] theorem map_diverge (g : α → β) : (diverge : Outcome α).map g = diverge := rfl

@[simp] theorem orElse_success : (success a r).orElse o = success a r := rfl
@[simp] theorem orElse_failure : (failure : Outcome α).orElse o = o := rfl
@[simp] theorem orElse_raise : (raise e : Outcome α).orElse o = raise e := rfl
@[simp] theorem orElse_diverge : (diverge : Outcome α).orElse o = diverge := rfl

theorem bind_eq_success :
    o.bind f = success b r ↔ ∃ a r', o = success a r' ∧ f a r' = success b r := by
  cases o <;> simp [and_assoc]

theorem bind_eq_diverge :
    o.bind f = diverge ↔ o = diverge ∨ ∃ a r, o = success a r ∧ f a r = diverge := by
  cases o <;> simp [and_assoc]

theorem orElse_eq_success {o' : Outcome α} :
    o.orElse o' = success a r ↔ o = success a r ∨ (o = failure ∧ o' = success a r) := by
  cases o <;> simp

theorem orElse_eq_diverge {o' : Outcome α} :
    o.orElse o' = diverge ↔ o = diverge ∨ (o = failure ∧ o' = diverge) := by
  cases o <;> simp

theorem map_eq_success {g : α → β} :
    o.map g = success b r ↔ ∃ a, o = success a r ∧ g a = b := by
  cases o <;> simp [eq_comm, and_comm, and_left_comm]

@[simp] theorem map_eq_diverge {g : α → β} : o.map g = diverge ↔ o = diverge := by
  cases o <;> simp

theorem bind_map {g : α → γ} {f : γ → PyStr → Outcome β} :
    (o.map g).bind f = o.bind fun a r => f (g a) r := by
  cases o <;> rfl

end Outcome

namespace Parser

variable {p q : Parser α} {s : PyStr}

@[simp] theorem pure_apply (a : α) : (pure a : Parser α) s = .success a s := rfl
@[simp] theorem success_apply (a : α) : success a s = .success a s := rfl
@[simp] theorem fail_apply : (fail : Parser α) s = .failure := rfl
@[simp] theorem raise_apply : (raise e : Parser α) s = .raise e := rfl
@[simp] theorem diverge_apply : (diverge : Parser α) s = .diverge := rfl
@[simp] theorem bind_apply (f : α → Parser β) : (p >>= f) s = (p s).bind f := rfl
@[simp] theorem map_apply (f : α → β) : (f <$> p) s = (p s).map f := rfl
@[simp] theorem seqRight_apply (q : Parser β) : (p *> q) s = (p s).bind fun _ => q := rfl
@[simp] theorem seqLeft_apply (q : Parser β) :
    (p <* q) s = (p s).bind fun a r => (q r).map fun _ => a := rfl
@[simp] theorem alt_apply : (p <|> q) s = (p s).orElse (q s) := rfl
@[simp] theorem result_apply (b : β) : p.result b s = (p s).map fun _ => b := rfl
@[simp] theorem withFuel_apply (f : Nat → Parser α) : withFuel f s = f (s.length + 1) s := rfl

theorem string_append (t rest : PyStr) : string t (t ++ rest) = .success t rest := by
  simp [string]

theorem string_of_not_prefix {t : PyStr} (h : ¬t <+: s) : string t s = .failure := by
  have : s.take t.length ≠ t := fun h' => h (h' ▸ List.take_prefix _ s)
  simp [string, this]

theorem string_cons_cons (c : Nat) (t s : PyStr) :
    string (c :: t) (c :: s) = (string t s).map (c :: ·) := by
  simp only [string, List.length_cons, List.take_succ_cons, List.cons.injEq, true_and,
    List.drop_succ_cons]
  split <;> rfl

theorem seqRight_of_failure {q : Parser β} (h : p s = .failure) : (p *> q) s = .failure := by
  simp [h]

theorem seqLeft_of_failure {q : Parser β} (h : p s = .failure) : (p <* q) s = .failure := by
  simp [h]

theorem string_eq_success {t a r : PyStr} : string t s = .success a r ↔ a = t ∧ s = t ++ r := by
  unfold string
  split <;> rename_i h
  · rw [← List.prefix_iff_eq_take.mpr h.symm |>.choose_spec]
    simp [eq_comm]
  · simp only [reduceCtorEq, false_iff, not_and]
    rintro rfl rfl
    simp at h

end Parser

namespace Parser

variable {s a r : PyStr}

@[simp] theorem testChar_nil {pred : Nat → Bool} : testChar pred [] = .failure := rfl

@[simp] theorem testChar_cons {pred : Nat → Bool} :
    testChar pred (c :: t) = if pred c then .success [c] t else .failure := rfl

@[simp] theorem regex_nil {head tail : Nat → Bool} : regex head tail [] = .failure := rfl

@[simp] theorem regex_cons {head tail : Nat → Bool} :
    regex head tail (c :: t) =
      if head c then .success (c :: t.takeWhile tail) (t.dropWhile tail) else .failure := rfl

theorem testChar_eq_success {pred : Nat → Bool} :
    testChar pred s = .success a r ↔ ∃ c, s = c :: r ∧ pred c = true ∧ a = [c] := by
  cases s with
  | nil => simp
  | cons c t =>
    by_cases h : pred c
    · simp only [testChar_cons, h, if_true, Outcome.success.injEq, List.cons.injEq]
      constructor
      · rintro ⟨rfl, rfl⟩; exact ⟨c, ⟨rfl, rfl⟩, h, rfl⟩
      · rintro ⟨c', ⟨rfl, rfl⟩, -, rfl⟩; exact ⟨rfl, rfl⟩
    · simp only [testChar_cons, h, if_false, reduceCtorEq, false_iff, not_exists, not_and,
        List.cons.injEq]
      rintro c' ⟨rfl, rfl⟩ h'
      exact absurd h' h

theorem regex_eq_success {head tail : Nat → Bool} :
    regex head tail s = .success a r ↔
      ∃ c t, s = c :: t ∧ head c = true ∧ a = c :: t.takeWhile tail ∧ r = t.dropWhile tail := by
  cases s with
  | nil => simp
  | cons c t =>
    by_cases h : head c
    · simp only [regex_cons, h, if_true, Outcome.success.injEq, List.cons.injEq]
      constructor
      · rintro ⟨rfl, rfl⟩; exact ⟨c, t, ⟨rfl, rfl⟩, h, rfl, rfl⟩
      · rintro ⟨c', t', ⟨rfl, rfl⟩, -, rfl, rfl⟩; exact ⟨rfl, rfl⟩
    · simp only [regex_cons, h, if_false, reduceCtorEq, false_iff, not_exists, not_and,
        List.cons.injEq]
      rintro c' t' ⟨rfl, rfl⟩ h'
      exact absurd h' h

theorem takeWhile_dropWhile_append {p : Nat → Bool} {u t : PyStr} (hu : ∀ c ∈ u, p c)
    (ht : ∀ c ∈ t.head?, p c = false) : (u ++ t).takeWhile p = u ∧ (u ++ t).dropWhile p = t := by
  have h : t.takeWhile p = [] ∧ t.dropWhile p = t := by cases t <;> simp_all
  rw [List.takeWhile_append_of_pos hu, List.dropWhile_append_of_pos hu, h.1, h.2, List.append_nil]
  exact ⟨rfl, rfl⟩

-- A scan stops at the first character outside its class.
theorem regexStar_append {cls : Nat → Bool} {u t : PyStr} (hu : ∀ c ∈ u, cls c)
    (ht : ∀ c ∈ t.head?, cls c = false) : regexStar cls (u ++ t) = .success u t := by
  obtain ⟨h₁, h₂⟩ := takeWhile_dropWhile_append hu ht
  show Outcome.success _ _ = _
  rw [h₁, h₂]

theorem regex_append {head tail : Nat → Bool} {u t : PyStr} (hc : head c) (hu : ∀ x ∈ u, tail x)
    (ht : ∀ x ∈ t.head?, tail x = false) : regex head tail (c :: (u ++ t)) = .success (c :: u) t := by
  obtain ⟨h₁, h₂⟩ := takeWhile_dropWhile_append hu ht
  simp only [regex_cons, hc, if_true, h₁, h₂]

@[simp] theorem regexFixed_nil : regexFixed [] s = .success [] s := rfl

@[simp] theorem regexFixed_cons_nil {cls : Nat → Bool} {more : List (Nat → Bool)} :
    regexFixed (cls :: more) [] = .failure := rfl

@[simp] theorem regexFixed_cons_cons {cls : Nat → Bool} {more : List (Nat → Bool)} :
    regexFixed (cls :: more) (c :: t) =
      if cls c then (regexFixed more t).map (c :: ·) else .failure := rfl

theorem regexFixed_eq_success : ∀ {classes : List (Nat → Bool)} {s a r : PyStr},
    regexFixed classes s = .success a r → ∃ u, s = u ++ r ∧ u.length = classes.length
  | [], s, a, r, h => by cases h; exact ⟨[], rfl, rfl⟩
  | cls :: more, [], a, r, h => by cases h
  | cls :: more, c :: t, a, r, h => by
    simp only [regexFixed_cons_cons] at h
    split at h
    · obtain ⟨a', h', -⟩ := Outcome.map_eq_success.mp h
      obtain ⟨u, rfl, hu⟩ := regexFixed_eq_success h'
      exact ⟨c :: u, rfl, by simp [hu]⟩
    · cases h

theorem regexFixed_ne_diverge : ∀ (classes : List (Nat → Bool)) (s : PyStr),
    regexFixed classes s ≠ .diverge
  | [], s => by simp
  | cls :: more, [] => by simp
  | cls :: more, c :: t => by
    simp only [regexFixed_cons_cons]
    split
    · simpa using regexFixed_ne_diverge more t
    · simp

end Parser

namespace Parser

section Loops

variable {p : Parser α} {sep : Parser β} {s r : PyStr} {a : α}

theorem manyLoop_succ_success (h : p s = .success a r) :
    p.manyLoop (n + 1) s = (p.manyLoop n r).map (a :: ·) := by
  simp only [manyLoop, h]

theorem manyLoop_succ_failure (h : p s = .failure) : p.manyLoop (n + 1) s = .success [] s := by
  simp only [manyLoop, h]

theorem sepBy_of_failure (h : p s = .failure) : p.sepBy sep s = .success [] s := by
  simp [sepBy, h]

theorem sepBy_of_success (h : p s = .success a r) (h' : (sep *> p).many r = .success as r') :
    p.sepBy sep s = .success (a :: as) r' := by
  simp only [sepBy, alt_apply, bind_apply, h, h', Outcome.bind_success]
  rfl

-- A property that `<|>` keeps and `fail` has holds of every `choice` of parsers that have it.
theorem choice_of_forall {P : Parser α → Prop} (halt : ∀ {p q}, P p → P q → P (p <|> q)) (hfail : P fail) :
    ∀ {ps : List (Parser α)}, (∀ p ∈ ps, P p) → P (choice ps)
  | [], _ => hfail
  | p :: ps, h => go (h p (.head _)) fun q hq => h q (.tail _ hq)
where
  go {p : Parser α} {ps : List (Parser α)} (hp : P p) (h : ∀ q ∈ ps, P q) : P (ps.foldl (· <|> ·) p) := by
    induction ps generalizing p with
    | nil => exact hp
    | cons q ps ih => exact ih (halt hp (h q (.head _))) fun r hr => h r (.tail _ hr)

end Loops

/-- Every value `p` succeeds with satisfies `P`. -/
def Yields (p : Parser α) (P : α → Prop) : Prop :=
  ∀ ⦃s a r⦄, p s = .success a r → P a

namespace Yields

variable {p q : Parser α} {P Q : α → Prop}

theorem mono (h : Yields p P) (hPQ : ∀ a, P a → Q a) : Yields p Q :=
  fun _ _ _ hs => hPQ _ (h hs)

theorem trivial : Yields p fun _ => True :=
  fun _ _ _ _ => True.intro

theorem pure (h : P a) : Yields (pure a) P :=
  fun _ _ _ hs => by cases hs; exact h

theorem bind {f : α → Parser β} {R : β → Prop} (hp : Yields p P) (hf : ∀ a, P a → Yields (f a) R) :
    Yields (p >>= f) R := fun _ _ _ h => by
  obtain ⟨a, r', h₁, h₂⟩ := Outcome.bind_eq_success.mp h
  exact hf a (hp h₁) h₂

theorem map {f : α → β} {R : β → Prop} (hp : Yields p P) (hf : ∀ a, P a → R (f a)) :
    Yields (f <$> p) R :=
  hp.bind fun a ha => .pure (hf a ha)

theorem seqRight {q : Parser β} {R : β → Prop} (hq : Yields q R) : Yields (p *> q) R :=
  fun _ _ _ h => by
    obtain ⟨a, r', -, h₂⟩ := Outcome.bind_eq_success.mp h
    exact hq h₂

theorem seqLeft {q : Parser β} (hp : Yields p P) : Yields (p <* q) P :=
  hp.bind fun _ ha _ _ _ h => by
    obtain ⟨_, -, rfl⟩ := Outcome.map_eq_success.mp h
    exact ha

theorem alt (hp : Yields p P) (hq : Yields q P) : Yields (p <|> q) P := fun _ _ _ h => by
  rcases Outcome.orElse_eq_success.mp h with h | ⟨-, h⟩
  exacts [hp h, hq h]

theorem manyLoop (hp : Yields p P) : ∀ n, Yields (p.manyLoop n) (∀ x ∈ ·, P x)
  | 0 => fun _ _ _ h => by cases h
  | n + 1 => fun s as r h => by
    simp only [Parser.manyLoop] at h
    split at h
    · obtain ⟨as', h', rfl⟩ := Outcome.map_eq_success.mp h
      exact List.forall_mem_cons.mpr ⟨hp ‹_›, manyLoop hp n h'⟩
    · cases h; exact fun _ h => nomatch h
    all_goals cases h

theorem many (hp : Yields p P) : Yields p.many (∀ x ∈ ·, P x) :=
  fun _ _ _ h => manyLoop hp _ h

theorem optional (hp : Yields p P) : Yields p.optional (∀ x ∈ ·, P x) :=
  (hp.map fun _ ha _ h => by cases h; exact ha).alt (.pure fun _ h => nomatch h)

theorem diverge : Yields (Parser.diverge : Parser α) P :=
  fun _ _ _ h => by cases h

theorem withFuel {f : Nat → Parser α} (h : ∀ n, Yields (f n) P) : Yields (withFuel f) P :=
  fun _ _ _ hs => h _ hs

theorem string (t : PyStr) : Yields (string t) (· = t) :=
  fun _ _ _ h => (string_eq_success.mp h).1

theorem testChar (pred : Nat → Bool) : Yields (testChar pred) (∀ c ∈ ·, pred c = true) :=
  fun _ _ _ h => by
    obtain ⟨c, -, hc, rfl⟩ := testChar_eq_success.mp h
    simpa using hc

theorem result {R : β → Prop} (b : β) (h : R b) : Yields (p.result b) R :=
  seqRight (pure h)

theorem atLeast (hp : Yields p P) : ∀ n, Yields (p.atLeast n) (∀ x ∈ ·, P x)
  | 0 => hp.many
  | n + 1 => hp.bind fun _ ha => (atLeast hp n).bind fun _ has => .pure (List.forall_mem_cons.mpr ⟨ha, has⟩)

theorem plus {p q : Parser (List α)} (hp : Yields p (∀ x ∈ ·, P x)) (hq : Yields q (∀ x ∈ ·, P x)) :
    Yields (p.plus q) (∀ x ∈ ·, P x) :=
  hp.bind fun _ ha => hq.bind fun _ hb => .pure (List.forall_mem_append.mpr ⟨ha, hb⟩)

theorem concat {p : Parser (List PyStr)} {R : Nat → Prop} (hp : Yields p (∀ x ∈ ·, ∀ c ∈ x, R c)) :
    Yields p.concat (∀ c ∈ ·, R c) :=
  hp.map fun _ h c hc => by
    obtain ⟨x, hx, hcx⟩ := List.mem_flatten.mp hc
    exact h x hx c hcx

theorem choice {ps : List (Parser α)} (h : ∀ p ∈ ps, Yields p P) : Yields (Parser.choice ps) P :=
  choice_of_forall alt (fun _ _ _ h => by cases h) h

end Yields

end Parser
