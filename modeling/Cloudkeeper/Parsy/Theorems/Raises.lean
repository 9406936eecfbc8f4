import Cloudkeeper.Parsy.Theorems.Basic

namespace Outcome

variable {o : Outcome α} {f : α → PyStr → Outcome β}

theorem bind_eq_raise :
    o.bind f = raise e ↔ o = raise e ∨ ∃ a r, o = success a r ∧ f a r = raise e := by
  cases o <;> simp [and_assoc]

theorem orElse_eq_raise {o' : Outcome α} :
    o.orElse o' = raise e ↔ o = raise e ∨ (o = failure ∧ o' = raise e) := by
  cases o <;> simp

@[simp] theorem map_eq_raise {g : α → β} : o.map g = raise e ↔ o = raise e := by
  cases o <;> simp

end Outcome

namespace Parser

/-- Every exception `p` raises satisfies `P`. -/
structure Raises (p : Parser α) (P : PyException → Prop) : Prop where
  raises : ∀ ⦃s e⦄, p s = .raise e → P e

namespace Raises

variable {P Q : PyException → Prop} {p : Parser α} {q : Parser β}

theorem mono (h : Raises p P) (hPQ : ∀ e, P e → Q e) : Raises p Q :=
  ⟨fun _ _ hs => hPQ _ (h.raises hs)⟩

theorem of_ne (h : ∀ s e, p s ≠ .raise e) : Raises p P :=
  ⟨fun s e hs => absurd hs (h s e)⟩

theorem pure (a : α) : Raises (pure a : Parser α) P := of_ne (by simp)
theorem success (a : α) : Raises (success a) P := pure a
theorem fail : Raises (fail : Parser α) P := of_ne (by simp)
theorem diverge : Raises (diverge : Parser α) P := of_ne (by simp)

theorem raise (h : P e) : Raises (raise e : Parser α) P :=
  ⟨fun _ _ hs => by cases hs; exact h⟩

theorem eof : Raises eof P :=
  of_ne fun s _ => by cases s <;> simp [Parser.eof]

theorem string (t : PyStr) : Raises (string t) P :=
  of_ne fun _ _ => by unfold Parser.string; split <;> simp

theorem testChar (pred : Nat → Bool) : Raises (testChar pred) P :=
  of_ne fun s _ => by cases s <;> simp; split <;> simp

theorem regexStar (cls : Nat → Bool) : Raises (regexStar cls) P :=
  of_ne (by simp [Parser.regexStar])

theorem regex (head tail : Nat → Bool) : Raises (regex head tail) P :=
  of_ne fun s _ => by cases s <;> simp; split <;> simp

theorem regexFixed : ∀ classes : List (Nat → Bool), Raises (regexFixed classes) P
  | [] => of_ne (by simp)
  | cls :: more => ⟨fun s e h => by
    cases s with
    | nil => cases h
    | cons c t =>
      simp only [regexFixed_cons_cons] at h
      split at h
      · exact (regexFixed more).raises (Outcome.map_eq_raise.mp h)
      · cases h⟩

theorem bind {f : α → Parser β} (hp : Raises p P) (hf : ∀ a, Raises (f a) P) :
    Raises (p >>= f) P := ⟨fun _ _ h => by
  rcases Outcome.bind_eq_raise.mp h with h | ⟨a, r, -, h⟩
  exacts [hp.raises h, (hf a).raises h]⟩

theorem map (f : α → β) (hp : Raises p P) : Raises (f <$> p) P :=
  hp.bind fun _ => pure _

theorem ite {c : Prop} [Decidable c] {q : Parser α} (hp : Raises p P) (hq : Raises q P) :
    Raises (if c then p else q) P := by
  split
  exacts [hp, hq]

theorem seqRight (hp : Raises p P) (hq : Raises q P) : Raises (p *> q) P :=
  hp.bind fun _ => hq

theorem seqLeft (hp : Raises p P) (hq : Raises q P) : Raises (p <* q) P :=
  hp.bind fun _ => hq.bind fun _ => pure _

theorem result (b : β) (hp : Raises p P) : Raises (p.result b) P :=
  hp.seqRight (success b)

theorem alt {q : Parser α} (hp : Raises p P) (hq : Raises q P) : Raises (p <|> q) P :=
  ⟨fun _ _ h => by
    rcases Outcome.orElse_eq_raise.mp h with h | ⟨-, h⟩
    exacts [hp.raises h, hq.raises h]⟩

theorem choice : ∀ {ps : List (Parser α)}, (∀ p ∈ ps, Raises p P) → Raises (Parser.choice ps) P
  | [], _ => fail
  | p :: ps, h => go (h p (.head _)) fun q hq => h q (.tail _ hq)
where
  go {p : Parser α} {ps : List (Parser α)} (hp : Raises p P) (h : ∀ q ∈ ps, Raises q P) :
      Raises (ps.foldl (· <|> ·) p) P := by
    induction ps generalizing p with
    | nil => exact hp
    | cons q ps ih => exact ih (hp.alt (h q (.head _))) fun r hr => h r (.tail _ hr)

-- What `f` raises, it raises on a value `p` yields.
theorem mapRaising {f : α → Except PyException β} {Q : α → Prop} (hp : Raises p P) (hy : Yields p Q)
    (hf : ∀ a e, Q a → f a = .error e → P e) : Raises (p.mapRaising f) P := ⟨fun _ _ h => by
  rcases Outcome.bind_eq_raise.mp h with h | ⟨a, r, ha, h⟩
  · exact hp.raises h
  · revert h
    split <;> intro h <;> cases h
    exact hf a _ (hy ha) ‹_›⟩

theorem withFuel {f : Nat → Parser α} (h : ∀ n, Raises (f n) P) : Raises (withFuel f) P :=
  ⟨fun _ _ hs => (h _).raises hs⟩

theorem manyLoop (hp : Raises p P) : ∀ n, Raises (p.manyLoop n) P
  | 0 => diverge
  | n + 1 => ⟨fun s e h => by
    simp only [Parser.manyLoop] at h
    split at h
    · exact (manyLoop hp n).raises (Outcome.map_eq_raise.mp h)
    · cases h
    · cases h; exact hp.raises ‹_›
    · cases h⟩

theorem many (hp : Raises p P) : Raises p.many P :=
  ⟨fun _ _ h => (manyLoop hp _).raises h⟩

theorem atLeast (hp : Raises p P) : ∀ n, Raises (p.atLeast n) P
  | 0 => many hp
  | n + 1 => hp.bind fun _ => (atLeast hp n).bind fun _ => pure _

theorem sepBy {sep : Parser β} (hp : Raises p P) (hs : Raises sep P) : Raises (p.sepBy sep) P :=
  (hp.bind fun _ => (many (hs.seqRight hp)).bind fun _ => pure _).alt (success _)

theorem optional (hp : Raises p P) : Raises p.optional P :=
  (hp.map some).alt (success none)

theorem plus {p q : Parser (List α)} (hp : Raises p P) (hq : Raises q P) : Raises (p.plus q) P :=
  hp.bind fun _ => hq.bind fun _ => pure _

theorem concat {p : Parser (List PyStr)} (hp : Raises p P) : Raises p.concat P :=
  hp.map _

end Raises

end Parser
