import Cloudkeeper.Parsy.Theorems.Basic

namespace Parser

/-- `p` never hands back more input than it was given, and it does not diverge on any input
shorter than `k`. -/
structure Halts (k : Nat) (p : Parser α) : Prop where
  shrinks : ∀ ⦃s a r⦄, p s = .success a r → r.length ≤ s.length
  halts : ∀ s, s.length < k → p s ≠ .diverge

/-- Every success of `p` consumes at least one character. -/
def Consumes (p : Parser α) : Prop :=
  ∀ ⦃s a r⦄, p s = .success a r → r.length < s.length

variable {k : Nat} {p : Parser α} {q : Parser β}

namespace Consumes

theorem string {t : PyStr} (ht : t ≠ []) : Consumes (string t) := fun _ _ _ h => by
  obtain ⟨rfl, rfl⟩ := string_eq_success.mp h
  simp [List.length_pos.mpr ht]

theorem testChar (pred : Nat → Bool) : Consumes (testChar pred) := fun _ _ _ h => by
  obtain ⟨c, rfl, -, -⟩ := testChar_eq_success.mp h
  simp

theorem regex (head tail : Nat → Bool) : Consumes (regex head tail) := fun _ _ _ h => by
  obtain ⟨c, t, rfl, -, -, rfl⟩ := regex_eq_success.mp h
  simpa using Nat.lt_succ_of_le (List.dropWhile_suffix tail).length_le

end Consumes

namespace Halts

theorem mono (h : Halts k p) (hk : k' ≤ k) : Halts k' p :=
  ⟨h.shrinks, fun s hs => h.halts s (by omega)⟩

theorem of_total (hs : ∀ ⦃s a r⦄, p s = .success a r → r.length ≤ s.length)
    (hd : ∀ s, p s ≠ .diverge) : Halts k p :=
  ⟨hs, fun s _ => hd s⟩

theorem pure (a : α) : Halts k (pure a : Parser α) :=
  of_total (fun _ _ _ h => by cases h; rfl) (by simp)

theorem success (a : α) : Halts k (success a) :=
  pure a

theorem fail : Halts k (fail : Parser α) :=
  of_total (by simp) (by simp)

theorem raise : Halts k (raise e : Parser α) :=
  of_total (by simp) (by simp)

theorem diverge : Halts 0 (diverge : Parser α) :=
  ⟨by simp, fun _ h => absurd h (by simp)⟩

theorem eof : Halts k eof :=
  of_total (fun s _ _ h => by cases s <;> cases h; rfl) (fun s => by cases s <;> simp [Parser.eof])

theorem string (t : PyStr) : Halts k (string t) :=
  of_total (fun _ _ _ h => by obtain ⟨rfl, rfl⟩ := string_eq_success.mp h; simp)
    (fun _ => by unfold Parser.string; split <;> simp)

theorem testChar (pred : Nat → Bool) : Halts k (testChar pred) :=
  of_total (fun _ _ _ h => (Consumes.testChar pred h).le)
    (fun s => by cases s <;> simp; split <;> simp)

theorem regexStar (cls : Nat → Bool) : Halts k (regexStar cls) :=
  of_total (fun s _ _ h => by cases h; exact (List.dropWhile_suffix cls).length_le) (by simp [Parser.regexStar])

theorem regex (head tail : Nat → Bool) : Halts k (regex head tail) :=
  of_total (fun _ _ _ h => (Consumes.regex head tail h).le)
    (fun s => by cases s <;> simp; split <;> simp)

theorem regexFixed (classes : List (Nat → Bool)) : Halts k (regexFixed classes) :=
  of_total (fun _ _ _ h => by obtain ⟨u, rfl, -⟩ := regexFixed_eq_success h; simp)
    (regexFixed_ne_diverge classes)

theorem bind {f : α → Parser β} (hp : Halts k p) (hf : ∀ a, Halts k (f a)) : Halts k (p >>= f) where
  shrinks s b r h := by
    obtain ⟨a, r', h₁, h₂⟩ := Outcome.bind_eq_success.mp h
    exact ((hf a).shrinks h₂).trans (hp.shrinks h₁)
  halts s hs h := by
    rcases Outcome.bind_eq_diverge.mp h with h | ⟨a, r, h₁, h₂⟩
    · exact hp.halts s hs h
    · exact (hf a).halts r (by have := hp.shrinks h₁; omega) h₂

-- The continuation may halt on less input than `p` when `p` has consumed some.
theorem bind_consumes {f : α → Parser β} (hp : Halts (k + 1) p) (hc : Consumes p)
    (hf : ∀ a, Halts k (f a)) : Halts (k + 1) (p >>= f) where
  shrinks s b r h := by
    obtain ⟨a, r', h₁, h₂⟩ := Outcome.bind_eq_success.mp h
    exact ((hf a).shrinks h₂).trans (hp.shrinks h₁)
  halts s hs h := by
    rcases Outcome.bind_eq_diverge.mp h with h | ⟨a, r, h₁, h₂⟩
    · exact hp.halts s hs h
    · exact (hf a).halts r (by have := hc h₁; omega) h₂

theorem map (f : α → β) (hp : Halts k p) : Halts k (f <$> p) :=
  hp.bind fun _ => pure _

theorem ite {c : Prop} [Decidable c] {q : Parser α} (hp : Halts k p) (hq : Halts k q) :
    Halts k (if c then p else q) := by
  split
  exacts [hp, hq]

theorem seqRight_consumes (hp : Halts (k + 1) p) (hc : Consumes p) (hq : Halts k q) :
    Halts (k + 1) (p *> q) :=
  hp.bind_consumes hc fun _ => hq

theorem seqRight (hp : Halts k p) (hq : Halts k q) : Halts k (p *> q) :=
  hp.bind fun _ => hq

theorem seqLeft (hp : Halts k p) (hq : Halts k q) : Halts k (p <* q) :=
  hp.bind fun _ => hq.bind fun _ => pure _

theorem result (b : β) (hp : Halts k p) : Halts k (p.result b) :=
  hp.seqRight (success b)

theorem alt {q : Parser α} (hp : Halts k p) (hq : Halts k q) : Halts k (p <|> q) where
  shrinks s a r h := by
    rcases Outcome.orElse_eq_success.mp h with h | ⟨-, h⟩
    exacts [hp.shrinks h, hq.shrinks h]
  halts s hs h := by
    rcases Outcome.orElse_eq_diverge.mp h with h | ⟨-, h⟩
    exacts [hp.halts s hs h, hq.halts s hs h]

theorem choice : ∀ {ps : List (Parser α)}, (∀ p ∈ ps, Halts k p) → Halts k (Parser.choice ps)
  | [], _ => fail
  | p :: ps, h => go (h p (.head _)) fun q hq => h q (.tail _ hq)
where
  go {p : Parser α} {ps : List (Parser α)} (hp : Halts k p) (h : ∀ q ∈ ps, Halts k q) :
      Halts k (ps.foldl (· <|> ·) p) := by
    induction ps generalizing p with
    | nil => exact hp
    | cons q ps ih => exact ih (hp.alt (h q (.head _))) fun r hr => h r (.tail _ hr)

theorem mapRaising {f : α → Except PyException β} (hp : Halts k p) : Halts k (p.mapRaising f) where
  shrinks s b r h := by
    obtain ⟨a, r', h₁, h₂⟩ := Outcome.bind_eq_success.mp h
    split at h₂
    · cases h₂; exact hp.shrinks h₁
    · cases h₂
  halts s hs h := by
    rcases Outcome.bind_eq_diverge.mp h with h | ⟨a, r, -, h₂⟩
    · exact hp.halts s hs h
    · split at h₂ <;> cases h₂

theorem withFuel {f : Nat → Parser α} (h : ∀ n, Halts (min n k) (f n)) : Halts k (withFuel f) :=
  ⟨fun s _ _ hs => (h _).shrinks hs, fun s hs => (h _).halts s (by omega)⟩

theorem manyLoop (hp : Halts k p) (hc : Consumes p) :
    ∀ n, Halts (min n k) (p.manyLoop n)
  | 0 => ⟨by simp [Parser.manyLoop], fun s hs => absurd hs (by simp)⟩
  | n + 1 => by
    have ih := manyLoop hp hc n
    constructor
    · intro s as r h
      simp only [Parser.manyLoop] at h
      split at h
      · obtain ⟨as', h', -⟩ := Outcome.map_eq_success.mp h
        exact (ih.shrinks h').trans (hp.shrinks ‹_›)
      · cases h; rfl
      all_goals cases h
    · intro s hs h
      simp only [Parser.manyLoop] at h
      split at h
      · exact ih.halts _ (by have := hc ‹_›; omega) (Outcome.map_eq_diverge.mp h)
      · cases h
      · cases h
      · exact hp.halts s (by omega) ‹_›

theorem many (hp : Halts k p) (hc : Consumes p) : Halts k p.many where
  shrinks s a r h := (manyLoop hp hc _).shrinks h
  halts s hs := (manyLoop hp hc _).halts s (by omega)

theorem atLeast (hp : Halts k p) (hc : Consumes p) : ∀ n, Halts k (p.atLeast n)
  | 0 => many hp hc
  | n + 1 => hp.bind fun _ => (atLeast hp hc n).bind fun _ => pure _

theorem sepBy {sep : Parser β} (hp : Halts k p) (hs : Halts k sep) (hc : Consumes sep) :
    Halts k (p.sepBy sep) :=
  (hp.bind fun _ => (many (hs.seqRight hp) fun _ _ _ h => by
    obtain ⟨a, r', h₁, h₂⟩ := Outcome.bind_eq_success.mp h
    have := hc h₁; have := hp.shrinks h₂; omega).bind fun _ => pure _).alt (success _)

theorem optional (hp : Halts k p) : Halts k p.optional :=
  (hp.map some).alt (success none)

theorem plus {p q : Parser (List α)} (hp : Halts k p) (hq : Halts k q) :
    Halts k (p.plus q) :=
  hp.bind fun _ => hq.bind fun _ => pure _

theorem concat {p : Parser (List PyStr)} (hp : Halts k p) : Halts k p.concat :=
  hp.map _

end Halts

namespace Consumes

theorem bind {f : α → Parser β} (hp : Consumes p) (hf : ∀ a, Halts 0 (f a)) :
    Consumes (p >>= f) := fun _ _ _ h => by
  obtain ⟨a, r', h₁, h₂⟩ := Outcome.bind_eq_success.mp h
  exact ((hf a).shrinks h₂).trans_lt (hp h₁)

theorem bind_right {f : α → Parser β} (hp : Halts 0 p) (hf : ∀ a, Consumes (f a)) :
    Consumes (p >>= f) := fun _ _ _ h => by
  obtain ⟨a, r', h₁, h₂⟩ := Outcome.bind_eq_success.mp h
  exact (hf a h₂).trans_le (hp.shrinks h₁)

theorem map (f : α → β) (hp : Consumes p) : Consumes (f <$> p) :=
  hp.bind fun _ => .pure _

theorem seqRight (hp : Consumes p) (hq : Halts 0 q) : Consumes (p *> q) :=
  hp.bind fun _ => hq

theorem seqRight_right (hp : Halts 0 p) (hq : Consumes q) : Consumes (p *> q) :=
  bind_right hp fun _ => hq

theorem seqLeft (hp : Consumes p) (hq : Halts 0 q) : Consumes (p <* q) :=
  hp.bind fun _ => hq.bind fun _ => .pure _

theorem alt {q : Parser α} (hp : Consumes p) (hq : Consumes q) : Consumes (p <|> q) := fun _ _ _ h => by
  rcases Outcome.orElse_eq_success.mp h with h | ⟨-, h⟩
  exacts [hp h, hq h]

theorem choice : ∀ {ps : List (Parser α)}, (∀ p ∈ ps, Consumes p) → Consumes (Parser.choice ps)
  | [], _ => fun _ _ _ h => by cases h
  | p :: ps, h => go (h p (.head _)) fun q hq => h q (.tail _ hq)
where
  go {p : Parser α} {ps : List (Parser α)} (hp : Consumes p) (h : ∀ q ∈ ps, Consumes q) :
      Consumes (ps.foldl (· <|> ·) p) := by
    induction ps generalizing p with
    | nil => exact hp
    | cons q ps ih => exact ih (hp.alt (h q (.head _))) fun r hr => h r (.tail _ hr)

theorem result (b : β) (hp : Consumes p) : Consumes (p.result b) :=
  hp.seqRight (.success b)

theorem withFuel {f : Nat → Parser α} (h : ∀ n, Consumes (f n)) : Consumes (withFuel f) :=
  fun _ _ _ hs => h _ hs

end Consumes

end Parser
