import Cloudkeeper.Parsy.Theorems.Basic

/-! Fuel only bounds how long a parser may run. `q` refines `p` when it ends alike wherever `p`
ends; the parsy combinators keep refinement, so a fuelled loop refines itself at more fuel, and two
fuels under which a run ends give the same outcome. -/

namespace Parser

theorem manyLoop_ne_failure (p : Parser α) : ∀ n s, p.manyLoop n s ≠ .failure
  | 0, _ => nofun
  | n + 1, s => by
    cases h : p s with
    | success a r =>
      rw [manyLoop_succ_success h]
      cases hr : p.manyLoop n r
      case failure => exact absurd hr (manyLoop_ne_failure p n r)
      all_goals exact nofun
    | _ => simp [Parser.manyLoop, h]

-- One turn of `many`: `p`, then the rest of the loop, or `[]` where `p` fails.
theorem manyLoop_succ_eq (p : Parser α) (n : Nat) :
    p.manyLoop (n + 1) = ((p >>= fun a => (a :: ·) <$> p.manyLoop n) <|> success []) := by
  funext s
  cases h : p s with
  | success a r =>
    rw [manyLoop_succ_success h, alt_apply, bind_apply, h, Outcome.bind_success, map_apply]
    cases hr : p.manyLoop n r
    case failure => exact absurd hr (manyLoop_ne_failure p n r)
    all_goals rfl
  | _ => simp [Parser.manyLoop, h]

-- Wherever `p` ends, `q` ends with the same outcome.
def Refines (p q : Parser α) : Prop :=
  ∀ s, p s ≠ .diverge → q s = p s

variable {p p' : Parser α} {q q' : Parser β}

namespace Refines

theorem refl (p : Parser α) : Refines p p := fun _ _ => rfl

theorem diverge (p : Parser α) : Refines Parser.diverge p := fun _ h => absurd rfl h

theorem trans {p'' : Parser α} (h : Refines p p') (h' : Refines p' p'') : Refines p p'' := fun s hs => by
  rw [h' s (by rwa [h s hs]), h s hs]

theorem bind {f f' : α → Parser β} (hp : Refines p p') (hf : ∀ a, Refines (f a) (f' a)) :
    Refines (p >>= f) (p' >>= f') := fun s hs => by
  rw [bind_apply] at hs
  rw [bind_apply, bind_apply, hp s fun h => hs (by rw [h]; rfl)]
  cases hps : p s with
  | success a r => exact hf a r (by rwa [hps] at hs)
  | _ => rfl

theorem map (g : α → β) (hp : Refines p p') : Refines (g <$> p) (g <$> p') := fun s hs => by
  rw [map_apply] at hs
  rw [map_apply, map_apply, hp s fun h => hs (by rw [h]; rfl)]

theorem seqRight (hp : Refines p p') (hq : Refines q q') : Refines (p *> q) (p' *> q') :=
  bind hp fun _ => hq

theorem seqLeft (hp : Refines p p') (hq : Refines q q') : Refines (p <* q) (p' <* q') :=
  bind hp fun _ => bind hq fun _ => refl _

theorem alt {q q' : Parser α} (hp : Refines p p') (hq : Refines q q') : Refines (p <|> q) (p' <|> q') :=
  fun s hs => by
    rw [alt_apply] at hs
    rw [alt_apply, alt_apply, hp s fun h => hs (by rw [h]; rfl)]
    cases hps : p s with
    | failure => exact hq s (by rwa [hps] at hs)
    | _ => rfl

theorem withFuel {f g : Nat → Parser α} (h : ∀ n, Refines (f n) (g n)) : Refines (withFuel f) (withFuel g) :=
  fun s => h _ s

theorem manyLoop (h : Refines p p') : ∀ n, Refines (p.manyLoop n) (p'.manyLoop n)
  | 0 => refl _
  | n + 1 => by
    rw [manyLoop_succ_eq, manyLoop_succ_eq]
    exact (h.bind fun _ => (Refines.manyLoop h n).map _).alt (refl _)

-- One more round never changes what `many` ends with.
theorem manyLoop_succ (p : Parser α) : ∀ n, Refines (p.manyLoop n) (p.manyLoop (n + 1))
  | 0 => diverge _
  | n + 1 => by
    rw [manyLoop_succ_eq p n, manyLoop_succ_eq p (n + 1)]
    exact ((refl p).bind fun _ => (manyLoop_succ p n).map _).alt (refl _)

theorem many (h : Refines p p') : Refines p.many p'.many :=
  withFuel (Refines.manyLoop h)

theorem sepBy {sep : Parser β} (h : Refines p p') : Refines (p.sepBy sep) (p'.sepBy sep) :=
  (h.bind fun _ => ((refl sep).seqRight h).many.bind fun _ => refl _).alt (refl _)

section Fuel

variable {f : Nat → Parser α} (h : ∀ n, Refines (f n) (f (n + 1)))
include h

theorem fuel_mono {n m : Nat} (hnm : n ≤ m) : Refines (f n) (f m) := by
  induction hnm with
  | refl => exact refl _
  | step _ ih => exact ih.trans (h _)

-- Two fuels under which the run ends agree.
theorem fuel_agree {n m : Nat} {s : PyStr} (hn : f n s ≠ .diverge) (hm : f m s ≠ .diverge) :
    f n s = f m s := by
  rcases Nat.le_total n m with hnm | hnm
  · exact (fuel_mono h hnm s hn).symm
  · exact fuel_mono h hnm s hm

end Fuel

end Refines

end Parser
