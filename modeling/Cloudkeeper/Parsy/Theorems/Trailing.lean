import Cloudkeeper.Parsy.Theorems.Fuel

/-! Characters appended to the input, of a class `B` that a parser never reads at its end, change
nothing the parser does but what it leaves over: the same value, the same failure, the same
exception. Each parsy combinator keeps this, and so do the loops, whose fuel grows with the input. -/

namespace Parser

section Trailing

variable (B : Nat → Bool)

/-- `o'` is `o` with characters of `B` after its rest. A run that does not end says nothing. -/
def Ext : Outcome α → Outcome α → Prop
  | .success a r, o' => ∃ w, (∀ c ∈ w, B c = true) ∧ o' = .success a (r ++ w)
  | .failure, o' => o' = .failure
  | .raise e, o' => o' = .raise e
  | .diverge, _ => True

-- Appending characters of `B` to the input changes nothing `p` does but what it leaves over.
def Trails (p : Parser α) : Prop :=
  ∀ s w, (∀ c ∈ w, B c = true) → Ext B (p s) (p (s ++ w))

variable {B} {o o' : Outcome α}

namespace Ext

theorem refl : ∀ o : Outcome α, Ext B o o
  | .success _ _ => ⟨[], by simp⟩
  | .failure | .raise _ => rfl
  | .diverge => trivial

theorem ne_diverge (h : Ext B o o') (ho : o ≠ .diverge) : o' ≠ .diverge := by
  cases o with
  | success a r => obtain ⟨w, -, rfl⟩ := h; exact nofun
  | failure => rw [show o' = .failure from h]; exact nofun
  | raise e => rw [show o' = .raise e from h]; exact nofun
  | diverge => exact absurd rfl ho

theorem ne_failure (h : Ext B o o') (ho : o ≠ .failure) (hd : o ≠ .diverge) : o' ≠ .failure := by
  cases o with
  | success a r => obtain ⟨w, -, rfl⟩ := h; exact nofun
  | failure => exact absurd rfl ho
  | raise e => rw [show o' = .raise e from h]; exact nofun
  | diverge => exact absurd rfl hd

theorem bind {f : α → PyStr → Outcome β} (h : Ext B o o')
    (hf : ∀ a r w, (∀ c ∈ w, B c = true) → Ext B (f a r) (f a (r ++ w))) : Ext B (o.bind f) (o'.bind f) := by
  cases o with
  | success a r => obtain ⟨w, hw, rfl⟩ := h; exact hf a r w hw
  | failure => rw [show o' = .failure from h]; exact refl _
  | raise e => rw [show o' = .raise e from h]; exact refl _
  | diverge => trivial

theorem map (g : α → β) (h : Ext B o o') : Ext B (o.map g) (o'.map g) :=
  h.bind fun _ _ w hw => ⟨w, hw, rfl⟩

theorem orElse {x x' : Outcome α} (h : Ext B o o') (hx : Ext B x x') : Ext B (o.orElse x) (o'.orElse x') := by
  cases o with
  | success a r => obtain ⟨w, hw, rfl⟩ := h; exact ⟨w, hw, rfl⟩
  | failure => rw [show o' = .failure from h]; exact hx
  | raise e => rw [show o' = .raise e from h]; rfl
  | diverge => trivial

end Ext

-- A scan that stops at a character not of `w` reads the same on `s ++ w`.
theorem scan_append {p : Nat → Bool} {s w : PyStr} (hw : ∀ c ∈ w.head?, p c = false) :
    (s ++ w).takeWhile p = s.takeWhile p ∧ (s ++ w).dropWhile p = s.dropWhile p ++ w := by
  induction s with
  | nil => cases w <;> simp_all
  | cons c s ih => by_cases hc : p c <;> simp_all [List.takeWhile_cons, List.dropWhile_cons]

-- A scan that stops inside `s` stops at the same place on `s ++ w`.
theorem scan_append_of_ne {p : Nat → Bool} {s : PyStr} (h : s.dropWhile p ≠ []) (w : PyStr) :
    (s ++ w).takeWhile p = s.takeWhile p ∧ (s ++ w).dropWhile p = s.dropWhile p ++ w := by
  induction s with
  | nil => exact absurd rfl h
  | cons c s ih =>
    by_cases hc : p c
    · rw [List.dropWhile_cons_of_pos hc] at h
      simp [List.takeWhile_cons, List.dropWhile_cons, hc, ih h]
    · simp [List.takeWhile_cons, List.dropWhile_cons, hc]

theorem regex_eq_failure_or (head tail : Nat → Bool) (s : PyStr) :
    regex head tail s = .failure ∨ ∃ a r, regex head tail s = .success a r := by
  cases s with
  | nil => exact .inl rfl
  | cons c t =>
    rw [regex_cons]
    split
    exacts [.inr ⟨_, _, rfl⟩, .inl rfl]

namespace Trails

variable {p : Parser α} {q : Parser β}

theorem success (a : α) : Trails B (success a) :=
  fun _ w hw => ⟨w, hw, rfl⟩

theorem fail : Trails B (fail : Parser α) :=
  fun _ _ _ => rfl

theorem raise (e : PyException) : Trails B (raise e : Parser α) :=
  fun _ _ _ => rfl

theorem diverge : Trails B (diverge : Parser α) :=
  fun _ _ _ => trivial

theorem bind {f : α → Parser β} (hp : Trails B p) (hf : ∀ a, Trails B (f a)) : Trails B (p >>= f) :=
  fun s w hw => (hp s w hw).bind fun a r w' hw' => hf a r w' hw'

theorem map (g : α → β) (hp : Trails B p) : Trails B (g <$> p) :=
  fun s w hw => (hp s w hw).map g

theorem seqRight (hp : Trails B p) (hq : Trails B q) : Trails B (p *> q) :=
  bind hp fun _ => hq

theorem seqLeft (hp : Trails B p) (hq : Trails B q) : Trails B (p <* q) :=
  bind hp fun _ => bind hq fun _ => success _

theorem alt {q : Parser α} (hp : Trails B p) (hq : Trails B q) : Trails B (p <|> q) :=
  fun s w hw => (hp s w hw).orElse (hq s w hw)

theorem choice {ps : List (Parser α)} (h : ∀ p ∈ ps, Trails B p) : Trails B (Parser.choice ps) :=
  choice_of_forall alt fail h

theorem result (b : β) (hp : Trails B p) : Trails B (p.result b) :=
  seqRight hp (success b)

theorem concat {p : Parser (List PyStr)} (hp : Trails B p) : Trails B p.concat :=
  map _ hp

theorem plus {p q : Parser (List α)} (hp : Trails B p) (hq : Trails B q) : Trails B (p.plus q) :=
  bind hp fun _ => bind hq fun _ => success _

theorem mapRaising {f : α → Except PyException β} (hp : Trails B p) : Trails B (p.mapRaising f) :=
  fun s w hw => (hp s w hw).bind fun a r w' hw' => by
    cases f a with
    | ok b => exact ⟨w', hw', rfl⟩
    | error e => rfl

theorem optional (hp : Trails B p) : Trails B p.optional :=
  alt (map _ hp) (success _)

theorem manyLoop (hp : Trails B p) : ∀ n, Trails B (p.manyLoop n)
  | 0 => diverge
  | n + 1 => by
    rw [manyLoop_succ_eq]
    exact alt (bind hp fun _ => map _ (manyLoop hp n)) (success _)

-- The fuel grows with the input; a run that ends needs no more of it.
theorem withFuel {f : Nat → Parser α} (hf : ∀ n, Trails B (f n)) (hr : ∀ n, Refines (f n) (f (n + 1))) :
    Trails B (Parser.withFuel f) := fun s w hw => by
  rw [withFuel_apply, withFuel_apply]
  by_cases hd : f (s.length + 1) s = .diverge
  · rw [hd]
    trivial
  · have h := hf (s.length + 1) s w hw
    rwa [Refines.fuel_mono hr (by simp) _ (h.ne_diverge hd)]

theorem many (hp : Trails B p) : Trails B p.many :=
  withFuel (manyLoop hp) (Refines.manyLoop_succ p)

theorem atLeast (hp : Trails B p) : ∀ n, Trails B (p.atLeast n)
  | 0 => many hp
  | n + 1 => bind hp fun _ => bind (atLeast hp n) fun _ => success _

theorem sepBy {sep : Parser β} (hp : Trails B p) (hs : Trails B sep) : Trails B (p.sepBy sep) :=
  alt (bind hp fun _ => bind (many (seqRight hs hp)) fun _ => success _) (success _)

-- A literal whose last character is not of `B`: what `B` adds can't complete it.
theorem string {t : PyStr} (ht : ∀ c ∈ t.getLast?, B c = false) : Trails B (string t) := fun s w hw => by
  by_cases hts : t <+: s
  · obtain ⟨r, rfl⟩ := hts
    rw [List.append_assoc, string_append, string_append]
    exact ⟨w, hw, rfl⟩
  · have hf : Parser.string t s = .failure := string_of_not_prefix hts
    rw [hf]
    refine string_of_not_prefix fun h => ?_
    have hst : s <+: t := List.prefix_of_prefix_length_le (List.prefix_append s w) h (by
      by_contra hl
      exact hts (List.prefix_of_prefix_length_le h (List.prefix_append s w) (by omega)))
    obtain ⟨x, rfl⟩ := hst
    rcases List.eq_nil_or_concat x with rfl | ⟨y, c, rfl⟩
    · exact hts (by simp)
    · have hc : B c = true := hw c (((List.prefix_append_right_inj s).mp h).subset (by simp))
      rw [ht c (by simp)] at hc
      cases hc

theorem testChar {pred : Nat → Bool} (hp : ∀ c, B c = true → pred c = false) : Trails B (testChar pred)
  | c :: s, w, hw => by
    show Ext B (Parser.testChar pred (c :: s)) (Parser.testChar pred (c :: (s ++ w)))
    simp only [testChar_cons]
    split
    · exact ⟨w, hw, rfl⟩
    · rfl
  | [], [], _ => rfl
  | [], c :: w, hw => show Parser.testChar pred (c :: w) = .failure by simp [hp c (hw c (.head _))]

theorem regex {head tail : Nat → Bool} (hh : ∀ c, B c = true → head c = false)
    (ht : ∀ c, B c = true → tail c = false) : Trails B (regex head tail)
  | c :: s, w, hw => by
    obtain ⟨h₁, h₂⟩ := scan_append (s := s) fun c hc => ht c (hw c (List.mem_of_mem_head? hc))
    show Ext B (Parser.regex head tail (c :: s)) (Parser.regex head tail (c :: (s ++ w)))
    simp only [regex_cons, h₁, h₂]
    split
    · exact ⟨w, hw, rfl⟩
    · rfl
  | [], [], _ => rfl
  | [], c :: w, hw => show Parser.regex head tail (c :: w) = .failure by simp [hh c (hw c (.head _))]

theorem regexFixed : ∀ {classes : List (Nat → Bool)}, (∀ cls ∈ classes, ∀ c, B c = true → cls c = false) →
    Trails B (regexFixed classes)
  | [], _ => fun _ w hw => ⟨w, hw, rfl⟩
  | cls :: more, h => fun
    | c :: s, w, hw => by
      show Ext B (Parser.regexFixed (cls :: more) (c :: s)) (Parser.regexFixed (cls :: more) (c :: (s ++ w)))
      simp only [regexFixed_cons_cons]
      split
      · exact (regexFixed (fun k hk => h k (.tail _ hk)) s w hw).map _
      · rfl
    | [], [], _ => rfl
    | [], c :: w, hw => show Parser.regexFixed (cls :: more) (c :: w) = .failure by
      simp [h cls (.head _) c (hw c (.head _))]

end Trails

end Trailing

end Parser
