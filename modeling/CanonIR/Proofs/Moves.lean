/-!
Lists of moves. Moves are admitted in a state if each of them is enabled where it comes up, and
whatever every enabled move keeps, the admitted ones keep together.
-/

namespace CanonIR

variable {σ μ : Type} {enabled : σ → μ → Prop} {next : σ → μ → σ}

/-- Moves that are enabled one after the other. -/
def Admits (enabled : σ → μ → Prop) (next : σ → μ → σ) (s : σ) : List μ → Prop
  | [] => True
  | x :: xs => enabled s x ∧ Admits enabled next (next s x) xs

instance instDecidableAdmits [∀ s x, Decidable (enabled s x)] (s : σ) (xs : List μ) :
    Decidable (Admits enabled next s xs) :=
  match xs with
  | [] => .isTrue trivial
  | x :: xs =>
    have := instDecidableAdmits (next s x) xs
    inferInstanceAs (Decidable (_ ∧ _))

theorem Admits.foldl {P : σ → Prop} (hstep : ∀ s x, P s → enabled s x → P (next s x)) {s : σ}
    {xs : List μ} (hs : P s) (hx : Admits enabled next s xs) : P (xs.foldl next s) := by
  induction xs generalizing s with
  | nil => exact hs
  | cons x xs ih => exact ih (hstep s x hs hx.1) hx.2

end CanonIR
