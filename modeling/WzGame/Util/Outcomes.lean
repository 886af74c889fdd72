/-!
This module contains what computations that may throw come to.
-/

namespace Except

variable {ε α β : Type} {E : ε → Prop} {P : α → Prop} {Q : β → Prop} {x x' : Except ε α} {f f' : α → Except ε β}

-- what is returned has the property `P`, and what is thrown the property `E`
def Outcome (E : ε → Prop) (P : α → Prop) : Except ε α → Prop
  | .ok a => P a
  | .error e => E e

namespace Outcome

theorem ok {a : α} (h : P a) : Outcome E P (.ok a) := h

theorem error {e : ε} (h : E e) : Outcome E P (.error e) := h

theorem bind (hx : Outcome E P x) (hf : ∀ a, P a → Outcome E Q (f a)) : Outcome E Q (x >>= f) := by
  cases x with
  | ok a => exact hf a hx
  | error e => exact hx

theorem mono {E' : ε → Prop} {P' : α → Prop} (hE : ∀ e, E e → E' e) (hP : ∀ a, P a → P' a) (hx : Outcome E P x)
    : Outcome E' P' x := by
  cases x with
  | ok a => exact hP a hx
  | error e => exact hE e hx

theorem imp {P' : α → Prop} (hx : Outcome E P x) (himp : ∀ a, P a → P' a) : Outcome E P' x := by
  cases x with
  | ok a => exact himp a hx
  | error e => exact hx

theorem foldlM {σ : Type} {R : σ → σ → Prop} {step : σ → α → Except σ σ} (hrefl : ∀ s, R s s)
    (htrans : ∀ {s s' s''}, R s s' → R s' s'' → R s s'') (hstep : ∀ s a, Outcome (R s) (R s) (step s a))
    (as : List α) (s : σ)
    : Outcome (R s) (R s) (as.foldlM step s) := by
  induction as generalizing s with
  | nil => exact ok (hrefl s)
  | cons a as ih =>
    rw [List.foldlM_cons]
    have hround := hstep s a
    cases h : step s a with
    | error s' =>
      rw [h] at hround
      exact hround
    | ok s' =>
      rw [h] at hround
      have hrest := ih s'
      show Outcome (R s) (R s) (as.foldlM step s')
      cases h' : as.foldlM step s' with
      | error s'' =>
        rw [h'] at hrest
        exact htrans hround hrest
      | ok s'' =>
        rw [h'] at hrest
        exact htrans hround hrest

end Outcome

theorem bind_ne_ok (hx : ∀ a, x ≠ .ok a) (b : β) : (x >>= f) ≠ .ok b := by
  cases x with
  | ok a => exact absurd rfl (hx a)
  | error e => nofun

theorem bind_congr (hx : x = x') (hf : ∀ a, x = .ok a → f a = f' a) : (x >>= f) = x' >>= f' := by
  subst hx
  cases x with
  | ok a => exact hf a rfl
  | error e => rfl

end Except
