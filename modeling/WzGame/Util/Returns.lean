/-!
This module contains what is returned by computations that may throw, for which `none` stands.
-/

namespace Option

variable {α β : Type} {P : α → Prop} {Q : β → Prop} {x : Option α} {f : α → Option β}

def Returns (P : α → Prop) (x : Option α) : Prop := ∀ a, x = some a → P a

namespace Returns

theorem any : Returns (fun _ => True) x := fun _ _ => trivial

theorem value {a : α} (h : P a) : Returns P (some a) := by
  intro b hb
  exact Option.some.inj hb ▸ h

theorem bind (hx : Returns P x) (hf : ∀ a, P a → Returns Q (f a)) : Returns Q (x >>= f) := by
  intro b hb
  obtain ⟨a, ha, hfa⟩ := Option.bind_eq_some_iff.mp hb
  exact hf a (hx a ha) b hfa

theorem map {g : α → β} (hx : Returns (fun a => Q (g a)) x) : Returns Q (x.map g) := by
  intro b hb
  obtain ⟨a, ha, rfl⟩ := Option.map_eq_some_iff.mp hb
  exact hx a ha

end Returns

end Option
