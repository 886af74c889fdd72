import Mathlib.Data.Nat.ModEq

/-!
This module contains the indices of a circular list that are counted from one of them on.
-/

namespace CircularIndex

variable {n base i j : Nat}

def slot (n base j : Nat) : Nat := (base + j) % n

def wrap (n i : Nat) : Nat := if n ≤ i then 0 else i

theorem slot_lt (h : 0 < n) : slot n base j < n := Nat.mod_lt _ h

theorem slot_inj (hi : i < n) (hj : j < n) (h : slot n base i = slot n base j) : i = j := by
  have hmod : i % n = j % n := Nat.ModEq.add_left_cancel' base h
  rwa [Nat.mod_eq_of_lt hi, Nat.mod_eq_of_lt hj] at hmod

theorem slot_ne (hi : i < n) (hj : j < n) (h : i ≠ j) : slot n base i ≠ slot n base j :=
  mt (slot_inj hi hj) h

theorem slot_zero (h : base < n) : slot n base 0 = base := Nat.mod_eq_of_lt h

theorem slot_size (h : base < n) : slot n base n = base := by
  rw [slot, Nat.add_mod_right, Nat.mod_eq_of_lt h]

@[simp]
theorem slot_add_size : slot n base (j + n) = slot n base j := by
  rw [slot, slot, ← Nat.add_assoc, Nat.add_mod_right]

theorem wrap_lt (h : 0 < n) : wrap n i < n := by
  unfold wrap
  split
  . exact h
  . omega

theorem wrap_eq_mod (h : i ≤ n) (hpos : 0 < n) : wrap n i = i % n := by
  unfold wrap
  split
  . obtain rfl : i = n := by omega
    rw [Nat.mod_self]
  . rw [Nat.mod_eq_of_lt (by omega)]

theorem wrap_of_lt (h : i < n) : wrap n i = i := by
  rw [wrap_eq_mod h.le (by omega), Nat.mod_eq_of_lt h]

theorem wrap_slot_succ (h : 0 < n) : wrap n (slot n base j + 1) = slot n base (j + 1) := by
  have hlt : slot n base j < n := slot_lt h
  rw [wrap_eq_mod (by omega) h, slot, slot, Nat.mod_add_mod, Nat.add_assoc]

theorem slot_slot : slot n (slot n base i) j = slot n base (i + j) := by
  rw [slot, slot, slot, Nat.mod_add_mod, Nat.add_assoc]

theorem slot_of_lt (h : base + j < n) : slot n base j = base + j := Nat.mod_eq_of_lt h

theorem slot_grow_of_lt {k : Nat} (h : base + k = n) (hj : j < k)
    : slot (n + 1) base j = slot n base j := by
  rw [slot_of_lt (by omega), slot_of_lt (by omega)]

theorem slot_grow {k : Nat} (h : base + k = n) (hpos : 0 < k) (hk : k < j) (hj : j ≤ n)
    : slot (n + 1) base j = slot n base (j - 1) := by
  have hnew : base + j = (base + j - (n + 1)) + (n + 1) := by omega
  have hold : base + (j - 1) = (base + j - (n + 1)) + n := by omega
  rw [slot, slot, hnew, hold, Nat.add_mod_right, Nat.add_mod_right, Nat.mod_eq_of_lt (by omega),
    Nat.mod_eq_of_lt (by omega)]

theorem exists_slot (hbase : base < n) (hi : i < n) : ∃ j < n, slot n base j = i := by
  by_cases hle : base ≤ i
  . exact ⟨i - base, by omega, by rw [slot_of_lt (by omega)]; omega⟩
  . refine ⟨i + n - base, by omega, ?_⟩
    have hsum : base + (i + n - base) = i + n := by omega
    rw [slot, hsum, Nat.add_mod_right, Nat.mod_eq_of_lt hi]

end CircularIndex
