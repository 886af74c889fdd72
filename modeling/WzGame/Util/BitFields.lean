import Mathlib.Algebra.Group.Nat.Defs
import Mathlib.Data.Nat.Bits

/-!
This module contains how fields of bits are put into a word by masking and adding.
-/

namespace BitFields

variable {w : Nat}

def ClearsOnly (mask : BitVec w) (lo len : Nat) : Prop :=
  ∀ i < w, mask.getLsbD i = false → lo ≤ i ∧ i < lo + len

instance (mask : BitVec w) (lo len : Nat) : Decidable (ClearsOnly mask lo len) :=
  inferInstanceAs (Decidable (∀ i < w, mask.getLsbD i = false → lo ≤ i ∧ i < lo + len))

variable {x mask v : BitVec w} {lo len : Nat}

theorem and_eq_self (hmask : ClearsOnly mask lo len) (hx : x.toNat / 2 ^ lo % 2 ^ len = 0)
    : x &&& mask = x := by
  apply BitVec.eq_of_getLsbD_eq
  intro i hi
  rw [BitVec.getLsbD_and]
  cases hbit : mask.getLsbD i with
  | true => simp
  | false =>
    obtain ⟨hlo, hlen⟩ := hmask i hi hbit
    have hzero : (x.toNat / 2 ^ lo % 2 ^ len).testBit (i - lo) = false := by simp [hx]
    rw [Nat.testBit_mod_two_pow, Nat.testBit_div_two_pow, Nat.sub_add_cancel hlo] at hzero
    simpa [BitVec.getLsbD, show i - lo < len by omega] using hzero

theorem toNat_and_add_shiftLeft (hmask : ClearsOnly mask lo len)
    (hx : x.toNat / 2 ^ lo % 2 ^ len = 0) (hsum : x.toNat + v.toNat * 2 ^ lo < 2 ^ w)
    : ((x &&& mask) + (v <<< lo)).toNat = x.toNat + v.toNat * 2 ^ lo := by
  have hv : v.toNat * 2 ^ lo < 2 ^ w := by omega
  rw [and_eq_self hmask hx, BitVec.toNat_add, BitVec.toNat_shiftLeft, Nat.shiftLeft_eq,
    Nat.mod_eq_of_lt hv, Nat.mod_eq_of_lt hsum]

end BitFields
