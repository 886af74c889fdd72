import Mathlib.Algebra.Group.Nat.Defs
import Mathlib.Algebra.Ring.Nat
import Mathlib.Data.Nat.Bitwise

/-!
This module contains numbers as bytes of seven bits each, the lowest bits first, where every byte but the last one
has its highest bit set.
-/

namespace Varint

variable {k m n s w x : Nat} {b : UInt8} {bs : List UInt8}

def write (n : Nat) : List UInt8 :=
  if n < 128 then
    [.ofNat n]
  else
    .ofNat (n % 128 + 128) :: write (n / 128)

theorem write_of_lt (h : n < 128) : write n = [.ofNat n] := by
  rw [write, if_pos h]

theorem write_of_le (h : 128 ≤ n) : write n = .ofNat (n % 128 + 128) :: write (n / 128) := by
  rw [write, if_neg (Nat.not_lt.mpr h)]

@[simp]
theorem toNat_last (h : n < 128) : (UInt8.ofNat n).toNat = n := by
  rw [UInt8.toNat_ofNat']
  omega

@[simp]
theorem toNat_continued : (UInt8.ofNat (n % 128 + 128)).toNat = n % 128 + 128 := by
  rw [UInt8.toNat_ofNat']
  omega

theorem write_ne_nil : write n ≠ [] := by
  rw [write]
  split <;> simp

theorem length_write_pos : 0 < (write n).length := List.length_pos_iff.mpr write_ne_nil

theorem length_write_le_iff (hk : 0 < k) : (write n).length ≤ k ↔ n < 128 ^ k := by
  induction n using Nat.strongRecOn generalizing k with
  | _ n ih =>
    obtain ⟨k, rfl⟩ := Nat.exists_eq_succ_of_ne_zero (Nat.pos_iff_ne_zero.mp hk)
    have hpow : 128 ^ k.succ = 128 * 128 ^ k := Nat.pow_succ'
    have hone : 0 < 128 ^ k := Nat.pow_pos (by decide)
    rcases Nat.lt_or_ge n 128 with h | h
    . rw [write_of_lt h, hpow, List.length_singleton]
      constructor
      . intro _
        calc n < 128 * 1 := by omega
          _ ≤ 128 * 128 ^ k := Nat.mul_le_mul_left 128 hone
      . intro _
        exact Nat.succ_le_succ (Nat.zero_le k)
    . rw [write_of_le h, List.length_cons, hpow, Nat.succ_le_succ_iff]
      rcases Nat.eq_zero_or_pos k with rfl | hk'
      . have := length_write_pos (n := n / 128)
        simp only [Nat.pow_zero]
        omega
      . rw [ih (n / 128) (by omega) hk', Nat.div_lt_iff_lt_mul (by decide), Nat.mul_comm]

theorem length_write_eq_iff (hk : 0 < k) : (write n).length = k + 1 ↔ 128 ^ k ≤ n ∧ n < 128 ^ (k + 1) := by
  have hle := length_write_le_iff (n := n) hk
  have hle' := length_write_le_iff (n := n) (Nat.succ_pos k)
  rw [← Nat.not_lt, ← hle, ← hle']
  omega

theorem write_append_inj {bs' : List UInt8} (h : write n ++ bs = write m ++ bs') : n = m ∧ bs = bs' := by
  induction n using Nat.strongRecOn generalizing m with
  | _ n ih =>
    rcases Nat.lt_or_ge n 128 with hn | hn <;> rcases Nat.lt_or_ge m 128 with hm | hm
    . rw [write_of_lt hn, write_of_lt hm] at h
      obtain ⟨hbyte, hrest⟩ := List.cons.inj h
      have hnm := congrArg UInt8.toNat hbyte
      rw [toNat_last hn, toNat_last hm] at hnm
      exact ⟨hnm, hrest⟩
    . rw [write_of_lt hn, write_of_le hm] at h
      have hnm := congrArg UInt8.toNat (List.cons.inj h).1
      rw [toNat_last hn, toNat_continued] at hnm
      omega
    . rw [write_of_le hn, write_of_lt hm] at h
      have hnm := congrArg UInt8.toNat (List.cons.inj h).1
      rw [toNat_continued, toNat_last hm] at hnm
      omega
    . rw [write_of_le hn, write_of_le hm] at h
      obtain ⟨hbyte, hrest⟩ := List.cons.inj h
      have hnm := congrArg UInt8.toNat hbyte
      rw [toNat_continued, toNat_continued] at hnm
      obtain ⟨hdiv, hbs⟩ := ih (n / 128) (by omega) hrest
      exact ⟨by omega, hbs⟩

theorem or_shift (hx : x < 2 ^ s) (hs : s ≤ w)
    : x ||| (m * 2 ^ s) % 2 ^ w = (x + m * 2 ^ s) % 2 ^ w := by
  obtain ⟨t, rfl⟩ := Nat.exists_eq_add_of_le hs
  have hmod : (m * 2 ^ s) % 2 ^ (s + t) = 2 ^ s * (m % 2 ^ t) := by
    rw [Nat.pow_add, Nat.mul_comm m, Nat.mul_mod_mul_left]
  have hdiv : (x + m * 2 ^ s) / 2 ^ s = m := by
    rw [Nat.add_mul_div_right _ _ (Nat.two_pow_pos s), Nat.div_eq_of_lt hx, Nat.zero_add]
  have hrest : (x + m * 2 ^ s) % 2 ^ s = x := by
    rw [Nat.add_mul_mod_self_right, Nat.mod_eq_of_lt hx]
  rw [hmod, Nat.or_comm, ← Nat.two_pow_add_eq_or_of_lt hx, Nat.pow_add, Nat.mod_mul, hdiv, hrest, Nat.add_comm]

theorem uint32_or_shift {x : UInt32} (hx : x.toNat < 2 ^ s) (hs : s < 32)
    : x ||| (UInt32.ofNat m <<< UInt32.ofNat s) = .ofNat (x.toNat + m * 2 ^ s) := by
  have hs' : (UInt32.ofNat s).toNat = s := by
    rw [UInt32.toNat_ofNat']
    omega
  apply UInt32.toNat_inj.mp
  rw [UInt32.toNat_or, UInt32.toNat_shiftLeft, UInt32.toNat_ofNat', hs', Nat.mod_eq_of_lt hs, UInt32.toNat_ofNat',
    Nat.shiftLeft_eq, Nat.mod_mul_mod, or_shift hx (Nat.le_of_lt hs)]

theorem uint64_or_shift {x : UInt64} (hx : x.toNat < 2 ^ s) (hs : s < 64)
    : x ||| (UInt64.ofNat m <<< UInt64.ofNat s) = .ofNat (x.toNat + m * 2 ^ s) := by
  have hs' : (UInt64.ofNat s).toNat = s := by
    rw [UInt64.toNat_ofNat']
    omega
  apply UInt64.toNat_inj.mp
  rw [UInt64.toNat_or, UInt64.toNat_shiftLeft, UInt64.toNat_ofNat', hs', Nat.mod_eq_of_lt hs, UInt64.toNat_ofNat',
    Nat.shiftLeft_eq, Nat.mod_mul_mod, or_shift hx (Nat.le_of_lt hs)]

theorem and_high_eq_zero_iff (hx : x < 2 ^ w) : x &&& ((2 ^ w - 1) <<< k) % 2 ^ w = 0 ↔ x < 2 ^ k := by
  have hbit (i : Nat) : (x &&& ((2 ^ w - 1) <<< k) % 2 ^ w).testBit i
      = (x.testBit i && (decide (i < w) && (decide (k ≤ i) && decide (i - k < w)))) := by
    rw [Nat.testBit_and, Nat.testBit_mod_two_pow, Nat.testBit_shiftLeft, Nat.testBit_two_pow_sub_one]
  constructor
  . intro h
    apply Nat.lt_pow_two_of_testBit
    intro i hi
    by_cases hw : i < w
    . have hzero := hbit i
      rw [h, Nat.zero_testBit, decide_eq_true hw, decide_eq_true hi, decide_eq_true (by omega : i - k < w)] at hzero
      simpa using hzero.symm
    . exact Nat.testBit_lt_two_pow (Nat.lt_of_lt_of_le hx (Nat.pow_le_pow_right (by decide) (Nat.not_lt.mp hw)))
  . intro h
    apply Nat.eq_of_testBit_eq
    intro i
    rw [hbit, Nat.zero_testBit]
    by_cases hi : k ≤ i
    . rw [Nat.testBit_lt_two_pow (Nat.lt_of_lt_of_le h (Nat.pow_le_pow_right (by decide) hi)), Bool.false_and]
    . rw [decide_eq_false hi, Bool.false_and, Bool.and_false, Bool.and_false]

theorem uint32_and_high_eq_zero_iff {v : UInt32} (k : UInt32) (hk : k.toNat < 32)
    : v &&& (0xffffffff : UInt32) <<< k = 0 ↔ v.toNat < 2 ^ k.toNat := by
  rw [← and_high_eq_zero_iff (k := k.toNat) v.toNat_lt, ← UInt32.toNat_inj, UInt32.toNat_and, UInt32.toNat_shiftLeft,
    Nat.mod_eq_of_lt hk]
  rfl

theorem uint64_and_high_eq_zero_iff {v : UInt64} (k : UInt64) (hk : k.toNat < 64)
    : v &&& (0xffffffffffffffff : UInt64) <<< k = 0 ↔ v.toNat < 2 ^ k.toNat := by
  rw [← and_high_eq_zero_iff (k := k.toNat) v.toNat_lt, ← UInt64.toNat_inj, UInt64.toNat_and, UInt64.toNat_shiftLeft,
    Nat.mod_eq_of_lt hk]
  rfl

end Varint
