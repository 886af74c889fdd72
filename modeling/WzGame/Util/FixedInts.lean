import Mathlib.Algebra.Order.Ring.Int

/-!
This module contains when operations on integers of a fixed width give what they give on all integers.
-/

namespace UInt8

theorem toInt_toInt8 (b : UInt8)
    : b.toInt8.toInt = if b.toNat < 128 then (b.toNat : Int) else b.toNat - 256 := by
  have hlt := b.toNat_lt
  have hbmod : b.toInt8.toInt = (b.toNat : Int).bmod 256 := BitVec.toInt_eq_toNat_bmod _
  rw [hbmod, Int.bmod_def]
  split
  . rw [if_pos (by omega)]
    omega
  . rw [if_neg (by omega)]
    omega

end UInt8

namespace Int32

theorem toInt_add_of_fits {a b : Int32} (hle : -2 ^ 31 ≤ a.toInt + b.toInt) (hlt : a.toInt + b.toInt < 2 ^ 31)
    : (a + b).toInt = a.toInt + b.toInt := by
  rw [Int32.toInt_add]
  exact Int.bmod_eq_of_le (by omega) (by omega)

theorem toInt64_ofInt_of_fits {n : Int} (hle : -2 ^ 31 ≤ n) (hlt : n < 2 ^ 31)
    : (Int32.ofInt n).toInt64 = Int64.ofInt n := by
  rw [← Int64.ofInt_int32ToInt, Int32.toInt_ofInt_of_le hle hlt]

theorem toInt_and_mask {k : Nat} (hk : k < 32) (x : Int32)
    : (x &&& .ofNat (2 ^ k - 1)).toInt = x.toInt % 2 ^ k := by
  have hpow : 2 ^ k ≤ 2 ^ 31 := Nat.pow_le_pow_right (by decide) (by omega)
  have hpos : 0 < 2 ^ k := Nat.two_pow_pos k
  have hmask : (ofNat (2 ^ k - 1)).toBitVec.toNat = 2 ^ k - 1 := by
    rw [Int32.toBitVec_ofNat', BitVec.toNat_ofNat, Nat.mod_eq_of_lt (by omega)]
  have hnat : (x &&& .ofNat (2 ^ k - 1)).toBitVec.toNat = x.toBitVec.toNat % 2 ^ k := by
    rw [Int32.toBitVec_and, BitVec.toNat_and, hmask, Nat.and_two_pow_sub_one_eq_mod]
  have hlt := Nat.mod_lt x.toBitVec.toNat hpos
  have hint : (x &&& .ofNat (2 ^ k - 1)).toInt = (x.toBitVec.toNat % 2 ^ k : Nat) := by
    rw [← hnat]
    exact BitVec.toInt_eq_toNat_of_lt (by omega)
  have hword : (2 : Int) ^ k ∣ ((2 ^ 32 : Nat) : Int) := pow_dvd_pow 2 (by omega)
  have hx : x.toInt % 2 ^ k = (x.toBitVec.toNat : Int) % 2 ^ k := by
    have htoInt : x.toInt = (x.toBitVec.toNat : Int).bmod (2 ^ 32) := BitVec.toInt_eq_toNat_bmod _
    rw [← Int.emod_emod_of_dvd x.toInt hword, htoInt, Int.bmod_emod, Int.emod_emod_of_dvd _ hword]
  rw [hint, hx]
  push_cast
  rfl

end Int32

namespace Int64

theorem exists_toInt_ofInt (n : Int) : ∃ q, (ofInt n).toInt = n + 2 ^ 64 * q := by
  have hmod : (ofInt n).toInt = n.bmod (2 ^ 64) := Int64.toInt_ofInt
  refine ⟨((ofInt n).toInt - n) / 2 ^ 64, ?_⟩
  rw [hmod, Int.bmod_def]
  omega

theorem ofInt_eq_ofInt_iff {m n : Int} : ofInt m = ofInt n ↔ (2 : Int) ^ 64 ∣ m - n := by
  have hsize : ((Int64.size : Nat) : Int) = 2 ^ 64 := rfl
  rw [← Int64.toInt_inj, Int64.toInt_ofInt, Int64.toInt_ofInt, Int.bmod_eq_bmod_iff_bmod_sub_eq_zero,
    ← Int.dvd_iff_bmod_eq_zero, hsize]

theorem shiftLeft_eq_ofInt (a b : Int64) : a <<< b = ofInt (a.toInt * 2 ^ (b.toInt % 64).toNat) := by
  have hdistance : (b.toBitVec.smod 64#64).toNat = (b.toInt % 64).toNat := by
    have hsmod : (b.toBitVec.smod 64#64).toInt = b.toInt % 64 := by
      rw [BitVec.toInt_smod, Int.fmod_eq_emod_of_nonneg _ (by decide)]
      rfl
    have hlt := (b.toBitVec.smod 64#64).isLt
    rw [BitVec.toInt_eq_toNat_bmod, Int.bmod_def] at hsmod
    omega
  have hpow : BitVec.ofInt 64 (2 ^ (b.toInt % 64).toNat) = BitVec.twoPow 64 (b.toInt % 64).toNat := by
    rw [← BitVec.toNat_inj, BitVec.toNat_twoPow, show (2 : Int) = ((2 : Nat) : Int) from rfl, ← Int.natCast_pow,
      BitVec.ofInt_natCast, BitVec.toNat_ofNat]
  apply Int64.toBitVec_inj.mp
  calc (a <<< b).toBitVec
      = a.toBitVec <<< (b.toInt % 64).toNat := by
        rw [← hdistance]
        rfl
    _ = BitVec.ofInt 64 a.toInt * BitVec.ofInt 64 (2 ^ (b.toInt % 64).toNat) := by
        rw [BitVec.shiftLeft_eq_mul_twoPow, hpow]
        congr 1
        exact BitVec.ofInt_toInt.symm
    _ = (ofInt (a.toInt * 2 ^ (b.toInt % 64).toNat)).toBitVec := (BitVec.ofInt_mul _ _).symm

theorem toInt_abs_le (x : Int64) : x.abs.toInt ≤ x.toInt.natAbs := by
  have habs : x.abs.toInt = if x.toBitVec = BitVec.intMin 64 then (BitVec.intMin 64).toInt else x.toInt.natAbs :=
    BitVec.toInt_abs_eq_natAbs
  rw [habs]
  split
  . have hleast : (BitVec.intMin 64).toInt = -2 ^ 63 := rfl
    omega
  . exact Int.le_refl _

theorem shifted_dvd_iff {m n : Int} {d e : Nat} (hd : d < 64)
    : (2 : Int) ^ 64 ∣ m * 2 ^ d - n * 2 ^ e
        ↔ (2 : Int) ^ (64 - min d e) ∣ m * 2 ^ (d - min d e) - n * 2 ^ (e - min d e) := by
  have hword := pow_mul_pow_sub (2 : Int) (show min d e ≤ 64 by omega)
  have hleft := pow_mul_pow_sub (2 : Int) (show min d e ≤ d by omega)
  have hright := pow_mul_pow_sub (2 : Int) (show min d e ≤ e by omega)
  have hdifference : m * 2 ^ d - n * 2 ^ e = 2 ^ min d e * (m * 2 ^ (d - min d e) - n * 2 ^ (e - min d e)) := by
    rw [mul_sub, mul_left_comm, mul_left_comm _ n, hleft, hright]
  rw [← hword, hdifference]
  exact Int.mul_dvd_mul_iff_left (pow_ne_zero _ (by decide))

end Int64
