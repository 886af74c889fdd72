import Mathlib.Algebra.Group.Nat.Defs
import Mathlib.Algebra.Ring.Nat

/-!
This module contains numbers as sequences of bytes, with the least or the most significant byte first.
-/

namespace Bytes

variable {k n : Nat} {bs : List UInt8}

def littleEndian : Nat → Nat → List UInt8
  | 0, _ => []
  | k + 1, n => .ofNat n :: littleEndian k (n / 256)

def ofLittleEndian : List UInt8 → Nat
  | [] => 0
  | b :: bs => b.toNat + 256 * ofLittleEndian bs

def bigEndian (k n : Nat) : List UInt8 := (littleEndian k n).reverse

def ofBigEndian (bs : List UInt8) : Nat := ofLittleEndian bs.reverse

@[simp]
theorem length_littleEndian : (littleEndian k n).length = k := by
  induction k generalizing n with
  | zero => rfl
  | succ k ih => simp [littleEndian, ih]

@[simp]
theorem length_bigEndian : (bigEndian k n).length = k := by
  simp [bigEndian]

@[simp]
theorem ofLittleEndian_littleEndian : ofLittleEndian (littleEndian k n) = n % 256 ^ k := by
  induction k generalizing n with
  | zero => simp [littleEndian, ofLittleEndian, Nat.mod_one]
  | succ k ih =>
    rw [littleEndian, ofLittleEndian, ih, Nat.pow_succ', Nat.mod_mul]
    simp

@[simp]
theorem ofBigEndian_bigEndian : ofBigEndian (bigEndian k n) = n % 256 ^ k := by
  simp [ofBigEndian, bigEndian]

end Bytes
