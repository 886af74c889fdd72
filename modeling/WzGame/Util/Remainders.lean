import WzGame.Util.FixedInts

/-!
This module contains when a remainder that has the sign of the dividend is an index of a table.
-/

namespace Int

theorem tmod_nonneg_iff {a b : Int} : 0 ≤ a.tmod b ↔ 0 ≤ a ∨ b ∣ a := by
  rw [← Int.sign_nonneg_iff, Int.sign_tmod]
  split
  . next hdvd => simp [hdvd]
  . next hdvd => simp [hdvd]

theorem tmod_index_iff {a b : Int} (hb : 0 < b) : (0 ≤ a.tmod b ∧ a.tmod b < b) ↔ 0 ≤ a ∨ b ∣ a := by
  rw [and_iff_left (Int.tmod_lt_of_pos a hb)]
  exact tmod_nonneg_iff

end Int

namespace Int32

variable {x n : Int32}

theorem toInt_abs (x : Int32) : x.abs.toInt = if x = minValue then -2 ^ 31 else (x.toInt.natAbs : Int) := by
  have habs : x.abs.toInt = if x.toBitVec = BitVec.intMin 32 then (BitVec.intMin 32).toInt else x.toInt.natAbs :=
    BitVec.toInt_abs_eq_natAbs
  have hmin : (minValue.toBitVec : BitVec 32) = BitVec.intMin 32 := rfl
  have hleast : (BitVec.intMin 32).toInt = -2 ^ 31 := rfl
  rw [habs, hleast, ← hmin]
  simp only [Int32.toBitVec_inj]

theorem abs_mod_index_iff (hn : 0 < n.toInt)
    : (0 ≤ (x.abs % n).toInt ∧ (x.abs % n).toInt < n.toInt) ↔ x ≠ minValue ∨ n.toInt ∣ 2 ^ 31 := by
  rw [Int32.toInt_mod, Int.tmod_index_iff hn, toInt_abs]
  split
  . next hx =>
    have hneg : ¬ (0 : Int) ≤ -2 ^ 31 := by decide
    rw [or_iff_right hneg, Int.dvd_neg, or_iff_right (not_not_intro hx)]
  . next hx => exact iff_of_true (.inl (by omega)) (.inl hx)

end Int32
