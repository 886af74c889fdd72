import WzGame.Protobuf.CodedInputStream
import WzGame.Util.WireRecords
import Mathlib.Data.List.Infix
import Mathlib.Tactic.Ring

/-!
This module contains what the primitives of a stream read from bytes that have been written.
-/

namespace WzGame.Protobuf.CodedInputStream

structure Holds (s : CodedInputStream) (bytes : List UInt8) : Prop where
  nonneg : 0 ≤ s.bufferPos
  size : s.bufferSize = s.bufferPos + bytes.length
  drop : bytes <+: s.buffer.drop s.bufferPos.toNat

variable {s : CodedInputStream} {b : UInt8} {bs bs' : List UInt8} {n m t : Nat} {result : UInt32}
  {read : CodedInputStream → Except Exception (UInt8 × CodedInputStream)}

theorem ok_bind {α β : Type} {a : α} {f : α → Except Exception β} : (Except.ok a >>= f) = f a := rfl

theorem pure_eq {α : Type} {a : α} : (pure a : Except Exception α) = .ok a := rfl

theorem holds_new : (new bs).Holds bs := ⟨Int.le_refl 0, by simp [new], by simp [new]⟩

@[simp]
theorem advance_zero : s.advance 0 = s := by simp [advance]

@[simp]
theorem advance_advance {i j : Int} : (s.advance i).advance j = s.advance (i + j) := by
  simp [advance, Int.add_assoc]

theorem Holds.advance (h : s.Holds (bs ++ bs')) : (s.advance bs.length).Holds bs' := by
  have hnonneg := h.nonneg
  have hpos : (s.bufferPos + bs.length).toNat = s.bufferPos.toNat + bs.length := by omega
  refine ⟨by simp only [CodedInputStream.advance]; omega, ?_, ?_⟩
  . have hsize := h.size
    simp only [CodedInputStream.advance, List.length_append] at hsize ⊢
    omega
  . obtain ⟨rest, hrest⟩ := h.drop
    refine ⟨rest, ?_⟩
    simp only [CodedInputStream.advance]
    rw [hpos, ← List.drop_drop, ← hrest, List.append_assoc, List.drop_left]

theorem Holds.tail (h : s.Holds (b :: bs)) : (s.advance 1).Holds bs :=
  Holds.advance (show s.Holds ([b] ++ bs) from h)

theorem Holds.nextByte (h : s.Holds (b :: bs)) : s.nextByte = .ok (b, s.advance 1) := by
  obtain ⟨rest, hrest⟩ := h.drop
  have hget : s.buffer[s.bufferPos.toNat]? = some b := by
    have hhead := congrArg List.head? hrest
    rw [List.head?_drop] at hhead
    exact hhead.symm
  rw [CodedInputStream.nextByte, if_neg (Int.not_lt.mpr h.nonneg), hget]
  rfl

theorem Holds.readRawByte (h : s.Holds (b :: bs)) : s.readRawByte = .ok (b, s.advance 1) := by
  have hsize := h.size
  rw [CodedInputStream.readRawByte, if_neg, h.nextByte]
  rw [List.length_cons] at hsize
  omega

def Gives (read : CodedInputStream → Except Exception (UInt8 × CodedInputStream)) : Prop :=
  ∀ {s b bs}, Holds s (b :: bs) → read s = .ok (b, s.advance 1)

theorem gives_nextByte : Gives nextByte := Holds.nextByte

theorem gives_readRawByte : Gives readRawByte := Holds.readRawByte

theorem lt_128 : b < 128 ↔ b.toNat < 128 := UInt8.lt_iff_toNat_lt

theorem toUInt32_ofNat (hn : n < 256) : (UInt8.ofNat n).toUInt32 = .ofNat n := by
  apply UInt32.toNat_inj.mp
  rw [UInt8.toNat_toUInt32, UInt8.toNat_ofNat', UInt32.toNat_ofNat']
  omega

theorem and_7f {n : UInt32} : n &&& 0x7f = .ofNat (n.toNat % 128) := by
  apply UInt32.toNat_inj.mp
  have h : n.toNat &&& 127 = n.toNat % 128 := Nat.and_two_pow_sub_one_eq_mod n.toNat 7
  rw [UInt32.toNat_and, UInt32.toNat_ofNat']
  show n.toNat &&& 127 = _
  omega

theorem or_shift {x : Nat} (k : UInt32) (hk : k.toNat < 32) (hx : x < 2 ^ k.toNat)
    : UInt32.ofNat x ||| UInt32.ofNat m <<< k = .ofNat (x + m * 2 ^ k.toNat) := by
  have hlt : x < 2 ^ 32 := Nat.lt_trans hx (Nat.pow_lt_pow_right (by decide) hk)
  have hx' : (UInt32.ofNat x).toNat = x := by
    rw [UInt32.toNat_ofNat', Nat.mod_eq_of_lt hlt]
  have h := Varint.uint32_or_shift (m := m) (x := .ofNat x) (hx'.symm ▸ hx) hk
  rwa [UInt32.ofNat_toNat, hx'] at h

theorem Gives.last (hread : Gives read) (h : s.Holds (Varint.write n ++ bs)) (hn : n < 128)
    : read s = .ok (.ofNat n, s.advance 1) ∧ UInt8.ofNat n < 128 := by
  rw [Varint.write_of_lt hn] at h
  exact ⟨hread h, lt_128.mpr (by rw [Varint.toNat_last hn]; exact hn)⟩

theorem Gives.continued (hread : Gives read) (h : s.Holds (Varint.write n ++ bs)) (hn : 128 ≤ n)
    : read s = .ok (.ofNat (n % 128 + 128), s.advance 1) ∧ ¬ UInt8.ofNat (n % 128 + 128) < 128
        ∧ (s.advance 1).Holds (Varint.write (n / 128) ++ bs) := by
  rw [Varint.write_of_le hn] at h
  refine ⟨hread h, ?_, h.tail⟩
  rw [lt_128, Varint.toNat_continued]
  omega

theorem and_7f_continued : (UInt8.ofNat (n % 128 + 128)).toUInt32 &&& 0x7f = .ofNat (n % 128) := by
  rw [toUInt32_ofNat (by omega), and_7f, UInt32.toNat_ofNat']
  congr 1
  omega

theorem or_last (k : UInt32) (hk : k.toNat < 32) (h : n / 2 ^ k.toNat < 128)
    : .ofNat (n % 2 ^ k.toNat) ||| (UInt8.ofNat (n / 2 ^ k.toNat)).toUInt32 <<< k = UInt32.ofNat n := by
  rw [toUInt32_ofNat (by omega), or_shift k hk (Nat.mod_lt _ (Nat.two_pow_pos _)), Nat.mod_add_div']

theorem or_continued (k : UInt32) (hk : k.toNat < 32)
    : .ofNat (n % 2 ^ k.toNat) ||| .ofNat (n / 2 ^ k.toNat % 128) <<< k = UInt32.ofNat (n % 2 ^ (k.toNat + 7)) := by
  rw [or_shift k hk (Nat.mod_lt _ (Nat.two_pow_pos _)), Nat.pow_add, Nat.mod_mul, Nat.mul_comm]

theorem or_fifth
    : .ofNat (n % 2 ^ 28) ||| (UInt8.ofNat (n / 2 ^ 28 % 128 + 128)).toUInt32 <<< 28 = UInt32.ofNat n := by
  have hor := or_shift (m := n / 2 ^ 28 % 128 + 128) (x := n % 2 ^ 28) 28 (by decide) (Nat.mod_lt _ (by decide))
  rw [toUInt32_ofNat (by omega), hor]
  apply UInt32.toNat_inj.mp
  rw [UInt32.toNat_ofNat', UInt32.toNat_ofNat']
  show (_ + _ * 2 ^ 28) % 2 ^ 32 = _
  omega

theorem length_write_of_lt (hn : n < 128) : (Varint.write n).length = 1 := by
  rw [Varint.write_of_lt hn, List.length_singleton]

theorem length_write_of_le (hn : 128 ≤ n) : (Varint.write n).length = 1 + (Varint.write (n / 128)).length := by
  rw [Varint.write_of_le hn, List.length_cons, Nat.add_comm]

theorem discard_eq {i : Nat} (h : s.Holds (Varint.write n ++ bs)) (hi : (Varint.write n).length ≤ i)
    : discard result i s = .ok (result, s.advance (Varint.write n).length) := by
  induction i generalizing s n with
  | zero =>
    have hpos := Varint.length_write_pos (n := n)
    omega
  | succ i ih =>
    rcases Nat.lt_or_ge n 128 with hn | hn
    . obtain ⟨hbyte, hlt⟩ := gives_readRawByte.last h hn
      simp only [discard, hbyte, ok_bind, if_pos hlt, length_write_of_lt hn]
      rfl
    . obtain ⟨hbyte, hlt, htail⟩ := gives_readRawByte.continued h hn
      rw [length_write_of_le hn] at hi ⊢
      simp only [discard, hbyte, ok_bind, if_neg hlt]
      rw [ih htail (by omega), advance_advance, Int.natCast_add]
      rfl

theorem readVarint32_eq (hread : Gives read) (hn : n < 2 ^ 64) (h : s.Holds (Varint.write n ++ bs))
    : readVarint32 read s = .ok (.ofNat n, s.advance (Varint.write n).length) := by
  rw [readVarint32]
  rcases Nat.lt_or_ge n 128 with h₁ | h₁
  . obtain ⟨hbyte, hlt⟩ := hread.last h h₁
    simp only [hbyte, ok_bind, if_pos hlt, length_write_of_lt h₁, toUInt32_ofNat (show n < 256 by omega)]
    rfl
  obtain ⟨hbyte, hlt, h⟩ := hread.continued h h₁
  simp only [hbyte, ok_bind, if_neg hlt, and_7f_continued, length_write_of_le h₁]
  rcases Nat.lt_or_ge (n / 128) 128 with h₂ | h₂
  . obtain ⟨hbyte, hlt⟩ := hread.last h h₂
    have hor := or_last (n := n) 7 (by decide) h₂
    simp only [hbyte, ok_bind, if_pos hlt, length_write_of_lt h₂]
    simp only [advance_advance]
    exact congrArg (fun v => Except.ok (v, _)) hor
  obtain ⟨hbyte, hlt, h⟩ := hread.continued h h₂
  have hor : UInt32.ofNat (n % 128) ||| UInt32.ofNat (n / 128 % 128) <<< 7 = UInt32.ofNat (n % 16384) :=
    or_continued 7 (by decide)
  have hdiv : n / 128 / 128 = n / 16384 := Nat.div_div_eq_div_mul n 128 128
  rw [hdiv] at h
  simp only [hbyte, ok_bind, if_neg hlt, and_7f_continued, length_write_of_le h₂, hor, hdiv]
  rcases Nat.lt_or_ge (n / 16384) 128 with h₃ | h₃
  . obtain ⟨hbyte, hlt⟩ := hread.last h h₃
    have hor := or_last (n := n) 14 (by decide) h₃
    simp only [hbyte, ok_bind, if_pos hlt, length_write_of_lt h₃]
    simp only [advance_advance]
    exact congrArg (fun v => Except.ok (v, _)) hor
  obtain ⟨hbyte, hlt, h⟩ := hread.continued h h₃
  have hor : UInt32.ofNat (n % 16384) ||| UInt32.ofNat (n / 16384 % 128) <<< 14 = UInt32.ofNat (n % 2097152) :=
    or_continued 14 (by decide)
  have hdiv : n / 16384 / 128 = n / 2097152 := Nat.div_div_eq_div_mul n 16384 128
  rw [hdiv] at h
  simp only [hbyte, ok_bind, if_neg hlt, and_7f_continued, length_write_of_le h₃, hor, hdiv]
  rcases Nat.lt_or_ge (n / 2097152) 128 with h₄ | h₄
  . obtain ⟨hbyte, hlt⟩ := hread.last h h₄
    have hor := or_last (n := n) 21 (by decide) h₄
    simp only [hbyte, ok_bind, if_pos hlt, length_write_of_lt h₄]
    simp only [advance_advance]
    exact congrArg (fun v => Except.ok (v, _)) hor
  obtain ⟨hbyte, hlt, h⟩ := hread.continued h h₄
  have hor : UInt32.ofNat (n % 2097152) ||| UInt32.ofNat (n / 2097152 % 128) <<< 21 = UInt32.ofNat (n % 268435456)
      := or_continued 21 (by decide)
  have hdiv : n / 2097152 / 128 = n / 268435456 := Nat.div_div_eq_div_mul n 2097152 128
  rw [hdiv] at h
  simp only [hbyte, ok_bind, if_neg hlt, and_7f_continued, length_write_of_le h₄, hor, hdiv]
  rcases Nat.lt_or_ge (n / 268435456) 128 with h₅ | h₅
  . obtain ⟨hbyte, hlt⟩ := hread.last h h₅
    have hor := or_last (n := n) 28 (by decide) h₅
    simp only [hbyte, ok_bind, if_pos hlt, length_write_of_lt h₅]
    simp only [advance_advance]
    exact congrArg (fun v => Except.ok (v, _)) hor
  obtain ⟨hbyte, hlt, h⟩ := hread.continued h h₅
  have hor : UInt32.ofNat (n % 268435456) ||| (UInt8.ofNat (n / 268435456 % 128 + 128)).toUInt32 <<< 28
      = UInt32.ofNat n := or_fifth
  have hrest : (Varint.write (n / 268435456 / 128)).length ≤ 5 := by
    rw [Varint.length_write_le_iff (by decide)]
    omega
  simp only [hbyte, ok_bind, if_neg hlt, length_write_of_le h₅, hor, discard_eq h hrest]
  simp only [advance_advance]
  congr 3
  omega

theorem Holds.slowReadRawVarint32 (h : s.Holds (Varint.write n ++ bs)) (hn : n < 2 ^ 64)
    : s.slowReadRawVarint32 = .ok (.ofNat n, s.advance (Varint.write n).length) :=
  readVarint32_eq gives_readRawByte hn h

theorem Holds.readRawVarint32 (h : s.Holds (Varint.write n ++ bs)) (hn : n < 2 ^ 64)
    : s.readRawVarint32 = .ok (.ofNat n, s.advance (Varint.write n).length) := by
  rw [CodedInputStream.readRawVarint32]
  split
  . exact h.slowReadRawVarint32 hn
  . exact readVarint32_eq gives_nextByte hn h

theorem and_7F_toUInt64 : (b &&& 0x7F).toUInt64 = .ofNat (b.toNat % 128) := by
  have h : b.toNat &&& 127 = b.toNat % 128 := Nat.and_two_pow_sub_one_eq_mod b.toNat 7
  apply UInt64.toNat_inj.mp
  rw [UInt8.toNat_toUInt64, UInt8.toNat_and, UInt64.toNat_ofNat']
  show b.toNat &&& 127 = _
  omega

theorem and_80_eq_zero_iff : b &&& 0x80 = 0 ↔ b.toNat < 128 := by
  have h : b.toNat &&& 2 ^ 7 = (b.toNat.testBit 7).toNat * 2 ^ 7 := Nat.and_two_pow b.toNat 7
  have hbit : b.toNat.testBit 7 = decide (b.toNat / 2 ^ 7 % 2 = 1) := Nat.testBit_eq_decide_div_mod_eq
  have hlt := b.toNat_lt
  rw [← UInt8.toNat_inj, UInt8.toNat_and]
  show b.toNat &&& 2 ^ 7 = 0 ↔ _
  rw [h, hbit]
  by_cases h1 : b.toNat / 2 ^ 7 % 2 = 1
  . rw [decide_eq_true h1]
    simp only [Bool.toNat_true]
    omega
  . rw [decide_eq_false h1]
    simp only [Bool.toNat_false]
    omega

theorem readVarint64_eq {shift x : Nat} (hx : x < 2 ^ shift) (hm : m * 2 ^ shift < 2 ^ 64) (hshift : shift < 64)
    (h : s.Holds (Varint.write m ++ bs))
    : readVarint64 shift (.ofNat x) s = .ok (.ofNat (x + m * 2 ^ shift), s.advance (Varint.write m).length) := by
  induction m using Nat.strongRecOn generalizing s x shift with
  | _ m ih =>
    have hx' : (UInt64.ofNat x).toNat = x := by
      have hlt : x < 2 ^ 64 := Nat.lt_trans hx (Nat.pow_lt_pow_right (by decide) hshift)
      rw [UInt64.toNat_ofNat', Nat.mod_eq_of_lt hlt]
    have hor (k : Nat) : UInt64.ofNat x ||| .ofNat k <<< .ofNat shift = .ofNat (x + k * 2 ^ shift) := by
      rw [Varint.uint64_or_shift (hx'.symm ▸ hx) hshift, hx']
    rw [readVarint64, if_pos hshift]
    rcases Nat.lt_or_ge m 128 with h₁ | h₁
    . obtain ⟨hbyte, -⟩ := gives_readRawByte.last h h₁
      have hlast : UInt8.ofNat m &&& 0x80 = 0 := and_80_eq_zero_iff.mpr (by rwa [Varint.toNat_last h₁])
      simp only [hbyte, ok_bind, if_pos hlast, and_7F_toUInt64, Varint.toNat_last h₁, Nat.mod_eq_of_lt h₁, hor,
        length_write_of_lt h₁]
      rfl
    . obtain ⟨hbyte, -, htail⟩ := gives_readRawByte.continued h h₁
      have hnext : ¬ UInt8.ofNat (m % 128 + 128) &&& 0x80 = 0 := by
        rw [and_80_eq_zero_iff, Varint.toNat_continued]
        omega
      have hpow : 2 ^ (shift + 7) = 128 * 2 ^ shift := by
        rw [Nat.pow_add, Nat.mul_comm]
      have hsum : m % 128 * 2 ^ shift + m / 128 * 2 ^ (shift + 7) = m * 2 ^ shift := by
        rw [hpow, ← Nat.mul_assoc, ← Nat.add_mul, Nat.mul_comm (m / 128), Nat.mod_add_div]
      have hle : 2 ^ (shift + 7) ≤ m / 128 * 2 ^ (shift + 7) := Nat.le_mul_of_pos_left _ (by omega)
      have hshift' : shift + 7 < 64 := by
        apply (Nat.pow_lt_pow_iff_right (a := 2) (by decide)).mp
        omega
      have hacc : x + m % 128 * 2 ^ shift < 2 ^ (shift + 7) := by
        calc x + m % 128 * 2 ^ shift < 2 ^ shift + 127 * 2 ^ shift :=
              Nat.add_lt_add_of_lt_of_le hx (Nat.mul_le_mul_right _ (by omega))
          _ = 2 ^ (shift + 7) := by omega
      have hmod : (m % 128 + 128) % 128 = m % 128 := by omega
      simp only [hbyte, ok_bind, if_neg hnext, and_7F_toUInt64, Varint.toNat_continued, hmod, hor]
      rw [ih (m / 128) (by omega) hacc (by omega) hshift' htail, advance_advance, Nat.add_assoc, hsum,
        length_write_of_le h₁, Int.natCast_add]
      rfl

theorem Holds.readRawVarint64 (h : s.Holds (Varint.write n ++ bs)) (hn : n < 2 ^ 64)
    : s.readRawVarint64 = .ok (.ofNat n, s.advance (Varint.write n).length) := by
  have hread := readVarint64_eq (show 0 < 2 ^ 0 by decide) (by omega) (by decide) h
  rwa [Nat.zero_add, Nat.pow_zero, Nat.mul_one] at hread

theorem Holds.readInt64 {v : UInt64} (h : s.Holds (Varint.write v.toNat ++ bs))
    : s.readInt64 = .ok (v.toInt64, s.advance (Varint.write v.toNat).length) := by
  rw [CodedInputStream.readInt64, h.readRawVarint64 v.toNat_lt, ok_bind, UInt64.ofNat_toNat]
  rfl

theorem Holds.readInt32 {v : UInt64} (h : s.Holds (Varint.write v.toNat ++ bs))
    : s.readInt32 = .ok (v.toUInt32.toInt32, s.advance (Varint.write v.toNat).length) := by
  have hlow : UInt32.ofNat v.toNat = v.toUInt32 := by
    apply UInt32.toNat_inj.mp
    rw [UInt32.toNat_ofNat', UInt64.toNat_toUInt32]
  rw [CodedInputStream.readInt32, h.readRawVarint32 v.toNat_lt, ok_bind, hlow]
  rfl

theorem Holds.readLength (h : s.Holds (Varint.write n ++ bs)) (hn : n < 2 ^ 31)
    : ∃ length : Int32, s.readLength = .ok (length, s.advance (Varint.write n).length) ∧ length.toInt = n := by
  refine ⟨(UInt32.ofNat n).toInt32, ?_, ?_⟩
  . rw [CodedInputStream.readLength, CodedInputStream.readInt32, h.readRawVarint32 (by omega), ok_bind]
    rfl
  . show (UInt32.ofNat n).toBitVec.toInt = n
    rw [BitVec.toInt_eq_toNat_of_lt]
    . show ((UInt32.ofNat n).toNat : Int) = n
      rw [UInt32.toNat_ofNat']
      omega
    . show 2 * (UInt32.ofNat n).toNat < 2 ^ 32
      rw [UInt32.toNat_ofNat']
      omega

end WzGame.Protobuf.CodedInputStream
