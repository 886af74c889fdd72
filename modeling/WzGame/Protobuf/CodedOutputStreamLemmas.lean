import WzGame.Protobuf.CodedOutputStream
import WzGame.Protobuf.CodedInputStreamLemmas

/-!
This module contains what the operations of an output stream write, and that the sizes are computed rightly.
-/

namespace WzGame.Protobuf.CodedOutputStream

open CodedInputStream (ok_bind pure_eq)

variable {o o' : CodedOutputStream} {bs bs' : List UInt8} {n : Nat} {value : String}

theorem throw_bind {α β : Type} {e : Exception} {f : α → Except Exception β}
    : ((throw e : Except Exception α) >>= f) = throw e := rfl

theorem put_nil : o.put [] = .ok o := by
  rw [put, dif_pos (by rw [List.length_nil, Nat.add_zero]; exact o.length_le)]
  obtain ⟨buffer, limit, h⟩ := o
  simp [pure_eq]

theorem put_append : o.put (bs ++ bs') = (o.put bs >>= fun o => o.put bs') := by
  rw [put, put]
  by_cases h : o.position + bs.length ≤ o.limit
  . rw [dif_pos h, pure_eq, ok_bind, put]
    by_cases h' : o.position + (bs ++ bs').length ≤ o.limit
    . rw [dif_pos h', dif_pos]
      . simp only [List.append_assoc]
      . simp only [position, List.length_append] at h' ⊢
        omega
    . rw [dif_neg h', dif_neg]
      simp only [position, List.length_append] at h' ⊢
      omega
  . rw [dif_neg h, throw_bind, dif_neg]
    simp only [List.length_append]
    omega

theorem writeRawByte_eq {b : UInt8} : o.writeRawByte b = o.put [b] := by
  have hle : o.position ≤ o.limit := o.length_le
  rw [writeRawByte, put]
  by_cases h : o.position = o.limit
  . rw [dif_pos h, dif_neg (by simp only [List.length_singleton]; omega)]
  . rw [dif_neg h, dif_pos (by simp only [List.length_singleton]; omega)]
    rfl

theorem writeSlow_eq : (writeSlow n o >>= fun p => writeLast p.1 p.2) = o.put (Varint.write n) := by
  induction n using Nat.strongRecOn generalizing o with
  | _ n ih =>
    rw [writeSlow]
    rcases Nat.lt_or_ge n 128 with h | h
    . rw [if_neg (by omega), pure_eq, ok_bind, Varint.write_of_lt h, writeLast, ← writeRawByte_eq]
      split
      case isTrue h => rw [writeRawByte, dif_neg (Nat.ne_of_lt h)]
      case isFalse => rfl
    . rw [if_pos (show 127 < n from h), Varint.write_of_le h, ← List.singleton_append, put_append, ← writeRawByte_eq]
      cases o.writeRawByte (.ofNat (n % 128 + 128)) with
      | error e => rfl
      | ok o' => exact ih (n / 128) (by omega)

theorem writeFast_eq
    : (writeSlow (writeFast n o).1 (writeFast n o).2 >>= fun p => writeLast p.1 p.2) = o.put (Varint.write n) := by
  induction n using Nat.strongRecOn generalizing o with
  | _ n ih =>
    rw [writeFast]
    split
    case isTrue h =>
      have hbyte : o.put [.ofNat (n % 128 + 128)] = .ok (o.push (.ofNat (n % 128 + 128)) h.2) := by
        rw [← writeRawByte_eq, writeRawByte, dif_neg (Nat.ne_of_lt h.2)]
        rfl
      rw [ih (n / 128) (by omega), Varint.write_of_le h.1, ← List.singleton_append, put_append, hbyte, ok_bind]
    case isFalse => exact writeSlow_eq

theorem writeRawVarint64_eq {v : UInt64} : o.writeRawVarint64 v = o.put (Varint.write v.toNat) := writeFast_eq

theorem writeRawVarint32_eq {v : UInt32} : o.writeRawVarint32 v = o.put (Varint.write v.toNat) := by
  rw [writeRawVarint32]
  split
  case isTrue h =>
    have hlt : v.toNat < 128 := UInt32.lt_iff_toNat_lt.mp h.1
    rw [Varint.write_of_lt hlt, ← writeRawByte_eq, writeRawByte, dif_neg (Nat.ne_of_lt h.2)]
    rfl
  case isFalse => exact writeFast_eq

theorem writeInt64_eq {v : Int64} : o.writeInt64 v = o.put (Varint.write v.toUInt64.toNat) := writeRawVarint64_eq

-- the number that is written for an `int`
def extend (v : Int32) : UInt64 := v.toInt64.toUInt64

theorem toNat_extend {v : Int32}
    : (extend v).toNat
      = if v.toUInt32.toNat < 2 ^ 31 then v.toUInt32.toNat else v.toUInt32.toNat + (2 ^ 64 - 2 ^ 32) := by
  have hsame : v.toInt64.toBitVec.toInt = v.toBitVec.toInt := Int32.toInt_toInt64 v
  rw [BitVec.toInt_eq_toNat_cond, BitVec.toInt_eq_toNat_cond] at hsame
  have hlt := v.toBitVec.isLt
  have hlt' := v.toInt64.toBitVec.isLt
  show v.toInt64.toBitVec.toNat
    = if v.toBitVec.toNat < 2 ^ 31 then v.toBitVec.toNat else v.toBitVec.toNat + (2 ^ 64 - 2 ^ 32)
  split at hsame <;> split at hsame <;> split <;> omega

theorem nonneg_iff {v : Int32} : 0 ≤ v ↔ v.toUInt32.toNat < 2 ^ 31 := by
  have hlt := v.toBitVec.isLt
  have htoInt : v.toInt = _ := BitVec.toInt_eq_toNat_cond v.toBitVec
  rw [Int32.le_iff_toInt_le, htoInt]
  show 0 ≤ _ ↔ v.toBitVec.toNat < 2 ^ 31
  split <;> omega

theorem toUInt32_extend {v : Int32} : (extend v).toUInt32.toInt32 = v := by
  have hlow : (extend v).toUInt32 = v.toUInt32 := by
    have hlt := v.toUInt32.toNat_lt
    apply UInt32.toNat_inj.mp
    rw [UInt64.toNat_toUInt32, toNat_extend]
    split <;> omega
  rw [hlow]
  rfl

theorem writeInt32_eq {v : Int32} : o.writeInt32 v = o.put (Varint.write (extend v).toNat) := by
  rw [writeInt32]
  split
  case isTrue h => rw [writeRawVarint32_eq, toNat_extend, if_pos (nonneg_iff.mp h)]
  case isFalse => exact writeRawVarint64_eq

theorem writeLength_eq (h : n < 2 ^ 32) : o.writeLength n = o.put (Varint.write n) := by
  rw [writeLength, writeRawVarint32_eq, UInt32.toNat_ofNat', Nat.mod_eq_of_lt h]

theorem writeTag_eq {tag : UInt32} : o.writeTag tag = o.put (Varint.write tag.toNat) := writeRawVarint32_eq

theorem writeRawTag_eq {tag : UInt8} (h : tag < 128) : o.writeRawTag tag = o.put (Varint.write tag.toNat) := by
  rw [writeRawTag, writeRawByte_eq, Varint.write_of_lt (UInt8.lt_iff_toNat_lt.mp h), UInt8.ofNat_toNat]

theorem lt_of_isAscii {c : Char} (h : Utf.IsAscii (Utf.utf16EncodeChar c)) : c.toNat < 0x80 := by
  rw [Utf.utf16EncodeChar] at h
  split at h
  case isTrue hc =>
    have hunit := h (.ofNat c.toNat) (List.mem_singleton.mpr rfl)
    rw [UInt16.toNat_ofNat'] at hunit
    omega
  case isFalse hc =>
    have hlt : c.toNat < 0x110000 := by
      have hvalid := c.valid
      simp only [UInt32.isValidChar, Nat.isValidChar] at hvalid
      show c.val.toNat < _
      omega
    have hunit := h _ List.mem_cons_self
    rw [UInt16.toNat_ofNat'] at hunit
    omega

theorem map_utf16Encode {cs : List Char} (h : Utf.IsAscii (Utf.utf16Encode cs))
    : (Utf.utf16Encode cs).map UInt16.toUInt8 = Utf.utf8Encode cs := by
  induction cs with
  | nil => rfl
  | cons c cs ih =>
    simp only [Utf.utf16Encode, Utf.utf8Encode, List.flatMap_cons, List.map_append] at h ih ⊢
    have hc := lt_of_isAscii fun u hu => h u (List.mem_append_left _ hu)
    rw [ih fun u hu => h u (List.mem_append_right _ hu), Utf.utf8EncodeChar_eq, if_pos hc, Utf.utf16EncodeChar,
      if_pos (by omega), List.map_singleton]
    congr 2
    apply UInt8.toNat_inj.mp
    rw [UInt16.toNat_toUInt8, UInt16.toNat_ofNat', UInt8.toNat_ofNat']
    omega

theorem map_units (h : getByteCount value = (units value).length)
    : (units value).map UInt16.toUInt8 = getBytes value :=
  map_utf16Encode (Utf.isAscii_of_length_eq h.symm)

theorem writeString_eq (h : getByteCount value < 2 ^ 32)
    : o.writeString value = o.put (Varint.write (getByteCount value) ++ getBytes value) := by
  rw [writeString, put_append, writeLength_eq h]
  congr 1
  funext o
  split
  . split
    case isTrue heq => rw [map_units heq]
    case isFalse => rfl
  . rfl

theorem length_write_eq {k : Nat} (hk : 0 < k) (h : 128 ^ k ≤ n) (h' : n < 128 ^ (k + 1))
    : (Varint.write n).length = k + 1 := (Varint.length_write_eq_iff hk).mpr ⟨h, h'⟩

theorem computeRawVarint32Size_eq {v : UInt32} : computeRawVarint32Size v = (Varint.write v.toNat).length := by
  have hlt := v.toNat_lt
  simp only [computeRawVarint32Size, Varint.uint32_and_high_eq_zero_iff 7 (by decide),
    Varint.uint32_and_high_eq_zero_iff 14 (by decide), Varint.uint32_and_high_eq_zero_iff 21 (by decide),
    Varint.uint32_and_high_eq_zero_iff 28 (by decide)]
  simp only [show (7 : UInt32).toNat = 7 from rfl, show (14 : UInt32).toNat = 14 from rfl,
    show (21 : UInt32).toNat = 21 from rfl, show (28 : UInt32).toNat = 28 from rfl]
  split_ifs with h₁ h₂ h₃ h₄
  . rw [Varint.write_of_lt h₁, List.length_singleton]
  . rw [length_write_eq (k := 1) (by decide) (by omega) (by omega)]
  . rw [length_write_eq (k := 2) (by decide) (by omega) (by omega)]
  . rw [length_write_eq (k := 3) (by decide) (by omega) (by omega)]
  . rw [length_write_eq (k := 4) (by decide) (by omega) (by omega)]

theorem computeRawVarint64Size_eq {v : UInt64} : computeRawVarint64Size v = (Varint.write v.toNat).length := by
  have hlt := v.toNat_lt
  simp only [computeRawVarint64Size, Varint.uint64_and_high_eq_zero_iff 7 (by decide),
    Varint.uint64_and_high_eq_zero_iff 14 (by decide), Varint.uint64_and_high_eq_zero_iff 21 (by decide),
    Varint.uint64_and_high_eq_zero_iff 28 (by decide), Varint.uint64_and_high_eq_zero_iff 35 (by decide),
    Varint.uint64_and_high_eq_zero_iff 42 (by decide), Varint.uint64_and_high_eq_zero_iff 49 (by decide),
    Varint.uint64_and_high_eq_zero_iff 56 (by decide), Varint.uint64_and_high_eq_zero_iff 63 (by decide)]
  simp only [show (7 : UInt64).toNat = 7 from rfl, show (14 : UInt64).toNat = 14 from rfl,
    show (21 : UInt64).toNat = 21 from rfl, show (28 : UInt64).toNat = 28 from rfl,
    show (35 : UInt64).toNat = 35 from rfl, show (42 : UInt64).toNat = 42 from rfl,
    show (49 : UInt64).toNat = 49 from rfl, show (56 : UInt64).toNat = 56 from rfl,
    show (63 : UInt64).toNat = 63 from rfl]
  split_ifs with h₁ h₂ h₃ h₄ h₅ h₆ h₇ h₈ h₉
  . rw [Varint.write_of_lt h₁, List.length_singleton]
  . rw [length_write_eq (k := 1) (by decide) (by omega) (by omega)]
  . rw [length_write_eq (k := 2) (by decide) (by omega) (by omega)]
  . rw [length_write_eq (k := 3) (by decide) (by omega) (by omega)]
  . rw [length_write_eq (k := 4) (by decide) (by omega) (by omega)]
  . rw [length_write_eq (k := 5) (by decide) (by omega) (by omega)]
  . rw [length_write_eq (k := 6) (by decide) (by omega) (by omega)]
  . rw [length_write_eq (k := 7) (by decide) (by omega) (by omega)]
  . rw [length_write_eq (k := 8) (by decide) (by omega) (by omega)]
  . rw [length_write_eq (k := 9) (by decide) (by omega) (by omega)]

theorem computeInt64Size_eq {v : Int64} : computeInt64Size v = (Varint.write v.toUInt64.toNat).length :=
  computeRawVarint64Size_eq

theorem computeInt32Size_eq {v : Int32} : computeInt32Size v = (Varint.write (extend v).toNat).length := by
  have hlt := v.toUInt32.toNat_lt
  rw [computeInt32Size, toNat_extend]
  split
  case isTrue h => rw [computeRawVarint32Size_eq, if_pos (nonneg_iff.mp h)]
  case isFalse h =>
    have hle := mt nonneg_iff.mpr h
    rw [if_neg hle, length_write_eq (k := 9) (by decide) (by omega) (by omega)]

theorem computeLengthSize_eq (h : n < 2 ^ 32) : computeLengthSize n = (Varint.write n).length := by
  rw [computeLengthSize, computeRawVarint32Size_eq, UInt32.toNat_ofNat', Nat.mod_eq_of_lt h]

theorem computeStringSize_eq (h : getByteCount value < 2 ^ 32)
    : computeStringSize value = (Varint.write (getByteCount value) ++ getBytes value).length := by
  rw [computeStringSize, computeLengthSize_eq h, List.length_append]
  rfl

end WzGame.Protobuf.CodedOutputStream
