import Mathlib.Data.List.Basic
import Mathlib.Data.UInt

/-!
This module contains strings as sequences of UTF-16 code units, their UTF-8 form, and where the UTF-8 form
can be cut.
-/

namespace Utf

def utf16EncodeChar (c : Char) : List UInt16 :=
  if c.toNat < 0x10000 then
    [.ofNat c.toNat]
  else
    [.ofNat (0xd800 + (c.toNat - 0x10000) / 0x400), .ofNat (0xdc00 + (c.toNat - 0x10000) % 0x400)]

def utf16Encode (cs : List Char) : List UInt16 := cs.flatMap utf16EncodeChar

def IsHigh (u : UInt16) : Prop := 0xd800 ≤ u.toNat ∧ u.toNat < 0xdc00

def IsLow (u : UInt16) : Prop := 0xdc00 ≤ u.toNat ∧ u.toNat < 0xe000

instance : DecidablePred IsHigh := fun u => inferInstanceAs (Decidable (0xd800 ≤ u.toNat ∧ u.toNat < 0xdc00))

instance : DecidablePred IsLow := fun u => inferInstanceAs (Decidable (0xdc00 ≤ u.toNat ∧ u.toNat < 0xe000))

def unitChar (u : UInt16) : Char := if IsHigh u ∨ IsLow u then '?' else .ofNat u.toNat

def pairChar (u v : UInt16) : Char :=
  .ofNat (0x10000 + (u.toNat - 0xd800) * 0x400 + (v.toNat - 0xdc00))

def utf16Decode : List UInt16 → List Char
  | [] => []
  | [u] => [unitChar u]
  | u :: v :: us =>
    if IsHigh u ∧ IsLow v then
      pairChar u v :: utf16Decode us
    else
      unitChar u :: utf16Decode (v :: us)

def utf8Encode (cs : List Char) : List UInt8 := cs.flatMap String.utf8EncodeChar

def utf8Decode? (bs : List UInt8) : Option (List Char) := bs.toByteArray.utf8Decode?.map Array.toList

def getBytes (us : List UInt16) : List UInt8 := utf8Encode (utf16Decode us)

def ofBytes (malformed : List UInt8 → List UInt16) (bs : List UInt8) : List UInt16 :=
  ((utf8Decode? bs).map utf16Encode).getD (malformed bs)

def IsAscii (us : List UInt16) : Prop := ∀ u ∈ us, u.toNat < 0x80

instance : DecidablePred IsAscii := fun us => List.decidableBAll _ us

def BeginsInside (bs : List UInt8) : Prop := ∃ b tail, bs = b :: tail ∧ 0x80 ≤ b.toNat ∧ b.toNat < 0xc0

variable {c : Char} {cs : List Char} {u v : UInt16} {us : List UInt16} {n : Nat}

@[simp]
theorem utf8Decode?_utf8Encode : utf8Decode? (utf8Encode cs) = some cs := by
  have h : cs.utf8Encode.utf8Decode? = some cs.toArray := List.utf8Decode?_utf8Encode
  rw [List.utf8Encode] at h
  simp [utf8Decode?, utf8Encode, h]

theorem utf8EncodeChar_eq (c : Char)
    : String.utf8EncodeChar c
      = if c.toNat < 0x80 then
          [.ofNat c.toNat]
        else if c.toNat < 0x800 then
          [.ofNat (c.toNat / 64 % 0x20 + 0xc0), .ofNat (c.toNat % 0x40 + 0x80)]
        else if c.toNat < 0x10000 then
          [.ofNat (c.toNat / 4096 % 0x10 + 0xe0), .ofNat (c.toNat / 64 % 0x40 + 0x80),
            .ofNat (c.toNat % 0x40 + 0x80)]
        else
          [.ofNat (c.toNat / 262144 % 0x08 + 0xf0), .ofNat (c.toNat / 4096 % 0x40 + 0x80),
            .ofNat (c.toNat / 64 % 0x40 + 0x80), .ofNat (c.toNat % 0x40 + 0x80)] := by
  have hval : c.val.toNat = c.toNat := rfl
  simp only [String.utf8EncodeChar, hval]
  split_ifs <;> first | rfl | omega

theorem length_utf8EncodeChar_eq
    : (String.utf8EncodeChar c).length
      = if c.toNat < 0x80 then 1 else if c.toNat < 0x800 then 2 else if c.toNat < 0x10000 then 3 else 4 := by
  rw [utf8EncodeChar_eq]
  split_ifs <;> rfl

theorem length_utf16EncodeChar_eq
    : (utf16EncodeChar c).length = if c.toNat < 0x10000 then 1 else 2 := by
  unfold utf16EncodeChar
  split_ifs <;> rfl

theorem length_utf16EncodeChar_le
    : (utf16EncodeChar c).length ≤ (String.utf8EncodeChar c).length
      ∧ (¬ c.toNat < 0x80 → (utf16EncodeChar c).length < (String.utf8EncodeChar c).length) := by
  rw [length_utf8EncodeChar_eq, length_utf16EncodeChar_eq]
  split_ifs <;> omega

theorem length_utf16Encode_le : (utf16Encode cs).length ≤ (utf8Encode cs).length := by
  induction cs with
  | nil => simp [utf16Encode]
  | cons c cs ih =>
    have hc := (length_utf16EncodeChar_le (c := c)).1
    simp only [utf16Encode, utf8Encode, List.flatMap_cons, List.length_append] at ih ⊢
    omega

theorem isAscii_of_length_eq (h : (utf16Encode cs).length = (utf8Encode cs).length)
    : IsAscii (utf16Encode cs) := by
  induction cs with
  | nil => simp [IsAscii, utf16Encode]
  | cons c cs ih =>
    obtain ⟨hle, hlt⟩ := length_utf16EncodeChar_le (c := c)
    have htail : (utf16Encode cs).length ≤ (utf8Encode cs).length := length_utf16Encode_le
    simp only [utf16Encode, utf8Encode, List.flatMap_cons, List.length_append] at h htail ih ⊢
    have hc : c.toNat < 0x80 := by
      by_contra hc
      have := hlt hc
      omega
    intro u hu
    rcases List.mem_append.mp hu with hhead | hmem
    . rw [utf16EncodeChar, if_pos (by omega)] at hhead
      obtain rfl := List.mem_singleton.mp hhead
      rw [UInt16.toNat_ofNat_of_lt' (by simp [UInt16.size]; omega)]
      exact hc
    . exact ih (by omega) u hmem

theorem unitChar_of_lt (h : u.toNat < 0x80) : unitChar u = .ofNat u.toNat := by
  have hhigh : ¬ (IsHigh u ∨ IsLow u) := by
    simp only [IsHigh, IsLow]
    omega
  rw [unitChar, if_neg hhigh]

theorem utf16Decode_of_isAscii (h : IsAscii us) : utf16Decode us = us.map fun u => .ofNat u.toNat := by
  induction us using utf16Decode.induct with
  | case1 => rfl
  | case2 u => rw [utf16Decode, unitChar_of_lt (h u (by simp))]; rfl
  | case3 u v us hpair =>
    have hu := h u (by simp)
    simp only [IsHigh] at hpair
    omega
  | case4 u v us hpair ih =>
    rw [utf16Decode, if_neg hpair, unitChar_of_lt (h u (by simp)),
      ih fun w hw => h w (List.mem_cons_of_mem _ hw)]
    rfl

theorem beginsInside_ofNat {tail : List UInt8} (n : Nat)
    : BeginsInside (.ofNat (n % 0x40 + 0x80) :: tail) := by
  have h : (UInt8.ofNat (n % 0x40 + 0x80)).toNat = n % 0x40 + 0x80 :=
    UInt8.toNat_ofNat_of_lt' (by simp [UInt8.size]; omega)
  exact ⟨_, tail, rfl, by omega, by omega⟩

theorem beginsInside_drop_utf8EncodeChar {tail : List UInt8} (hpos : 0 < n)
    (hlt : n < (String.utf8EncodeChar c).length)
    : BeginsInside ((String.utf8EncodeChar c).drop n ++ tail) := by
  rw [utf8EncodeChar_eq] at hlt ⊢
  split_ifs at hlt ⊢
  all_goals
    simp only [List.length_cons, List.length_nil] at hlt
    rcases n with _ | _ | _ | _ | n
    all_goals first | omega | exact beginsInside_ofNat _

theorem take_utf8Encode (hn : n ≤ (utf8Encode cs).length)
    : (∃ cs', (utf8Encode cs).take n = utf8Encode cs') ∨ BeginsInside ((utf8Encode cs).drop n) := by
  induction cs generalizing n with
  | nil => exact .inl ⟨[], by simp [utf8Encode]⟩
  | cons c cs ih =>
    simp only [utf8Encode, List.flatMap_cons, List.length_append] at hn ih ⊢
    by_cases hle : (String.utf8EncodeChar c).length ≤ n
    . rw [List.take_append, List.drop_append, List.take_of_length_le hle, List.drop_of_length_le hle,
        List.nil_append]
      rcases ih (n := n - (String.utf8EncodeChar c).length) (by omega) with ⟨cs', hcs'⟩ | hinside
      . exact .inl ⟨c :: cs', by rw [hcs', List.flatMap_cons]⟩
      . exact .inr hinside
    . rcases Nat.eq_zero_or_pos n with rfl | hpos
      . exact .inl ⟨[], rfl⟩
      . rw [List.drop_append_of_le_length (by omega)]
        exact .inr (beginsInside_drop_utf8EncodeChar hpos (by omega))

theorem toNat_ofNat_of_isValidChar (h : n.isValidChar) : (Char.ofNat n).toNat = n := by
  rw [Char.ofNat, dif_pos h]
  rfl

theorem toNat_pairChar (hu : IsHigh u) (hv : IsLow v)
    : (pairChar u v).toNat = 0x10000 + (u.toNat - 0xd800) * 0x400 + (v.toNat - 0xdc00) := by
  obtain ⟨hu, hu'⟩ := hu
  obtain ⟨hv, hv'⟩ := hv
  have hvalid : (0x10000 + (u.toNat - 0xd800) * 0x400 + (v.toNat - 0xdc00)).isValidChar :=
    .inr ⟨by omega, by omega⟩
  rw [pairChar, toNat_ofNat_of_isValidChar hvalid]

theorem length_le_length_getBytes : us.length ≤ (getBytes us).length := by
  simp only [getBytes, utf8Encode]
  induction us using utf16Decode.induct with
  | case1 => simp
  | case2 u =>
    have hu := length_utf8EncodeChar_eq (c := unitChar u)
    simp only [utf16Decode, List.flatMap_singleton, List.length_singleton]
    split_ifs at hu <;> omega
  | case3 u v us hpair ih =>
    have huv := length_utf8EncodeChar_eq (c := pairChar u v)
    rw [toNat_pairChar hpair.1 hpair.2] at huv
    rw [utf16Decode, if_pos hpair]
    simp only [List.flatMap_cons, List.length_cons, List.length_append]
    split_ifs at huv <;> omega
  | case4 u v us hpair ih =>
    have hu := length_utf8EncodeChar_eq (c := unitChar u)
    rw [utf16Decode, if_neg hpair]
    simp only [List.flatMap_cons, List.length_cons, List.length_append] at ih ⊢
    split_ifs at hu <;> omega

theorem utf16EncodeChar_ofNat (h : u.toNat < 0x80) : utf16EncodeChar (.ofNat u.toNat) = [u] := by
  have hchar : (Char.ofNat u.toNat).toNat = u.toNat := toNat_ofNat_of_isValidChar (.inl (by omega))
  rw [utf16EncodeChar, hchar, if_pos (by omega), UInt16.ofNat_toNat]

theorem utf16Encode_utf16Decode (h : IsAscii us) : utf16Encode (utf16Decode us) = us := by
  rw [utf16Decode_of_isAscii h]
  induction us with
  | nil => rfl
  | cons u us ih =>
    have htail := ih fun v hv => h v (List.mem_cons_of_mem _ hv)
    rw [utf16Encode] at htail
    rw [utf16Encode, List.map_cons, List.flatMap_cons, utf16EncodeChar_ofNat (h u List.mem_cons_self), htail]
    rfl

theorem length_getBytes (h : IsAscii us) : (getBytes us).length = us.length := by
  rw [getBytes, utf16Decode_of_isAscii h]
  induction us with
  | nil => rfl
  | cons u us ih =>
    have hu := h u List.mem_cons_self
    have hchar : (Char.ofNat u.toNat).toNat = u.toNat := toNat_ofNat_of_isValidChar (.inl (by omega))
    have htail := ih fun v hv => h v (List.mem_cons_of_mem _ hv)
    rw [utf8Encode] at htail
    rw [utf8Encode, List.map_cons, List.flatMap_cons, List.length_append, htail, length_utf8EncodeChar_eq,
      hchar, if_pos hu, List.length_cons]
    omega

theorem ofBytes_getBytes {malformed : List UInt8 → List UInt16} (h : IsAscii us)
    : ofBytes malformed (getBytes us) = us := by
  simp [ofBytes, getBytes, utf16Encode_utf16Decode h]

theorem isAscii_of_ofBytes_take {malformed : List UInt8 → List UInt16}
    (h : ofBytes malformed ((getBytes us).take us.length) = us)
    : IsAscii us ∨ BeginsInside ((getBytes us).drop us.length) := by
  have hle : us.length ≤ (getBytes us).length := length_le_length_getBytes
  rcases take_utf8Encode hle with ⟨cs, hcs⟩ | hinside
  . left
    have hlength : (utf8Encode cs).length = us.length := by
      rw [← hcs, List.length_take]
      exact Nat.min_eq_left hle
    rw [getBytes, hcs] at h
    simp only [ofBytes, utf8Decode?_utf8Encode, Option.map_some, Option.getD_some] at h
    rw [← h] at hlength ⊢
    exact isAscii_of_length_eq hlength.symm
  . exact .inr hinside

end Utf
