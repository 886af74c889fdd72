import WzGame.Protobuf.CodedInputStreamLemmas

/-!
This module contains how a stream goes over tags, of which it may hold the next one back, and how it goes into a part
of the bytes and comes out of it again.
-/

namespace WzGame.Protobuf.CodedInputStream

def frame (s : CodedInputStream) : CodedInputStream :=
  { s with bufferPos := 0, lastTag := 0, nextTag := 0, hasNextTag := false }

structure WF (s : CodedInputStream) : Prop where
  retired : s.totalBytesRetired = 0
  length : s.buffer.length = s.bufferSize + s.bufferSizeAfterLimit
  short : s.buffer.length < maxValue
  nonneg : 0 ≤ s.bufferSize ∧ 0 ≤ s.bufferSizeAfterLimit
  limit : s.currentLimit = s.bufferSize ∨ (s.currentLimit = maxValue ∧ s.bufferSizeAfterLimit = 0)

inductive Ready (s : CodedInputStream) (bytes : List UInt8) : Prop where
  | here (hnext : s.hasNextTag = false) (hs : s.Holds bytes)
  | peeked {rest : List UInt8} (hnext : s.hasNextTag = true) (htag : s.nextTag ≠ 0)
    (hbytes : bytes = Varint.write s.nextTag.toNat ++ rest) (hs : s.Holds rest)
  | ended (hnext : s.hasNextTag = true) (htag : s.nextTag = 0) (hbytes : bytes = []) (hs : s.Holds [])

variable {s s' : CodedInputStream} {bs bs' : List UInt8} {n : Nat} {tag : Nat} {t : UInt32}

theorem WF.of_frame (h : s.WF) (hframe : s'.frame = s.frame) : s'.WF := by
  have hbuffer := congrArg buffer hframe
  have hsize := congrArg bufferSize hframe
  have hafter := congrArg bufferSizeAfterLimit hframe
  have hretired := congrArg totalBytesRetired hframe
  have hlimit := congrArg currentLimit hframe
  simp only [frame] at hbuffer hsize hafter hretired hlimit
  obtain ⟨h₁, h₂, h₃, h₄, h₅⟩ := h
  rw [← hretired] at h₁
  rw [← hbuffer, ← hsize, ← hafter] at h₂
  rw [← hbuffer] at h₃
  rw [← hsize, ← hafter] at h₄
  rw [← hlimit, ← hsize, ← hafter] at h₅
  exact ⟨h₁, h₂, h₃, h₄, h₅⟩

theorem currentLimit_of_frame (h : s'.frame = s.frame) : s'.currentLimit = s.currentLimit := by
  have hlimit := congrArg currentLimit h
  exact hlimit

theorem Holds.congr (h : s.Holds bs) (hpos : s'.bufferPos = s.bufferPos) (hframe : s'.frame = s.frame)
    : s'.Holds bs := by
  have hbuffer := congrArg buffer hframe
  have hsize := congrArg bufferSize hframe
  simp only [frame] at hbuffer hsize
  obtain ⟨h₁, h₂, h₃⟩ := h
  rw [← hpos] at h₁ h₂ h₃
  rw [← hsize] at h₂
  rw [← hbuffer] at h₃
  exact ⟨h₁, h₂, h₃⟩

theorem wf_new (h : bs.length < maxValue) : (new bs).WF :=
  ⟨rfl, by simp [new], h, by simp [new], .inr ⟨rfl, rfl⟩⟩

theorem toNat_ofNat_tag (h : tag < 2 ^ 32) : (UInt32.ofNat tag).toNat = tag := by
  rw [UInt32.toNat_ofNat', Nat.mod_eq_of_lt h]

theorem ofNat_tag_ne_zero (h : tag < 2 ^ 32) (hpos : 0 < tag) : UInt32.ofNat tag ≠ 0 := by
  intro h0
  have htag := congrArg UInt32.toNat h0
  rw [toNat_ofNat_tag h] at htag
  exact absurd htag (Nat.ne_of_gt hpos)

theorem setLastTag_eq (h : t ≠ 0) : s.setLastTag t = .ok (t, { s with lastTag := t }) := by
  rw [setLastTag, if_neg h]
  rfl

theorem Holds.readTag (h : s.Holds (Varint.write tag ++ bs)) (hnext : s.hasNextTag = false) (hpos : 0 < tag)
    (hlt : tag < 2 ^ 32)
    : s.readTag
      = .ok (.ofNat tag, { s.advance (Varint.write tag).length with lastTag := .ofNat tag }) := by
  have hne := ofNat_tag_ne_zero hlt hpos
  have hsize := h.size
  have hlength := Varint.length_write_pos (n := tag)
  rw [List.length_append] at hsize
  simp only [CodedInputStream.readTag, hnext, Bool.false_eq_true, if_false]
  split
  . rcases Nat.lt_or_ge tag 128 with h₁ | h₁
    . obtain ⟨hbyte, hlast⟩ := gives_nextByte.last h h₁
      simp only [hbyte, ok_bind, if_pos hlast, toUInt32_ofNat (show tag < 256 by omega), length_write_of_lt h₁]
      exact setLastTag_eq hne
    . obtain ⟨hbyte, hmore, htail⟩ := gives_nextByte.continued h h₁
      simp only [hbyte, ok_bind, if_neg hmore, and_7f_continued]
      rcases Nat.lt_or_ge (tag / 128) 128 with h₂ | h₂
      . obtain ⟨hbyte₂, hlast⟩ := gives_nextByte.last htail h₂
        have hor : UInt32.ofNat (tag % 128) ||| (UInt8.ofNat (tag / 128)).toUInt32 <<< 7 = UInt32.ofNat tag :=
          or_last 7 (by decide) h₂
        simp only [hbyte₂, ok_bind, if_pos hlast, hor, length_write_of_le h₁, length_write_of_lt h₂, advance_advance]
        exact setLastTag_eq hne
      . obtain ⟨hbyte₂, hmore₂, -⟩ := gives_nextByte.continued htail h₂
        simp only [hbyte₂, ok_bind, if_neg hmore₂, h.readRawVarint32 (by omega)]
        exact setLastTag_eq hne
  . rw [isAtEnd, if_neg (by omega), pure_eq, ok_bind]
    simp only [Bool.false_eq_true, if_false, h.readRawVarint32 (by omega), ok_bind]
    exact setLastTag_eq hne

theorem int32_eq {i : Int} (h : -2147483648 ≤ i) (h' : i < 2147483648) : int32 i = i :=
  Int.bmod_eq_of_le (by omega) (by omega)

theorem Holds.readTag_nil (h : s.Holds []) (hnext : s.hasNextTag = false)
    : ∃ s', s.readTag = .ok (0, s') ∧ s'.lastTag = 0 ∧ s'.hasNextTag = false ∧ s'.Holds []
        ∧ (s.WF → s.currentLimit ≠ maxValue → s' = { s with lastTag := 0 }) := by
  obtain ⟨buffer, size, after, pos, last, next, hasNext, retired, limit, depth⟩ := s
  obtain rfl : hasNext = false := hnext
  obtain rfl : size = pos := by
    have hsize := h.size
    simpa using hsize
  simp only [CodedInputStream.readTag, Bool.false_eq_true, if_false, if_neg (show ¬ size + 2 ≤ size by omega),
    isAtEnd, if_true, refillBuffer, if_neg (Int.lt_irrefl size)]
  by_cases hlimit : int32 (retired + size) = limit
  . refine ⟨⟨buffer, size, after, size, 0, next, false, retired, limit, depth⟩, ?_, rfl, rfl, h.congr rfl rfl,
      fun _ _ => rfl⟩
    rw [if_pos hlimit]
    rfl
  . refine ⟨⟨buffer, 0, after, 0, 0, next, false, int32 (retired + size), limit, depth⟩, ?_, rfl, rfl,
      ⟨Int.le_refl 0, rfl, List.nil_prefix⟩, ?_⟩
    . rw [if_neg hlimit]
      rfl
    intro hwf hmax
    refine absurd ?_ hlimit
    obtain ⟨rfl, hlength, hshort, hnonneg, hlimit⟩ := hwf
    rw [maxValue] at hshort
    simp only at hlength hshort hnonneg hlimit
    rw [Int.zero_add, int32_eq (by omega) (by omega)]
    exact hlimit.elim Eq.symm fun hlimit => absurd hlimit.1 hmax

structure TagRead (s : CodedInputStream) (tag : UInt32) (bs : List UInt8) (s' : CodedInputStream) : Prop where
  read : s.readTag = .ok (tag, s')
  last : s'.lastTag = tag
  next : s'.hasNextTag = false
  holds : s'.Holds bs
  frame : tag ≠ 0 ∨ s.WF ∧ s.currentLimit ≠ maxValue → s'.frame = s.frame

theorem Ready.readTag (h : s.Ready (Varint.write tag ++ bs)) (hpos : 0 < tag) (hlt : tag < 2 ^ 32)
    : ∃ s', s.TagRead (.ofNat tag) bs s' := by
  cases h with
  | here hnext hs =>
    exact ⟨_, hs.readTag hnext hpos hlt, rfl, hnext, hs.advance.congr rfl rfl, fun _ => rfl⟩
  | @peeked rest hnext htag hbytes hs =>
    obtain ⟨rfl, rfl⟩ := Varint.write_append_inj hbytes
    rw [UInt32.ofNat_toNat]
    refine ⟨{ s with lastTag := s.nextTag, hasNextTag := false }, ?_, rfl, rfl, hs.congr rfl rfl, fun _ => rfl⟩
    rw [CodedInputStream.readTag, if_pos hnext]
    rfl
  | ended hnext htag hbytes hs =>
    exact absurd (List.append_eq_nil_iff.mp hbytes).1 Varint.write_ne_nil

theorem Ready.readTag_nil (h : s.Ready []) : ∃ s', s.TagRead 0 [] s' := by
  cases h with
  | here hnext hs =>
    obtain ⟨s', hread, hlast, hnext', hs', hframe⟩ := hs.readTag_nil hnext
    refine ⟨s', hread, hlast, hnext', hs', ?_⟩
    rintro (h | ⟨hwf, hlimit⟩)
    . exact absurd rfl h
    . rw [hframe hwf hlimit]
      rfl
  | peeked hnext htag hbytes hs =>
    exact absurd (List.append_eq_nil_iff.mp hbytes.symm).1 Varint.write_ne_nil
  | ended hnext htag hbytes hs =>
    refine ⟨{ s with lastTag := s.nextTag, hasNextTag := false }, ?_, htag, rfl, hs.congr rfl rfl, fun _ => rfl⟩
    rw [CodedInputStream.readTag, if_pos hnext, htag]
    rfl

theorem Holds.maybeConsumeTag (h : s.Holds (Varint.write tag ++ bs)) (hnext : s.hasNextTag = false) (hpos : 0 < tag)
    (hlt : tag < 2 ^ 32)
    : ∃ s', s.maybeConsumeTag t = .ok (decide (.ofNat tag = t), s') ∧ s'.frame = s.frame ∧ s'.lastTag = s.lastTag
        ∧ if UInt32.ofNat tag = t then s'.hasNextTag = false ∧ s'.Holds bs
          else s'.Ready (Varint.write tag ++ bs) := by
  have hpeek : s.peekTag = .ok (.ofNat tag, { s.advance (Varint.write tag).length with
      nextTag := .ofNat tag, hasNextTag := true, lastTag := s.lastTag }) := by
    simp only [peekTag, hnext, Bool.false_eq_true, if_false, h.readTag hnext hpos hlt, ok_bind]
    rfl
  simp only [CodedInputStream.maybeConsumeTag, hpeek, ok_bind]
  by_cases ht : UInt32.ofNat tag = t
  . simp only [if_pos ht, decide_eq_true ht]
    exact ⟨_, rfl, rfl, rfl, rfl, h.advance.congr rfl rfl⟩
  . simp only [if_neg ht, decide_eq_false ht]
    refine ⟨_, rfl, rfl, rfl, .peeked rfl (ofNat_tag_ne_zero hlt hpos) ?_ (h.advance.congr rfl rfl)⟩
    simp only [toNat_ofNat_tag hlt]

theorem Holds.maybeConsumeTag_nil (h : s.Holds []) (hnext : s.hasNextTag = false) (ht : t ≠ 0)
    : ∃ s', s.maybeConsumeTag t = .ok (false, s') ∧ (s.WF → s.currentLimit ≠ maxValue → s'.frame = s.frame)
        ∧ s'.Ready [] := by
  obtain ⟨s', hread, -, -, hs', hframe⟩ := h.readTag_nil hnext
  simp only [CodedInputStream.maybeConsumeTag, peekTag, hnext, Bool.false_eq_true, if_false, hread, ok_bind, pure_eq,
    if_neg ht.symm]
  refine ⟨_, rfl, ?_, .ended rfl rfl rfl (hs'.congr rfl rfl)⟩
  intro hwf hlimit
  rw [hframe hwf hlimit]
  rfl

def limited (s : CodedInputStream) (n : Int) : CodedInputStream :=
  { s with
    currentLimit := s.bufferPos + n
    bufferSize := s.bufferPos + n
    bufferSizeAfterLimit := s.buffer.length - (s.bufferPos + n) }

theorem Holds.append_bounds (h : s.Holds (bs ++ bs')) (hwf : s.WF)
    : 0 ≤ s.bufferPos ∧ s.bufferPos + bs.length + bs'.length = s.bufferSize ∧ s.bufferSize ≤ s.buffer.length
        ∧ s.buffer.length < maxValue := by
  have hsize := h.size
  have hlength := hwf.length
  have hnonneg := hwf.nonneg
  rw [List.length_append] at hsize
  exact ⟨h.nonneg, by omega, by omega, hwf.short⟩

theorem recomputeBufferSizeAfterLimit_eq (hretired : s.totalBytesRetired = 0)
    (hlength : s.buffer.length = s.bufferSize + s.bufferSizeAfterLimit) (hshort : s.buffer.length < maxValue)
    (hlimit : 0 ≤ s.currentLimit)
    : s.recomputeBufferSizeAfterLimit
      = { s with
          bufferSize := min s.currentLimit s.buffer.length
          bufferSizeAfterLimit := s.buffer.length - min s.currentLimit s.buffer.length } := by
  rw [maxValue] at hshort
  simp only [recomputeBufferSizeAfterLimit, hretired, Int.zero_add, ← hlength,
    int32_eq (show -2147483648 ≤ (s.buffer.length : Int) by omega) (by omega)]
  split
  . simp only [int32_eq (show -2147483648 ≤ s.buffer.length - s.currentLimit by omega) (by omega), Int.sub_sub_self,
      int32_eq (show -2147483648 ≤ s.currentLimit by omega) (by omega),
      Int.min_eq_left (show s.currentLimit ≤ s.buffer.length by omega)]
  . simp only [Int.min_eq_right (show s.buffer.length ≤ s.currentLimit by omega), Int.sub_self]

theorem Holds.pushLimit (h : s.Holds (bs ++ bs')) (hwf : s.WF)
    : s.pushLimit bs.length = .ok (s.currentLimit, s.limited bs.length) := by
  obtain ⟨hnonneg, hpos, hsize, hshort⟩ := h.append_bounds hwf
  have hlimit : ¬ s.bufferPos + bs.length > s.currentLimit := by
    rcases hwf.limit with h | ⟨h, -⟩ <;> rw [h] <;> omega
  have hpushed := recomputeBufferSizeAfterLimit_eq (s := { s with currentLimit := s.bufferPos + bs.length })
    hwf.retired hwf.length hwf.short (by simp only; omega)
  rw [maxValue] at hshort
  have hpos' : int32 (s.totalBytesRetired + s.bufferPos) = s.bufferPos := by
    rw [hwf.retired, Int.zero_add, int32_eq (by omega) (by omega)]
  have hsum : int32 (bs.length + s.bufferPos) = s.bufferPos + bs.length := by
    rw [Int.add_comm, int32_eq (by omega) (by omega)]
  simp only [CodedInputStream.pushLimit, if_neg (show ¬ (bs.length : Int) < 0 by omega), hpos', hsum, if_neg hlimit,
    hpushed, pure_eq, CodedInputStream.limited,
    Int.min_eq_left (show s.bufferPos + bs.length ≤ s.buffer.length by omega)]

theorem Holds.limited (h : s.Holds (bs ++ bs')) : (s.limited bs.length).Holds bs :=
  ⟨h.nonneg, rfl, (List.prefix_append bs bs').trans h.drop⟩

theorem Holds.wf_limited (h : s.Holds (bs ++ bs')) (hwf : s.WF) : (s.limited bs.length).WF := by
  obtain ⟨hnonneg, hpos, hsize, hshort⟩ := h.append_bounds hwf
  refine ⟨hwf.retired, ?_, hshort, ?_, .inl rfl⟩ <;> simp only [CodedInputStream.limited] <;> omega

theorem Holds.limited_ne (h : s.Holds (bs ++ bs')) (hwf : s.WF) : (s.limited bs.length).currentLimit ≠ maxValue := by
  obtain ⟨hnonneg, hpos, hsize, hshort⟩ := h.append_bounds hwf
  simp only [CodedInputStream.limited]
  omega

theorem Holds.popLimit (h : s.Holds (bs ++ bs')) (hwf : s.WF) (hframe : s'.frame = (s.limited bs.length).frame)
    (hend : s'.Holds [])
    : (s'.popLimit s.currentLimit).Holds bs' ∧ (s'.popLimit s.currentLimit).frame = s.frame := by
  obtain ⟨hnonneg, hpos, hsize, hshort⟩ := h.append_bounds hwf
  have hrest := h.advance
  have hwf' := (h.wf_limited hwf).of_frame hframe
  have hsize' := congrArg bufferSize hframe
  have hbuffer := congrArg buffer hframe
  have hretired := congrArg totalBytesRetired hframe
  have hdepth := congrArg recursionDepth hframe
  simp only [frame, CodedInputStream.limited] at hsize' hbuffer hretired hdepth
  have hend' : s'.bufferSize = s'.bufferPos := by simpa using hend.size
  have hlimit : 0 ≤ s.currentLimit ∧ min s.currentLimit s.buffer.length = s.bufferSize := by
    have hlength := hwf.length
    rcases hwf.limit with h | ⟨h, h'⟩ <;> rw [h] <;> omega
  have hpopped : s'.popLimit s.currentLimit = { s' with
      currentLimit := s.currentLimit, bufferSize := s.bufferSize, bufferSizeAfterLimit := s.bufferSizeAfterLimit } := by
    rw [CodedInputStream.popLimit, recomputeBufferSizeAfterLimit_eq (s := { s' with currentLimit := s.currentLimit })
      hwf'.retired hwf'.length hwf'.short hlimit.1]
    simp only [hbuffer, hlimit.2]
    congr 1
    have hlength := hwf.length
    omega
  have hframe' : (s'.popLimit s.currentLimit).frame = s.frame := by
    rw [hpopped]
    simp only [frame]
    rw [hbuffer, hretired, hdepth]
  refine ⟨hrest.congr ?_ hframe', hframe'⟩
  rw [hpopped]
  exact hend'.symm.trans hsize'

@[simp]
theorem hasNextTag_popLimit {limit : Int} : (s.popLimit limit).hasNextTag = s.hasNextTag := by
  rw [CodedInputStream.popLimit, recomputeBufferSizeAfterLimit]
  dsimp only
  split <;> rfl

theorem WF.reachedLimit_eq (hwf : s.WF) (h : s.Holds bs) (hlimit : s.currentLimit ≠ maxValue)
    : s.reachedLimit = decide (bs = []) := by
  have hnonneg := h.nonneg
  have hsize := h.size
  have hshort := hwf.short
  have hlength := hwf.length
  have hbounds := hwf.nonneg
  have heq : s.currentLimit = s.bufferSize := hwf.limit.resolve_right fun h => hlimit h.1
  rw [maxValue] at hshort
  rw [reachedLimit, if_neg hlimit, hwf.retired, Int.zero_add, int32_eq (by omega) (by omega), heq, hsize]
  apply decide_eq_decide.mpr
  rw [← List.length_eq_zero_iff]
  omega

theorem Holds.nextBytes (h : s.Holds (bs ++ bs')) (hwf : s.WF)
    : s.nextBytes bs.length = .ok (bs, s.advance bs.length) := by
  obtain ⟨hnonneg, hpos, hsize, -⟩ := h.append_bounds hwf
  obtain ⟨rest, hrest⟩ := h.drop
  rw [CodedInputStream.nextBytes, if_neg (by omega), ← hrest, Int.toNat_natCast, List.append_assoc, List.take_left]
  rfl

theorem Holds.skipRawBytes (h : s.Holds (bs ++ bs')) (hwf : s.WF)
    : s.skipRawBytes bs.length = .ok (s.advance bs.length) := by
  obtain ⟨hnonneg, hpos, hsize, hshort⟩ := h.append_bounds hwf
  have hlimit : ¬ s.bufferPos + bs.length > s.currentLimit := by
    rcases hwf.limit with h | ⟨h, -⟩ <;> rw [h] <;> omega
  rw [maxValue] at hshort
  have hend : int32 (s.bufferPos + bs.length) = s.bufferPos + bs.length := int32_eq (by omega) (by omega)
  have hleft : int32 (s.bufferSize - s.bufferPos) = s.bufferSize - s.bufferPos := int32_eq (by omega) (by omega)
  have htotal : s.totalBytesRetired + s.bufferPos + bs.length = s.bufferPos + bs.length := by
    rw [hwf.retired, Int.zero_add]
  rw [CodedInputStream.skipRawBytes, if_neg (by omega), htotal, hend, if_neg hlimit, hleft, if_pos (by omega)]
  rfl

theorem getString_nil {malformed : Malformed} : getString malformed [] = "" := rfl

theorem Holds.readString {malformed : Malformed} (h : s.Holds (Varint.write bs.length ++ (bs ++ bs')))
    (hwf : s.WF) (hlength : bs.length < 2 ^ 31)
    : s.readString malformed
      = .ok (getString malformed bs, s.advance ((Varint.write bs.length).length + bs.length)) := by
  obtain ⟨length, hread, hlength'⟩ := h.readLength hlength
  have hs := h.advance
  have hwf' : (s.advance (Varint.write bs.length).length).WF := hwf.of_frame rfl
  have hnext := hs.nextBytes hwf'
  obtain ⟨hnonneg, hpos, hsize, hshort⟩ := hs.append_bounds hwf'
  rw [maxValue] at hshort
  simp only [CodedInputStream.readString, hread, ok_bind]
  split
  case isTrue h0 =>
    have hnil : bs = [] := by
      rw [h0] at hlength'
      exact List.length_eq_zero_iff.mp (Int.ofNat_eq_zero.mp hlength'.symm)
    rw [hnil, getString_nil, List.length_nil, Int.natCast_zero, Int.add_zero]
    rfl
  case isFalse =>
    rw [int32_eq (by omega) (by omega), if_pos (by omega), hlength', hnext, ok_bind, advance_advance]
    rfl

theorem Holds.readRawLittleEndian (h : s.Holds (bs ++ bs'))
    : s.readRawLittleEndian bs.length = .ok (bs, s.advance bs.length) := by
  induction bs generalizing s with
  | nil =>
    rw [List.length_nil, CodedInputStream.readRawLittleEndian, pure_eq, Int.natCast_zero, advance_zero]
  | cons b bs ih =>
    simp only [CodedInputStream.readRawLittleEndian, List.length_cons, h.readRawByte, ok_bind, ih h.tail,
      advance_advance, Int.natCast_add, Int.add_comm (bs.length : Int)]
    rfl

theorem getTagWireType_eq : WireFormat.getTagWireType t = .ofNat (t.toNat % 8) := by
  have h : t.toNat &&& 7 = t.toNat % 8 := Nat.and_two_pow_sub_one_eq_mod t.toNat 3
  apply UInt32.toNat_inj.mp
  rw [WireFormat.getTagWireType, UInt32.toNat_and, toNat_ofNat_tag (by omega), ← h]
  rfl

theorem getTagWireType_ofNat (r : Wire.Record)
    : WireFormat.getTagWireType (.ofNat r.tag) = .ofNat r.payload.wireType := by
  rw [getTagWireType_eq, toNat_ofNat_tag r.tag_lt, r.tag_mod]

theorem Holds.skipLastField {r : Wire.Record} {fuel : Nat} (h : s.Holds (r.payload.encode ++ bs)) (hwf : s.WF)
    (hlast : s.lastTag = .ofNat r.tag)
    : ∃ s', skipLastField (fuel + 1) s = .ok s' ∧ s'.Holds bs ∧ s'.frame = s.frame
        ∧ s'.hasNextTag = s.hasNextTag := by
  have hne : ¬ UInt32.ofNat r.tag = 0 := ofNat_tag_ne_zero r.tag_lt (by have := r.le_tag; omega)
  rw [CodedInputStream.skipLastField, hlast, if_neg hne]
  simp only [getTagWireType_ofNat]
  generalize r.payload = payload at h ⊢
  cases payload with
  | varint v =>
    refine ⟨_, ?_, h.advance, rfl, rfl⟩
    exact congrArg (· >>= fun p => pure p.2) (h.readRawVarint32 v.toNat_lt)
  | fixed64 v =>
    have hlength : (Wire.Payload.fixed64 v).encode.length = 8 := Bytes.length_littleEndian
    have hread := h.readRawLittleEndian
    have hs := h.advance
    rw [hlength] at hread hs
    refine ⟨_, ?_, hs, rfl, rfl⟩
    show (CodedInputStream.readRawLittleEndian 8 s >>= fun p => pure p.2) = _
    rw [hread]
    rfl
  | bytes content hlength =>
    rw [Wire.Payload.encode, List.append_assoc] at h
    obtain ⟨length, hread, hlength'⟩ := h.readLength hlength
    refine ⟨_, ?_, h.advance.advance, rfl, rfl⟩
    show (s.readLength >>= fun p => CodedInputStream.skipRawBytes p.2 p.1.toInt) = _
    rw [hread, ok_bind, hlength']
    exact h.advance.skipRawBytes (hwf.of_frame rfl)
  | fixed32 v =>
    have hlength : (Wire.Payload.fixed32 v).encode.length = 4 := Bytes.length_littleEndian
    have hread := h.readRawLittleEndian
    have hs := h.advance
    rw [hlength] at hread hs
    refine ⟨_, ?_, hs, rfl, rfl⟩
    show (CodedInputStream.readRawLittleEndian 4 s >>= fun p => pure p.2) = _
    rw [hread]
    rfl

end WzGame.Protobuf.CodedInputStream
