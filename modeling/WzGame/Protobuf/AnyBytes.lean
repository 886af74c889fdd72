import WzGame.Protobuf.FastPaths

/-!
This module contains what a stream does on bytes that nobody has written: it reads on or throws. A limit may have
overflown here, and then is negative.
-/

namespace WzGame.Protobuf

open Except (Outcome)

-- the exceptions that the bytes of a message can cause
inductive Exception.Raised : Exception → Prop where
  | truncatedMessage : Raised .truncatedMessage
  | negativeSize : Raised .negativeSize
  | malformedVarint : Raised .malformedVarint
  | invalidTag : Raised .invalidTag
  | recursionLimitExceeded : Raised .recursionLimitExceeded
  | endGroupTag : Raised .endGroupTag
  | mismatchedEndGroup {startField endField : Int32} : Raised (.mismatchedEndGroup startField endField)
  | indexOutOfRange : Raised .indexOutOfRange
  | argumentOutOfRange : Raised .argumentOutOfRange

namespace CodedInputStream

open Exception (Raised)

-- How far bytes are read. Where the limit has overflown this is the end of the array.
def stop (s : CodedInputStream) : Int := if s.currentLimit < 0 then s.buffer.length else s.bufferSize

structure Limits (s : CodedInputStream) : Prop where
  retired : s.totalBytesRetired = 0
  short : s.buffer.length < maxValue
  range : -2147483648 ≤ s.currentLimit ∧ s.currentLimit ≤ maxValue
  size : s.bufferSize = min s.currentLimit s.buffer.length
  after : s.bufferSizeAfterLimit = int32 (s.buffer.length - s.bufferSize)

-- the bytes that are left in the array, none where the position has overflown
def left (s : CodedInputStream) : Nat := if s.bufferPos < 0 then 0 else (s.buffer.length - s.bufferPos).toNat

structure Sound (s : CodedInputStream) : Prop where
  limits : s.Limits
  le : s.bufferPos ≤ s.stop
  -- a limit that has overflown is so far away that the number of bytes up to it overflows as well
  beyond : s.currentLimit < 0 → 0 ≤ s.bufferPos → s.currentLimit + 2147483648 < s.bufferPos
  next : s.hasNextTag = false

structure Stays (s s' : CodedInputStream) : Prop where
  frame : s'.frame = s.frame
  left_le : s'.left ≤ s.left
  sound : s'.Sound

structure Reads (s s' : CodedInputStream) : Prop where
  stays : s.Stays s'
  left_lt : s'.left < s.left

structure Takes (s s' : CodedInputStream) : Prop extends Reads s s' where
  pos : 0 < s'.bufferPos

variable {s s' s'' : CodedInputStream} {α : Type}

theorem Limits.of_frame (h : s.Limits) (hframe : s'.frame = s.frame) : s'.Limits := by
  have hbuffer := congrArg buffer hframe
  have hsize := congrArg bufferSize hframe
  have hafter := congrArg bufferSizeAfterLimit hframe
  have hretired := congrArg totalBytesRetired hframe
  have hlimit := congrArg currentLimit hframe
  simp only [frame] at hbuffer hsize hafter hretired hlimit
  obtain ⟨h₁, h₂, h₃, h₄, h₅⟩ := h
  rw [← hretired] at h₁
  rw [← hbuffer] at h₂
  rw [← hlimit] at h₃
  rw [← hsize, ← hlimit, ← hbuffer] at h₄
  rw [← hsize, ← hafter, ← hbuffer] at h₅
  exact ⟨h₁, h₂, h₃, h₄, h₅⟩

theorem stop_of_frame (hframe : s'.frame = s.frame) : s'.stop = s.stop :=
  have h := congrArg stop hframe
  h

theorem buffer_of_frame (hframe : s'.frame = s.frame) : s'.buffer = s.buffer :=
  have h := congrArg buffer hframe
  h

theorem totalBytesRetired_of_frame (hframe : s'.frame = s.frame) : s'.totalBytesRetired = s.totalBytesRetired :=
  have h := congrArg totalBytesRetired hframe
  h

theorem Limits.stop_le (h : s.Limits) : s.stop ≤ s.buffer.length := by
  have hsize := h.size
  rw [stop]
  split <;> omega

theorem Limits.stop_nonneg (h : s.Limits) : 0 ≤ s.stop := by
  have hsize := h.size
  rw [stop]
  split <;> omega

theorem Stays.refl (h : s.Sound) : s.Stays s := ⟨rfl, Nat.le_refl _, h⟩

theorem Stays.trans (h : s.Stays s') (h' : s'.Stays s'') : s.Stays s'' :=
  ⟨h'.frame.trans h.frame, Nat.le_trans h'.left_le h.left_le, h'.sound⟩

theorem Reads.trans (h : s.Reads s') (h' : s'.Reads s'') : s.Reads s'' :=
  ⟨h.stays.trans h'.stays, Nat.lt_trans h'.left_lt h.left_lt⟩

theorem Reads.stay (h : s.Reads s') (h' : s'.Stays s'') : s.Reads s'' :=
  ⟨h.stays.trans h', Nat.lt_of_le_of_lt h'.left_le h.left_lt⟩

theorem Sound.congr (h : s.Sound) (hframe : s'.frame = s.frame) (hpos : s'.bufferPos = s.bufferPos)
    (hnext : s'.hasNextTag = false)
    : s'.Sound := by
  refine ⟨h.limits.of_frame hframe, ?_, ?_, hnext⟩
  . rw [hpos, stop_of_frame hframe]
    exact h.le
  . rw [hpos, currentLimit_of_frame hframe]
    exact h.beyond

theorem left_congr (hframe : s'.frame = s.frame) (hpos : s'.bufferPos = s.bufferPos) : s'.left = s.left := by
  rw [left, left, hpos, buffer_of_frame hframe]

theorem Stays.congr (h : s.Stays s') (hframe : s''.frame = s'.frame) (hpos : s''.bufferPos = s'.bufferPos)
    (hnext : s''.hasNextTag = false)
    : s.Stays s'' := by
  refine ⟨hframe.trans h.frame, ?_, h.sound.congr hframe hpos hnext⟩
  rw [left_congr hframe hpos]
  exact h.left_le

theorem Reads.congr (h : s.Reads s') (hframe : s''.frame = s'.frame) (hpos : s''.bufferPos = s'.bufferPos)
    (hnext : s''.hasNextTag = false)
    : s.Reads s'' := by
  refine ⟨h.stays.congr hframe hpos hnext, ?_⟩
  rw [left_congr hframe hpos]
  exact h.left_lt

theorem Takes.trans (h : s.Takes s') (h' : s'.Takes s'') : s.Takes s'' :=
  ⟨h.toReads.trans h'.toReads, h'.pos⟩

theorem left_le_length : s.left ≤ s.buffer.length := by
  rw [left]
  split <;> omega

theorem left_of_nonneg (h : 0 ≤ s.bufferPos) : s.left = (s.buffer.length - s.bufferPos).toNat := by
  rw [left, if_neg (by omega)]

theorem left_of_neg (h : s.bufferPos < 0) : s.left = 0 := by
  rw [left, if_pos h]

theorem Sound.advance (h : s.Sound) (hnonneg : 0 ≤ s.bufferPos) {n : Int} (hn : 0 ≤ n)
    (hle : s.bufferPos + n ≤ s.stop)
    : s.Stays (s.advance n) := by
  have hover := h.beyond
  have hpos : (s.advance n).bufferPos = s.bufferPos + n := rfl
  have hlimit : (s.advance n).currentLimit = s.currentLimit := rfl
  refine ⟨rfl, ?_, h.limits.of_frame rfl, hle, fun hneg _ => ?_, h.next⟩
  . rw [left_of_nonneg hnonneg, left_of_nonneg (by omega), hpos]
    show ((s.buffer.length : Int) - (s.bufferPos + n)).toNat ≤ _
    omega
  . have hlt := hover (hlimit ▸ hneg) hnonneg
    omega

theorem Sound.lost (h : s.Sound) {pos : Int} (hpos : pos < 0) : s.Stays { s with bufferPos := pos } := by
  refine ⟨rfl, ?_, h.limits.of_frame rfl, ?_, fun _ hnonneg => ?_, h.next⟩
  . rw [left_of_neg hpos]
    exact Nat.zero_le _
  . exact Int.le_trans (Int.le_of_lt hpos) h.limits.stop_nonneg
  . exact absurd hnonneg (Int.not_le.mpr hpos)

theorem Sound.readRawByte (h : s.Sound) : Outcome Raised (fun p => s.Takes p.2) s.readRawByte := by
  have hle := h.le
  have hsize := h.limits.size
  rw [CodedInputStream.readRawByte]
  split
  . rw [refillBuffer, if_neg (by omega)]
    simp only [if_true]
    split <;> exact .error .truncatedMessage
  . rw [nextByte]
    split
    . exact .error .indexOutOfRange
    next hnonneg =>
    split
    . exact .error .indexOutOfRange
    . next b hget =>
      have hlt : s.bufferPos.toNat < s.buffer.length := (List.getElem?_eq_some_iff.mp hget).1
      have hstop : s.bufferPos + 1 ≤ s.stop := by
        rw [stop] at hle ⊢
        split at hle <;> omega
      have hpos : 0 < (s.advance 1).bufferPos := by
        show 0 < s.bufferPos + 1
        omega
      refine ⟨⟨h.advance (by omega) (by decide) hstop, ?_⟩, hpos⟩
      rw [left_of_nonneg (Int.le_of_lt hpos), left_of_nonneg (by omega)]
      show ((s.buffer.length : Int) - (s.bufferPos + 1)).toNat < _
      omega

theorem Takes.then {x : Except Exception (α × CodedInputStream)} (h : s.Takes s')
    (hx : Outcome Raised (fun p => s'.Takes p.2) x) : Outcome Raised (fun p => s.Takes p.2) x :=
  hx.imp fun _ h' => h.trans h'

theorem Sound.discard {result : UInt32} {i : Nat} (h : s.Sound)
    : Outcome Raised (fun p => s.Takes p.2) (discard result i s) := by
  induction i generalizing s with
  | zero => exact .error .malformedVarint
  | succ i ih =>
    refine h.readRawByte.bind fun p hs => ?_
    obtain ⟨b, s'⟩ := p
    dsimp only
    split
    . exact hs
    . exact hs.then (ih hs.stays.sound)

theorem Sound.readRawVarint32 (h : s.Sound) : Outcome Raised (fun p => s.Takes p.2) s.readRawVarint32 := by
  rw [readRawVarint32_eq, slowReadRawVarint32, readVarint32]
  refine h.readRawByte.bind fun p h₁ => ?_
  obtain ⟨b, s₁⟩ := p
  dsimp only
  split
  . exact h₁
  refine h₁.then (h₁.stays.sound.readRawByte.bind fun p h₂ => ?_)
  obtain ⟨b, s₂⟩ := p
  dsimp only
  split
  . exact h₂
  refine h₂.then (h₂.stays.sound.readRawByte.bind fun p h₃ => ?_)
  obtain ⟨b, s₃⟩ := p
  dsimp only
  split
  . exact h₃
  refine h₃.then (h₃.stays.sound.readRawByte.bind fun p h₄ => ?_)
  obtain ⟨b, s₄⟩ := p
  dsimp only
  split
  . exact h₄
  refine h₄.then (h₄.stays.sound.readRawByte.bind fun p h₅ => ?_)
  obtain ⟨b, s₅⟩ := p
  dsimp only
  split
  . exact h₅
  . exact h₅.then h₅.stays.sound.discard

theorem Sound.readVarint64 {shift : Nat} {result : UInt64} (h : s.Sound)
    : Outcome Raised (fun p => s.Takes p.2) (readVarint64 shift result s) := by
  fun_induction CodedInputStream.readVarint64 shift result s with
  | case1 shift result s _ ih =>
    refine h.readRawByte.bind fun p hs => ?_
    obtain ⟨b, s'⟩ := p
    dsimp only
    split
    . exact hs
    . exact hs.then (ih _ _ hs.stays.sound)
  | case2 => exact .error .malformedVarint

theorem Sound.readInt32 (h : s.Sound) : Outcome Raised (fun p => s.Takes p.2) s.readInt32 :=
  h.readRawVarint32.bind fun _ hs => hs

theorem Sound.readInt64 (h : s.Sound) : Outcome Raised (fun p => s.Takes p.2) s.readInt64 :=
  h.readVarint64.bind fun _ hs => hs

theorem Sound.readLength (h : s.Sound) : Outcome Raised (fun p => s.Takes p.2) s.readLength := h.readInt32

theorem Sound.readRawLittleEndian {n : Nat} (h : s.Sound)
    : Outcome Raised (fun p => s.Stays p.2) (readRawLittleEndian n s) := by
  induction n generalizing s with
  | zero => exact .refl h
  | succ n ih =>
    refine h.readRawByte.bind fun p h₁ => (ih h₁.stays.sound).bind fun q h₂ => ?_
    exact h₁.stays.trans h₂

theorem int32_of_lt {i : Int} (hmin : -6442450944 ≤ i) (hmax : i < -2147483648) : int32 i = i + 4294967296 :=
  (Int.bmod_eq_iff (by decide)).mpr ⟨by omega, by omega, by omega⟩

theorem int32_of_le {i : Int} (hmin : 2147483648 ≤ i) (hmax : i < 6442450944) : int32 i = i - 4294967296 :=
  (Int.bmod_eq_iff (by decide)).mpr ⟨by omega, by omega, by omega⟩

theorem Sound.distance (h : s.Sound) (hpos : 0 ≤ s.bufferPos)
    : 0 ≤ s.currentLimit ∧ int32 (s.bufferSize - s.bufferPos) = s.bufferSize - s.bufferPos
        ∧ s.bufferPos ≤ s.bufferSize ∧ s.bufferSize ≤ s.currentLimit ∧ s.bufferSize ≤ s.buffer.length
      ∨ s.currentLimit < 0 ∧ s.stop = s.buffer.length
        ∧ int32 (s.bufferSize - s.bufferPos) = s.currentLimit - s.bufferPos + 4294967296
        ∧ s.currentLimit + 2147483648 < s.bufferPos := by
  have hle := h.le
  have hsize := h.limits.size
  have hshort := h.limits.short
  obtain ⟨hmin, hmax⟩ := h.limits.range
  rw [maxValue] at hshort hmax
  rcases Int.lt_or_le s.currentLimit 0 with hneg | hlimit
  . have hover := h.beyond hneg hpos
    rw [stop, if_pos hneg] at hle
    refine .inr ⟨hneg, by rw [stop, if_pos hneg], ?_, hover⟩
    rw [int32_of_lt (by omega) (by omega)]
    omega
  . rw [stop, if_neg (by omega)] at hle
    exact .inl ⟨hlimit, int32_eq (by omega) (by omega), hle, by omega, by omega⟩

theorem Sound.nextBytes {count : Int} (h : s.Sound) (hpos : 0 ≤ s.bufferPos)
    (hcount : count ≤ int32 (s.bufferSize - s.bufferPos))
    : Outcome Raised (fun p => s.Stays p.2) (s.nextBytes count) := by
  rw [CodedInputStream.nextBytes]
  split
  . exact .error .argumentOutOfRange
  . refine h.advance hpos (by omega) ?_
    rcases h.distance hpos with ⟨hlimit, hleft, -⟩ | ⟨-, hstop, -⟩
    . rw [stop, if_neg (by omega)]
      omega
    . omega

theorem Sound.readRawBytes {size : Int} (h : s.Sound) (hpos : 0 < s.bufferPos) (hmax : size ≤ maxValue)
    (hsize : ¬ size ≤ int32 (s.bufferSize - s.bufferPos))
    : Outcome Raised (fun p => s.Stays p.2) (s.readRawBytes size) := by
  have hretired := h.limits.retired
  have hshort := h.limits.short
  rw [maxValue] at hmax hshort
  rw [CodedInputStream.readRawBytes]
  split
  . exact .error .negativeSize
  split
  . split
    . exact .error .negativeSize
    . exact .error .truncatedMessage
  next hlimit =>
  rw [hretired, Int.zero_add] at hlimit
  dsimp only
  rw [if_neg hsize]
  have hstop := h.le
  rcases h.distance (Int.le_of_lt hpos) with ⟨-, hleft, hle, -, hlength⟩ | ⟨hneg, hend, hleft, -⟩
  . rw [hleft] at hsize ⊢
    split
    . refine Outcome.bind (P := fun _ => True) ?_ fun _ _ => .error .truncatedMessage
      rw [byteArrayCopy]
      dsimp only
      split
      . rw [if_neg (by omega), if_neg (by omega)]
        trivial
      . split
        . trivial
        split
        . exact .error .indexOutOfRange
        . trivial
    . rw [int32_eq (by omega) (by omega), if_pos (by omega), if_neg]
      . exact .error .truncatedMessage
      . intro hempty
        rw [hempty, List.length_nil] at hlength
        omega
  . -- in front of a limit that has overflown the sum is always behind it
    have hmin := h.limits.range.1
    rw [hend] at hstop
    rw [int32_of_le (by omega) (by omega)] at hlimit
    omega

theorem Sound.skipRawBytes {size : Int} (h : s.Sound) (hpos : 0 ≤ s.bufferPos)
    : Outcome Raised s.Stays (s.skipRawBytes size) := by
  have hretired := h.limits.retired
  have hshort := h.limits.short
  rw [maxValue] at hshort
  rw [CodedInputStream.skipRawBytes]
  split
  . exact .error .negativeSize
  split
  . split
    . exact .error .negativeSize
    . exact .error .truncatedMessage
  next hlimit =>
  rw [hretired, Int.zero_add] at hlimit
  split
  . next hsize =>
    rcases h.distance hpos with ⟨hnonneg, hleft, hle, -, hlength⟩ | ⟨hneg, -⟩
    . rw [int32_eq (by omega) (by omega)]
      refine h.advance hpos (by omega) ?_
      rw [stop, if_neg (by omega)]
      omega
    . exact h.lost (by omega)
  . exact .error .truncatedMessage

theorem toInt_le_maxValue (length : Int32) : length.toInt ≤ maxValue := Int.le_trans length.toInt_le (by decide)

theorem Sound.readString {malformed : Malformed} (h : s.Sound)
    : Outcome Raised (fun p => s.Reads p.2) (s.readString malformed) := by
  refine h.readLength.bind fun p h₁ => ?_
  obtain ⟨length, s₁⟩ := p
  have hs₁ := h₁.stays.sound
  dsimp only
  split
  . exact h₁.toReads
  split
  . next hsize => exact (hs₁.nextBytes (Int.le_of_lt h₁.pos) hsize).bind fun _ h₂ => h₁.stay h₂
  . next hsize => exact (hs₁.readRawBytes h₁.pos (toInt_le_maxValue length) hsize).bind fun _ h₂ => h₁.stay h₂

def Ended (s s' : CodedInputStream) : Prop :=
  s'.reachedLimit = true → (0 ≤ s.currentLimit ∨ s'.bufferPos < 0) ∧ s.Stays { s' with hasNextTag := false }

inductive Tagged (s : CodedInputStream) : UInt32 × CodedInputStream → Prop where
  | tag {tag : UInt32} {s' : CodedInputStream} (hne : tag ≠ 0) (hlast : s'.lastTag = tag) (h : s.Reads s')
    : Tagged s (tag, s')
  | ended {s' : CodedInputStream} (hlast : s'.lastTag = 0) (hnext : s'.hasNextTag = false) (h : s.Ended s')
    : Tagged s (0, s')

theorem Sound.setLastTag {tag : UInt32} (h : s.Reads s') : Outcome Raised s.Tagged (s'.setLastTag tag) := by
  rw [CodedInputStream.setLastTag]
  split
  . exact .error .invalidTag
  . next hne => exact .tag hne rfl (h.congr rfl rfl h.stays.sound.next)

theorem Sound.readTag (h : s.Sound) : Outcome Raised s.Tagged s.readTag := by
  rw [readTag_eq, slowReadTag, h.next, if_neg Bool.false_ne_true, isAtEnd]
  simp only [← readRawVarint32_eq]
  split
  . next hend =>
    rw [refillBuffer, if_neg (by omega)]
    simp only [Bool.false_eq_true, if_false]
    have hlimits := h.limits
    have hstays : s.Stays { s with lastTag := 0, hasNextTag := false } := (Stays.refl h).congr rfl rfl rfl
    split
    . refine .ended rfl h.next fun _ => ⟨?_, hstays⟩
      have hsize := hlimits.size
      show 0 ≤ s.currentLimit ∨ s.bufferPos < 0
      omega
    . next hlimit =>
      refine .ended rfl h.next fun hreached => absurd hreached ?_
      have hshort := hlimits.short
      have hsize := hlimits.size
      have hrange := hlimits.range
      rw [maxValue] at hshort hrange
      rw [hlimits.retired, Int.zero_add, int32_eq (by omega) (by omega)] at hlimit
      simp only [reachedLimit, hlimits.retired, Int.zero_add, Int.add_zero,
        int32_eq (show -2147483648 ≤ s.bufferSize by omega) (by omega)]
      split
      . exact Bool.false_ne_true
      . rw [decide_eq_true_eq]
        omega
  . exact h.readRawVarint32.bind fun _ hs => Sound.setLastTag hs.toReads

theorem Stays.ended (h : s.Stays s') (h' : s'.Ended s'') : s.Ended s'' := by
  intro hreached
  obtain ⟨hlimit, hstays⟩ := h' hreached
  exact ⟨currentLimit_of_frame h.frame ▸ hlimit, h.trans hstays⟩

theorem Ended.congr (h : s.Ended s') (hframe : s''.frame = s'.frame) (hpos : s''.bufferPos = s'.bufferPos)
    : s.Ended s'' := by
  intro hreached
  have hreached' : s'.reachedLimit = true := by
    rwa [reachedLimit, currentLimit_of_frame hframe, hpos, totalBytesRetired_of_frame hframe] at hreached
  obtain ⟨hlimit, hstays⟩ := h hreached'
  exact ⟨hpos ▸ hlimit, hstays.congr hframe hpos rfl⟩

inductive Peeks (s : CodedInputStream) : Bool × CodedInputStream → Prop where
  | consumed {s' : CodedInputStream} (h : s.Reads s') : Peeks s (true, s')
  | held {s' : CodedInputStream} (hnext : s'.hasNextTag = true) (hne : s'.nextTag ≠ 0)
    (h : s.Reads { s' with hasNextTag := false }) : Peeks s (false, s')
  | ended {s' : CodedInputStream} (hnext : s'.hasNextTag = true) (hzero : s'.nextTag = 0) (h : s.Ended s')
    : Peeks s (false, s')

theorem Sound.maybeConsumeTag {tag : UInt32} (h : s.Sound) (htag : tag ≠ 0)
    : Outcome Raised s.Peeks (s.maybeConsumeTag tag) := by
  rw [CodedInputStream.maybeConsumeTag, peekTag, if_neg (by rw [h.next]; exact Bool.false_ne_true)]
  rcases hread : s.readTag with e | ⟨t, s'⟩
  . have hthrown := h.readTag
    rw [hread] at hthrown
    exact hthrown
  have htagged := h.readTag
  rw [hread] at htagged
  simp only [ok_bind, pure_eq]
  cases htagged with
  | tag hne hlast h' =>
    have hreads {next last : UInt32} : s.Reads { s' with nextTag := next, lastTag := last, hasNextTag := false } :=
      h'.congr rfl rfl rfl
    split
    . exact .consumed hreads
    . exact .held rfl hne hreads
  | ended hlast hnext h' =>
    rw [if_neg (Ne.symm htag)]
    exact .ended rfl rfl (h'.congr rfl rfl)

theorem int32_sub_int32 {i j : Int} (hj : -2147483648 ≤ j) (hj' : j < 2147483648) : int32 (i - int32 (i - j)) = j := by
  have h : int32 (i - int32 (i - j)) = int32 (i - (i - j)) := Int.sub_bmod_bmod
  rw [h, Int.sub_sub_self, int32_eq hj hj']

theorem int32_add_int32 {i j : Int} (hi : -2147483648 ≤ i) (hi' : i < 2147483648) : int32 (j + int32 (i - j)) = i := by
  have h : int32 (j + int32 (i - j)) = int32 (j + (i - j)) := Int.add_bmod_bmod
  rw [h, Int.add_comm, Int.sub_add_cancel, int32_eq hi hi']

def atLimit (s : CodedInputStream) (limit : Int) : CodedInputStream :=
  { s with
    currentLimit := limit
    bufferSize := min limit s.buffer.length
    bufferSizeAfterLimit := int32 (s.buffer.length - min limit s.buffer.length) }

theorem Limits.popLimit {limit : Int} (h : s.Limits) (hmin : -2147483648 ≤ limit) (hmax : limit ≤ maxValue)
    : s.popLimit limit = s.atLimit limit := by
  have hshort := h.short
  rw [maxValue] at hshort hmax
  have hwhole : int32 (s.bufferSize + s.bufferSizeAfterLimit) = s.buffer.length := by
    rw [h.after, int32_add_int32 (by omega) (by omega)]
  have hlength : int32 s.buffer.length = s.buffer.length := int32_eq (by omega) (by omega)
  simp only [CodedInputStream.popLimit, recomputeBufferSizeAfterLimit, hwhole, h.retired, Int.zero_add, hlength,
    atLimit]
  split
  . rw [int32_sub_int32 hmin (by omega), Int.min_eq_left (by omega)]
  . rw [Int.min_eq_right (by omega), Int.sub_self]
    rfl

theorem Limits.atLimit {limit : Int} (h : s.Limits) (hmin : -2147483648 ≤ limit) (hmax : limit ≤ maxValue)
    : (s.atLimit limit).Limits :=
  ⟨h.retired, h.short, ⟨hmin, hmax⟩, rfl, rfl⟩

theorem int32_bounds {i : Int} : -2147483648 ≤ int32 i ∧ int32 i ≤ maxValue := by
  have hmin : -(((2 ^ 32 : Nat) : Int) / 2) ≤ int32 i := Int.le_bmod (by decide)
  have hmax : int32 i < (((2 ^ 32 : Nat) : Int) + 1) / 2 := Int.bmod_lt (by decide)
  rw [maxValue]
  omega

theorem int32_add {i j : Int} (hi : 0 ≤ i) (hi' : i ≤ maxValue) (hj : 0 ≤ j) (hj' : j ≤ maxValue)
    : int32 (i + j) = i + j ∨ int32 (i + j) = i + j - 4294967296 := by
  rw [maxValue] at hi' hj'
  rcases Int.lt_or_le (i + j) 2147483648 with h | h
  . exact .inl (int32_eq (by omega) h)
  . exact .inr (int32_of_le h (by omega))

theorem Sound.pushLimit {n : Int} (h : s.Sound) (hnonneg : 0 ≤ s.bufferPos) (hn : n ≤ maxValue)
    : Outcome Raised (fun p => p.1 = s.currentLimit ∧ ∃ limit ≤ s.currentLimit,
        p.2 = s.atLimit limit ∧ (s.atLimit limit).Sound) (s.pushLimit n) := by
  rw [CodedInputStream.pushLimit]
  split
  . exact .error .negativeSize
  dsimp only
  split
  . exact .error .truncatedMessage
  next hsize hle =>
  have hlimits := h.limits
  have hstop := Int.le_trans h.le hlimits.stop_le
  have hshort := hlimits.short
  have hpos : int32 (s.totalBytesRetired + s.bufferPos) = s.bufferPos := by
    rw [maxValue] at hshort
    rw [hlimits.retired, Int.zero_add, int32_eq (by omega) (by omega)]
  have hbounds := int32_bounds (i := n + int32 (s.totalBytesRetired + s.bufferPos))
  have hadd := int32_add (Int.not_lt.mp hsize) hn hnonneg (by omega)
  rw [maxValue] at hn hshort
  refine .ok ⟨rfl, _, Int.not_lt.mp hle, hlimits.popLimit hbounds.1 hbounds.2,
    hlimits.atLimit hbounds.1 hbounds.2, ?_, ?_, h.next⟩
  . rw [hpos]
    show s.bufferPos ≤ if int32 (n + s.bufferPos) < 0 then (s.buffer.length : Int)
      else min (int32 (n + s.bufferPos)) s.buffer.length
    split <;> omega
  . rw [hpos]
    show int32 (n + s.bufferPos) < 0 → 0 ≤ s.bufferPos → int32 (n + s.bufferPos) + 2147483648 < s.bufferPos
    omega

theorem Sound.pushLimit_of_overflow {n : Int} (h : s.Sound) (hlimit : 0 ≤ s.currentLimit) (hnonneg : 0 ≤ s.bufferPos)
    (hn : n ≤ maxValue) (hover : maxValue < n + s.bufferPos)
    : s.pushLimit n = .ok (s.currentLimit, s.atLimit (n + s.bufferPos - 4294967296)) := by
  have hlimits := h.limits
  have hstop := Int.le_trans h.le hlimits.stop_le
  have hshort := hlimits.short
  rw [maxValue] at hn hshort hover
  have hpos : int32 (s.totalBytesRetired + s.bufferPos) = s.bufferPos := by
    rw [hlimits.retired, Int.zero_add, int32_eq (by omega) (by omega)]
  have hsum : int32 (n + s.bufferPos) = n + s.bufferPos - 4294967296 := int32_of_le (by omega) (by omega)
  have hbounds := @int32_bounds (n + s.bufferPos)
  rw [hsum] at hbounds
  rw [CodedInputStream.pushLimit, if_neg (by omega)]
  simp only [hpos, hsum]
  rw [if_neg (by omega), ← hlimits.popLimit hbounds.1 hbounds.2]
  rfl

theorem Limits.atLimit_self (h : s.Limits) : s.atLimit s.currentLimit = s := by
  rw [CodedInputStream.atLimit, ← h.size, ← h.after]

theorem Sound.popLimit {limit : Int} (h : s.Sound) (hle : limit ≤ s.currentLimit)
    (hs : (s.atLimit limit).Stays s') (hlimit : (0 ≤ limit ∨ s'.bufferPos < 0) ∨ s' = s.atLimit limit)
    : s.Stays (s'.popLimit s.currentLimit) := by
  have hrange := h.limits.range
  have hsound := hs.sound
  rw [hsound.limits.popLimit hrange.1 hrange.2]
  have hframe : (s'.atLimit s.currentLimit).frame = s.frame := by
    have hsame := congrArg (·.atLimit s.currentLimit) hs.frame
    refine Eq.trans ?_ ((hsame.trans ?_).trans (congrArg frame h.limits.atLimit_self))
    . rfl
    . rfl
  have hpos : (s'.atLimit s.currentLimit).bufferPos = s'.bufferPos := rfl
  have hleft : (s'.atLimit s.currentLimit).left = s'.left := rfl
  refine ⟨hframe, hleft ▸ hs.left_le, h.limits.of_frame hframe, ?_, ?_, hsound.next⟩
  . rw [hpos, stop_of_frame hframe]
    rcases hlimit with (hnonneg | hneg) | rfl
    . have hstop := hsound.le
      have hsize := h.limits.size
      rw [stop_of_frame hs.frame] at hstop
      simp only [stop, atLimit] at hstop ⊢
      rw [if_neg (by omega)]
      omega
    . exact Int.le_trans (Int.le_of_lt hneg) h.limits.stop_nonneg
    . exact h.le
  . rw [hpos, currentLimit_of_frame hframe]
    intro hover hnonneg
    rcases hlimit with (hlimit | hneg) | rfl
    . omega
    . omega
    . exact h.beyond hover hnonneg

theorem Sound.deeper {depth : Nat} (h : s.Sound) : Sound { s with recursionDepth := depth } :=
  have hlimits := h.limits
  ⟨⟨hlimits.retired, hlimits.short, hlimits.range, hlimits.size, hlimits.after⟩, h.le, h.beyond, h.next⟩

theorem Stays.back {depth : Nat} (h : Stays { s with recursionDepth := depth } s')
    : Stays s { s' with recursionDepth := s.recursionDepth } :=
  have hframe := congrArg (fun s' : CodedInputStream => { s' with recursionDepth := s.recursionDepth }) h.frame
  ⟨hframe, h.left_le, h.sound.deeper⟩

theorem Sound.skip {fuel : Nat}
    : (∀ s : CodedInputStream, s.Sound → s.lastTag ≠ 0 → 3 * s.left + 3 ≤ fuel →
        Outcome Raised s.Stays (skipLastField fuel s))
      ∧ (∀ (s : CodedInputStream) (startGroupTag : UInt32), s.Sound → 3 * s.left + 2 ≤ fuel →
        Outcome Raised s.Stays (skipGroup fuel s startGroupTag))
      ∧ ∀ s : CodedInputStream, s.Sound → 3 * s.left + 1 ≤ fuel →
        Outcome Raised (fun p => s.Stays p.2) (skipFields fuel s) := by
  induction fuel with
  | zero =>
    exact ⟨fun _ _ _ h => absurd h (by omega), fun _ _ _ h => absurd h (by omega), fun _ _ h => absurd h (by omega)⟩
  | succ fuel ih =>
    obtain ⟨ihField, ihGroup, ihFields⟩ := ih
    refine ⟨fun s h hlast hfuel => ?_, fun s startGroupTag h hfuel => ?_, fun s h hfuel => ?_⟩
    . rw [skipLastField, if_neg hlast]
      dsimp only
      split
      . exact ihGroup s _ h (by omega)
      split
      . exact .error .endGroupTag
      split
      . exact h.readRawLittleEndian.bind fun _ hs => hs
      split
      . exact h.readRawLittleEndian.bind fun _ hs => hs
      split
      . refine h.readLength.bind fun p hs => ?_
        obtain ⟨length, s'⟩ := p
        exact (hs.stays.sound.skipRawBytes (Int.le_of_lt hs.pos)).imp fun _ hs' => hs.stays.trans hs'
      split
      . exact h.readRawVarint32.bind fun _ hs => hs.stays
      . exact .refl h
    . rw [skipGroup]
      split
      . exact .error .recursionLimitExceeded
      . refine (ihFields _ h.deeper (by simpa [left] using Nat.le_of_succ_le_succ hfuel)).bind fun p hs => ?_
        obtain ⟨tag, s'⟩ := p
        dsimp only
        split
        . exact .error .mismatchedEndGroup
        . have hdepth : s'.recursionDepth - 1 = s.recursionDepth := by
            have hsame := congrArg recursionDepth hs.frame
            simp only [frame] at hsame
            omega
          rw [hdepth]
          exact hs.back
    . rw [skipFields]
      refine h.readTag.bind fun p htagged => ?_
      obtain ⟨tag, s'⟩ := p
      cases htagged with
      | ended =>
        exact .error .truncatedMessage
      | tag hne hlast hs =>
        dsimp only
        rw [if_neg hne]
        split
        . exact hs.stays
        . have hlt := hs.left_lt
          refine (ihField s' hs.stays.sound (hlast ▸ hne) (by omega)).bind fun s'' hs' => ?_
          have hle := hs'.left_le
          exact (ihFields s'' hs'.sound (by omega)).imp fun _ hrest => (hs.stays.trans hs').trans hrest

theorem Sound.skipLastField (h : s.Sound) (hlast : s.lastTag ≠ 0)
    : Outcome Raised s.Stays (skipLastField (3 * s.buffer.length + 3) s) := by
  have hleft := left_le_length (s := s)
  exact Sound.skip.1 s h hlast (by omega)

end CodedInputStream

end WzGame.Protobuf
