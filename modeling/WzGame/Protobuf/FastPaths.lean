import WzGame.Protobuf.CodedInputStreamTags
import WzGame.Util.Outcomes

/-!
This module contains that the optimised paths of a stream read what the plain ones read, from any bytes.
-/

namespace WzGame.Protobuf.CodedInputStream

variable {s s' : CodedInputStream} {b : UInt8}
  {read read' : CodedInputStream → Except Exception (UInt8 × CodedInputStream)}

theorem eq_advance_of_nextByte (h : s.nextByte = .ok (b, s')) : s' = s.advance 1 := by
  rw [nextByte] at h
  split at h
  . cases h
  . split at h
    . cases h
    . cases h
      rfl

theorem readVarint32_congr (hread : ∀ i : Nat, i < 5 → read (s.advance i) = read' (s.advance i))
    (hnext : ∀ s b s', read s = .ok (b, s') → s' = s.advance 1) : readVarint32 read s = readVarint32 read' s := by
  have hbyte (i : Nat) (hi : i < 5) {α : Type} {f f' : UInt8 × CodedInputStream → Except Exception α}
      (hf : ∀ b, f (b, s.advance (i + 1)) = f' (b, s.advance (i + 1)))
      : (read (s.advance i) >>= f) = read' (s.advance i) >>= f' := by
    refine Except.bind_congr (hread i hi) fun ⟨b, s'⟩ hok => ?_
    rw [hnext _ _ _ hok, advance_advance]
    exact hf b
  have h₀ := @hbyte 0 (by decide)
  rw [Int.natCast_zero, advance_zero] at h₀
  rw [readVarint32, readVarint32]
  refine h₀ fun b => ite_congr rfl (fun _ => rfl) fun _ => ?_
  refine hbyte 1 (by decide) fun b => ite_congr rfl (fun _ => rfl) fun _ => ?_
  refine hbyte 2 (by decide) fun b => ite_congr rfl (fun _ => rfl) fun _ => ?_
  refine hbyte 3 (by decide) fun b => ite_congr rfl (fun _ => rfl) fun _ => ?_
  exact hbyte 4 (by decide) fun b => rfl

theorem nextByte_eq_readRawByte (h : s.bufferPos < s.bufferSize) : s.nextByte = s.readRawByte := by
  rw [readRawByte, if_neg (Int.ne_of_lt h)]

theorem readRawVarint32_eq : s.readRawVarint32 = s.slowReadRawVarint32 := by
  rw [readRawVarint32]
  split
  . rfl
  . next h =>
    refine readVarint32_congr (fun i hi => nextByte_eq_readRawByte ?_) fun s b s' => eq_advance_of_nextByte
    show s.bufferPos + i < s.bufferSize
    omega

def slowReadTag (s : CodedInputStream) : Except Exception (UInt32 × CodedInputStream) :=
  if s.hasNextTag then
    pure (s.nextTag, { s with lastTag := s.nextTag, hasNextTag := false })
  else do
    let (atEnd, s) ← s.isAtEnd
    if atEnd then
      pure (0, { s with lastTag := 0 })
    else
      let (tag, s) ← s.slowReadRawVarint32
      s.setLastTag tag

theorem readTag_eq : s.readTag = s.slowReadTag := by
  rw [readTag, slowReadTag]
  refine ite_congr rfl (fun _ => rfl) fun _ => ?_
  split
  . next h =>
    have hne : s.bufferPos ≠ s.bufferSize := by omega
    have hfirst : s.nextByte = s.readRawByte := nextByte_eq_readRawByte (by omega)
    have hsecond : (s.advance 1).nextByte = (s.advance 1).readRawByte :=
      nextByte_eq_readRawByte (by show s.bufferPos + 1 < s.bufferSize; omega)
    simp only [isAtEnd, if_neg hne, pure_eq, ok_bind, readRawVarint32_eq, Bool.false_eq_true, if_false]
    rw [hfirst]
    rcases hb : s.readRawByte with e | ⟨b, s₁⟩
    . simp only [slowReadRawVarint32, readVarint32, hb]
      rfl
    . rw [ok_bind]
      obtain rfl : s₁ = s.advance 1 := eq_advance_of_nextByte (hfirst.trans hb)
      dsimp only
      split
      . next hlast => simp only [slowReadRawVarint32, readVarint32, hb, ok_bind, if_pos hlast, pure_eq]
      . next hmore =>
        rw [hsecond]
        rcases hb' : (s.advance 1).readRawByte with e | ⟨b', s₂⟩
        . simp only [slowReadRawVarint32, readVarint32, hb, hb', ok_bind, if_neg hmore]
          rfl
        . rw [ok_bind]
          dsimp only
          split
          . next hlast =>
            simp only [slowReadRawVarint32, readVarint32, hb, hb', ok_bind, if_neg hmore, if_pos hlast, pure_eq]
          . rfl
  . simp only [readRawVarint32_eq]

/-- Numbers and tags do not depend on how many bytes are in the buffer, whatever these bytes are. -/
theorem fast_paths_eq (s : CodedInputStream)
    : s.readRawVarint32 = s.slowReadRawVarint32 ∧ s.readTag = s.slowReadTag :=
  ⟨readRawVarint32_eq, readTag_eq⟩

end WzGame.Protobuf.CodedInputStream
