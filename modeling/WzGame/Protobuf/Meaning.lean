import WzGame.Protobuf.CodedInputStreamTags
import WzGame.Protobuf.CodedOutputStreamLemmas
import WzGame.Protobuf.GeneratedMessage

/-!
This module contains what messages mean as sequences of records, and that the stream reads and writes them so. A value
is denoted by the payload of a record, and a field says how the records with its tags are merged into a message.
-/

namespace WzGame.Protobuf

open CodedInputStream CodedOutputStream Wire

structure Goes (s : CodedInputStream) (bs : List UInt8) (s' : CodedInputStream) : Prop where
  holds : s'.Holds bs
  frame : s'.frame = s.frame
  next : s'.hasNextTag = false

structure Start (s : CodedInputStream) (depth : Nat) (bs : List UInt8) : Prop where
  holds : s.Holds bs
  wf : s.WF
  next : s.hasNextTag = false
  depth : s.recursionDepth + depth ≤ recursionLimit

structure FieldCodec.Meaning {T : Type} (codec : FieldCodec T) (depth : Nat) where
  denotes : Payload → T → Prop
  wireType : Nat
  reads : ∀ {s p v bs}, Start s depth (p.encode ++ bs) → denotes p v →
    ∃ s', codec.valueReader s = .ok (v, s') ∧ Goes s bs s'
  written : ∀ {v}, codec.valueSizeCalculator v < 2 ^ 31 →
    ∃ p, denotes p v ∧ p.wireType = wireType ∧ codec.valueSizeCalculator v = p.encode.length
      ∧ ∀ o, codec.valueWriter o v = o.put p.encode

/-- How the records of a field are merged into a message, and those that the field of a message is written as. `copy`
merges the field of one message into another one. -/
structure Field.Meaning {M : Type} (field : Field M) (depth : Nat) where
  merges : Record → M → M → Prop
  copy : M → M → M
  -- the records that follow with the same tag may be read at once
  reads : ∀ {s r rs m m'}, Start s depth (r.payload.encode ++ encodes rs) → s.lastTag = .ofNat r.tag →
    .ofNat r.tag ∈ field.tags → merges r m m' →
    ∃ rs₁ rs₂, rs = rs₁ ++ rs₂ ∧ (∀ r' ∈ rs₁, r'.tag = r.tag) ∧ ∀ {m''}, Merged merges rs₁ m' m'' →
      ∃ s', field.mergeFrom m s = .ok (m'', s') ∧ s'.Ready (encodes rs₂)
        ∧ (rs₂ ≠ [] ∨ s.currentLimit ≠ maxValue → s'.frame = s.frame)
  written : ∀ {m}, field.calculateSize m < 2 ^ 31 →
    ∃ rs, (∀ r ∈ rs, UInt32.ofNat r.tag ∈ field.tags) ∧ field.calculateSize m = (encodes rs).length
      ∧ (∀ o, field.writeTo m o = o.put (encodes rs)) ∧ ∀ acc, Merged merges rs acc (copy m acc)

structure IMessage.Meaning {M : Type} (message : IMessage M) (depth : Nat) where
  merges : Record → M → M → Prop
  copy : M → M → M
  reads : ∀ {s rs m m'}, Start s depth (encodes rs) → Merged merges rs m m' →
    ∃ s', message.mergeFrom m s = .ok (m', s') ∧ s'.lastTag = 0 ∧ s'.hasNextTag = false ∧ s'.Holds []
      ∧ (s.currentLimit ≠ maxValue → s'.frame = s.frame)
  written : ∀ {m}, message.calculateSize m < 2 ^ 31 →
    ∃ rs, message.calculateSize m = (encodes rs).length ∧ (∀ o, message.writeTo m o = o.put (encodes rs))
      ∧ ∀ acc, Merged merges rs acc (copy m acc)

variable {M T : Type} {s s' s'' : CodedInputStream} {bs bs' : List UInt8} {depth n : Nat}

theorem Goes.trans (h : Goes s bs s') (h' : Goes s' bs' s'') : Goes s bs' s'' :=
  ⟨h'.holds, h'.frame.trans h.frame, h'.next⟩

theorem goes_advance (h : s.Holds (bs ++ bs')) (hnext : s.hasNextTag = false) : Goes s bs' (s.advance bs.length) :=
  ⟨h.advance, rfl, hnext⟩

theorem Start.of_goes (h : Start s depth bs) (hgoes : Goes s bs' s') : Start s' depth bs' := by
  have hdepth := congrArg recursionDepth hgoes.frame
  simp only [frame] at hdepth
  exact ⟨hgoes.holds, h.wf.of_frame hgoes.frame, hgoes.next, by rw [hdepth]; exact h.depth⟩

namespace FieldCodec

def int32Meaning (tag : UInt32) (depth : Nat) : (forInt32 tag).toFieldCodec.Meaning depth where
  denotes p v := ∃ n, p = .varint n ∧ v = n.toUInt32.toInt32
  wireType := 0
  reads := by
    rintro s _ _ bs h ⟨n, rfl, rfl⟩
    exact ⟨_, h.holds.readInt32, goes_advance h.holds h.next⟩
  written := by
    intro v _
    exact ⟨.varint (extend v), ⟨_, rfl, toUInt32_extend.symm⟩, rfl, computeInt32Size_eq, fun _ => writeInt32_eq⟩

def int64Meaning (tag : UInt32) (depth : Nat) : (forInt64 tag).toFieldCodec.Meaning depth where
  denotes p v := ∃ n, p = .varint n ∧ v = n.toInt64
  wireType := 0
  reads := by
    rintro s _ _ bs h ⟨n, rfl, rfl⟩
    exact ⟨_, h.holds.readInt64, goes_advance h.holds h.next⟩
  written := by
    intro v _
    exact ⟨.varint v.toUInt64, ⟨_, rfl, rfl⟩, rfl, computeInt64Size_eq, fun _ => writeInt64_eq⟩

theorem getString_getBytes {malformed : Malformed} {value : String}
    : getString malformed (getBytes value) = value := by
  rw [getString, getBytes, Utf.utf8Decode?_utf8Encode]
  exact String.ofList_toList

def stringMeaning (malformed : Malformed) (tag : UInt32) (depth : Nat)
    : (forString malformed tag).toFieldCodec.Meaning depth where
  denotes p v := ∃ bs h, p = .bytes bs h ∧ v = getString malformed bs
  wireType := 2
  reads := by
    rintro s _ _ bs h ⟨content, hlength, rfl, rfl⟩
    have hholds := h.holds
    rw [Payload.encode, List.append_assoc] at hholds
    refine ⟨_, hholds.readString h.wf hlength, ?_⟩
    have hgoes := goes_advance h.holds h.next
    rwa [Payload.encode, List.length_append, Int.natCast_add] at hgoes
  written := by
    intro v hsize
    have hcount : getByteCount v < 2 ^ 31 := Nat.lt_of_le_of_lt (Nat.le_add_left _ _) hsize
    refine ⟨.bytes (getBytes v) hcount, ⟨_, _, rfl, getString_getBytes.symm⟩, rfl, ?_, fun _ => ?_⟩
    . exact computeStringSize_eq (Nat.lt_trans hcount (by decide))
    . exact writeString_eq (Nat.lt_trans hcount (by decide))

end FieldCodec

theorem IMessage.Meaning.readMessage {message : IMessage M} {rs : List Record} {m m' : M}
    {hlength : (encodes rs).length < 2 ^ 31} (meaning : message.Meaning depth)
    (h : Start s (depth + 1) ((Payload.bytes (encodes rs) hlength).encode ++ bs'))
    (hm : Merged meaning.merges rs m m')
    : ∃ s', readMessage message m s = .ok (m', s') ∧ Goes s bs' s' := by
  have hholds := h.holds
  rw [Payload.encode, List.append_assoc] at hholds
  obtain ⟨length, hread, hlength'⟩ := hholds.readLength hlength
  have hs₁ := hholds.advance
  have hwf₁ : (s.advance (Varint.write (encodes rs).length).length).WF := h.wf.of_frame rfl
  have hpush := hs₁.pushLimit hwf₁
  have hin := hs₁.limited
  have hwf₂ := hs₁.wf_limited hwf₁
  have hne := hs₁.limited_ne hwf₁
  have hpop := fun (s' : CodedInputStream) (h : s'.frame = (s.advance _ |>.limited _).frame) => hs₁.popLimit hwf₁ h
  have hdepth := h.depth
  generalize hs : s.advance (Varint.write (encodes rs).length).length = s₁ at *
  generalize hl : s₁.limited (encodes rs).length = s₂ at *
  have hnext₂ : s₂.hasNextTag = false := by
    rw [← hl, ← hs]
    exact h.next
  have hdepth₂ : s₂.recursionDepth = s.recursionDepth ∧ s₁.recursionDepth = s.recursionDepth := by
    rw [← hl, ← hs]
    exact ⟨rfl, rfl⟩
  have hstart : Start { s₂ with recursionDepth := s₂.recursionDepth + 1 } depth (encodes rs) := by
    refine ⟨⟨hin.nonneg, hin.size, hin.drop⟩, ?_, hnext₂, by simp only; omega⟩
    exact ⟨hwf₂.retired, hwf₂.length, hwf₂.short, hwf₂.nonneg, hwf₂.limit⟩
  obtain ⟨s₃, hmerge, hlast, hnext, hend, hframe⟩ := meaning.reads hstart hm
  have hframe := hframe hne
  have hreached : s₃.reachedLimit = true :=
    (hstart.wf.of_frame hframe).reachedLimit_eq hend fun h => hne ((congrArg currentLimit hframe).symm.trans h)
  have hback := congrArg (fun s : CodedInputStream => { s with recursionDepth := s.recursionDepth - 1 }) hframe
  obtain ⟨hholds', hframe'⟩ := hpop { s₃ with recursionDepth := s₃.recursionDepth - 1 } hback
    ⟨hend.nonneg, hend.size, hend.drop⟩
  refine ⟨_, ?_, hholds', hframe'.trans ?_, hasNextTag_popLimit.trans hnext⟩
  . have hdeep : ¬ s₁.recursionDepth ≥ recursionLimit := by omega
    simp only [CodedInputStream.readMessage, hread, ok_bind, if_neg hdeep, hlength', hpush, hmerge,
      checkReadEndOfStreamTag, hlast, hreached]
    rfl
  . rw [← hs]
    rfl

theorem IMessage.Meaning.writtenMessage {message : IMessage M} (meaning : message.Meaning depth) {m : M}
    (hsize : computeMessageSize message m < 2 ^ 31)
    : ∃ rs, ∃ h : (encodes rs).length < 2 ^ 31,
        computeMessageSize message m = (Payload.bytes (encodes rs) h).encode.length
        ∧ (∀ o, writeMessage message o m = o.put (Payload.bytes (encodes rs) h).encode)
        ∧ ∀ acc, Merged meaning.merges rs acc (meaning.copy m acc) := by
  have hlt : message.calculateSize m < 2 ^ 31 := Nat.lt_of_le_of_lt (Nat.le_add_left _ _) hsize
  obtain ⟨rs, hlength, hwrite, hmerged⟩ := meaning.written hlt
  have hlt32 : message.calculateSize m < 2 ^ 32 := Nat.lt_trans hlt (by decide)
  have hshort : (encodes rs).length < 2 ^ 31 := hlength ▸ hlt
  refine ⟨rs, hshort, ?_, fun o => ?_, hmerged⟩
  . rw [computeMessageSize, computeLengthSize_eq hlt32, hlength, Payload.encode, List.length_append]
  . rw [writeMessage, writeLength_eq hlt32, Payload.encode, put_append, hlength]
    congr 1
    funext o
    exact hwrite o

def FieldCodec.messageMeaning {message : IMessage M} (meaning : message.Meaning depth) {new : M}
    (hnew : ∀ m, meaning.copy m new = m) (tag : UInt32) : (forMessage tag message new).Meaning (depth + 1) where
  denotes p v := ∃ rs h, p = .bytes (encodes rs) h ∧ Merged meaning.merges rs new v
  wireType := 2
  reads := by
    rintro s _ v bs h ⟨rs, hlength, rfl, hm⟩
    exact meaning.readMessage h hm
  written := by
    intro v hsize
    obtain ⟨rs, hlength, heq, hwrite, hmerged⟩ := meaning.writtenMessage hsize
    exact ⟨_, ⟨rs, hlength, rfl, hnew v ▸ hmerged new⟩, rfl, heq, hwrite⟩

end WzGame.Protobuf
