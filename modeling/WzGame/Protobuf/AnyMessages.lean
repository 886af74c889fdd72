import WzGame.Protobuf.AnyBytes
import WzGame.Protobuf.GeneratedMessage

/-!
This module contains what the loops of a message do on bytes that nobody has written: they come to an end, and what they
throw are the exceptions of the stream.
-/

namespace WzGame.Protobuf

open CodedInputStream
open Except (Outcome)
open Exception (Raised)

def FieldCodec.Robust {T : Type} (codec : FieldCodec T) : Prop :=
  ∀ s : CodedInputStream, s.Sound → Outcome Raised (fun p => s.Reads p.2) (codec.valueReader s)

inductive After (s s' : CodedInputStream) : Prop where
  | fresh (h : s.Reads s')
  | held (hnext : s'.hasNextTag = true) (hne : s'.nextTag ≠ 0) (hleft : s'.left + 1 < s.left)
    (h : s.Stays { s' with hasNextTag := false })
  | ended (hnext : s'.hasNextTag = true) (hzero : s'.nextTag = 0) (h : s.Ended s')

def Field.Robust {M : Type} (field : Field M) : Prop :=
  ∀ (m : M) (s : CodedInputStream), s.Sound → s.lastTag ≠ 0 →
    Outcome Raised (fun p => After s p.2) (field.mergeFrom m s)

def IMessage.Robust {M : Type} (message : IMessage M) : Prop :=
  ∀ (m : M) (s : CodedInputStream), s.Sound →
    Outcome Raised (fun p => p.2.lastTag = 0 ∧ p.2.hasNextTag = false ∧ s.Ended p.2) (message.mergeFrom m s)

variable {M N A T K V : Type} {s s' : CodedInputStream}

theorem sound_new {data : List UInt8} (h : data.length < maxValue) : (CodedInputStream.new data).Sound := by
  have hlimit : ¬ (CodedInputStream.new data).currentLimit < 0 := by
    simp only [new]
    decide
  refine ⟨⟨rfl, h, ⟨by simp only [new]; decide, Int.le_refl _⟩, ?_, ?_⟩, ?_, fun hneg => absurd hneg hlimit, rfl⟩
  . simp only [new]
    omega
  . simp only [new, Int.sub_self]
    rfl
  . simp only [stop, new]
    omega

theorem CodedInputStream.Sound.readMessage {message : IMessage M} (hmessage : message.Robust) {m : M} (h : s.Sound)
    : Outcome Raised (fun p => s.Reads p.2) (readMessage message m s) := by
  refine h.readLength.bind fun ⟨length, s₁⟩ h₁ => ?_
  have hs₁ := h₁.stays.sound
  dsimp only
  split
  . exact .error .recursionLimitExceeded
  refine (hs₁.pushLimit (Int.le_of_lt h₁.pos) (toInt_le_maxValue length)).bind fun ⟨oldLimit, s₂⟩ h₂ => ?_
  obtain ⟨rfl, limit, hle, rfl, hs₂⟩ := h₂
  refine (hmessage m _ hs₂.deeper).bind fun ⟨m', s₃⟩ ⟨hlast, hnext, hended⟩ => ?_
  dsimp only at hlast hnext hended ⊢
  rw [checkReadEndOfStreamTag, if_neg (not_not.mpr hlast), pure_eq, ok_bind]
  split
  . exact .error .truncatedMessage
  next hreached =>
  obtain ⟨hlimit, hstays⟩ := hended (by simpa using hreached)
  rw [← hnext] at hstays
  have hdepth : s₃.recursionDepth - 1 = s₁.recursionDepth := congrArg (·.recursionDepth - 1) hstays.frame
  rw [hdepth]
  exact h₁.stay (hs₁.popLimit hle hstays.back (.inl hlimit))

def Turns (step : A → CodedInputStream → Except Exception (A × CodedInputStream)) : Prop :=
  ∀ (a : A) (s : CodedInputStream), s.Sound → Outcome Raised (fun p => s.Reads p.2) (step a s)

theorem After.after (h : s.Reads s') {s'' : CodedInputStream} (h' : After s' s'') : After s s'' := by
  cases h' with
  | fresh h' => exact .fresh (h.trans h')
  | held hnext hne hleft h' => exact .held hnext hne (Nat.lt_trans hleft h.left_lt) (h.stays.trans h')
  | ended hnext hzero h' => exact .ended hnext hzero (h.stays.ended h')

theorem Turns.doWhileTag {step : A → CodedInputStream → Except Exception (A × CodedInputStream)} (hstep : Turns step)
    {tag : UInt32} (htag : tag ≠ 0) {a : A} {fuel : Nat} (h : s.Sound) (hfuel : s.left < fuel)
    : Outcome Raised (fun p => After s p.2) (doWhileTag step tag fuel a s) := by
  induction fuel generalizing a s with
  | zero => exact absurd hfuel (Nat.not_lt_zero _)
  | succ fuel ih =>
    refine (hstep a s h).bind fun ⟨a', s₁⟩ h₁ => (h₁.stays.sound.maybeConsumeTag htag).bind fun _ hpeeks => ?_
    have hlt := h₁.left_lt
    cases hpeeks with
    | @consumed s₂ h₂ =>
      have hlt' := h₂.left_lt
      exact (ih h₂.stays.sound (by omega)).imp fun _ hafter => .after (h₁.trans h₂) hafter
    | held hnext hne h₂ =>
      exact .held hnext hne (Nat.lt_of_le_of_lt h₂.left_lt hlt) (h₁.trans h₂).stays
    | ended hnext hzero h₂ => exact .ended hnext hzero (h₁.stays.ended h₂)

namespace RepeatedField

variable {codec : FieldCodec T}

theorem turns_add (hcodec : codec.Robust) : Turns (add codec) :=
  fun _ s h => (hcodec s h).bind fun _ h' => h'

theorem addPacked_robust (hcodec : codec.Robust) {values : RepeatedField T} {fuel : Nat} (h : s.Sound)
    (hfuel : s.left < fuel) : Outcome Raised (fun p => s.Stays p.2) (addPacked codec fuel values s) := by
  induction fuel generalizing values s with
  | zero => exact absurd hfuel (Nat.not_lt_zero _)
  | succ fuel ih =>
    rw [addPacked]
    split
    . exact .refl h
    . refine (turns_add hcodec values s h).bind fun ⟨values', s₁⟩ h₁ => ?_
      have hlt := h₁.left_lt
      exact (ih h₁.stays.sound (by omega)).imp fun _ h₂ => h₁.stays.trans h₂

theorem addPacked_of_neg {values : RepeatedField T} {fuel : Nat} (h : s.Sound) (hnonneg : 0 ≤ s.bufferPos)
    (hlimit : s.currentLimit < 0)
    : addPacked codec (fuel + 1) values s = .ok (values, s) := by
  have hstop := Int.le_trans h.le h.limits.stop_le
  have hshort := h.limits.short
  have hreached : s.reachedLimit = true := by
    rw [maxValue] at hshort
    rw [reachedLimit, if_neg (by rw [maxValue]; omega), h.limits.retired, Int.zero_add,
      int32_eq (by omega) (by omega), decide_eq_true_eq]
    omega
  rw [addPacked, if_pos hreached]
  rfl

theorem addEntriesFrom_robust (hcodec : codec.Robust) {values : RepeatedField T} (h : s.Sound) (hlast : s.lastTag ≠ 0)
    : Outcome Raised (fun p => After s p.2) (addEntriesFrom values s codec) := by
  rw [addEntriesFrom]
  dsimp only
  split
  . refine h.readLength.bind fun ⟨length, s₁⟩ h₁ => ?_
    have hs₁ := h₁.stays.sound
    dsimp only
    split
    . refine (hs₁.pushLimit (Int.le_of_lt h₁.pos) (toInt_le_maxValue length)).bind fun ⟨oldLimit, s₂⟩ h₂ => ?_
      obtain ⟨rfl, limit, hle, rfl, hs₂⟩ := h₂
      dsimp only
      rcases Int.lt_or_le limit 0 with hneg | hpos
      . rw [addPacked_of_neg hs₂ (Int.le_of_lt h₁.pos) hneg]
        exact .fresh (h₁.stay (hs₁.popLimit hle (.refl hs₂) (.inr rfl)))
      . refine (addPacked_robust hcodec hs₂ (Nat.lt_succ_of_le left_le_length)).bind fun ⟨values', s₃⟩ h₃ => ?_
        exact .fresh (h₁.stay (hs₁.popLimit hle h₃ (.inl (.inl hpos))))
    . exact .fresh h₁.toReads
  . exact (turns_add hcodec).doWhileTag hlast h (Nat.lt_succ_of_le left_le_length)

/-- A packed record that is as long as to make the limit overflow is taken for an empty one, and its bytes for the
records behind it. -/
theorem addEntriesFrom_of_overflow {codec : FieldCodec T} (values : RepeatedField T) {s s₁ : CodedInputStream}
    {length : Int32} (h : s.Sound) (hpacked : codec.isPackedRepeatedField s.lastTag = true)
    (hlimit : 0 ≤ s.currentLimit) (hread : s.readLength = .ok (length, s₁))
    (hlength : maxValue < length.toInt + s₁.bufferPos)
    : addEntriesFrom values s codec = .ok (values, s₁) := by
  have h₁ : s.Takes s₁ := by
    have hlengths := h.readLength
    rwa [hread] at hlengths
  have hs₁ := h₁.stays.sound
  have hnonneg := Int.le_of_lt h₁.pos
  have hmax := toInt_le_maxValue length
  have hstop := Int.le_trans hs₁.le hs₁.limits.stop_le
  have hshort := hs₁.limits.short
  have hneg : length.toInt + s₁.bufferPos - 4294967296 < 0 := by
    rw [maxValue] at hmax hshort
    omega
  have hlen : 0 < length := by
    rw [Int32.lt_iff_toInt_lt]
    show 0 < length.toInt
    omega
  have hlimit₁ : 0 ≤ s₁.currentLimit := currentLimit_of_frame h₁.stays.frame ▸ hlimit
  have hpush := hs₁.pushLimit_of_overflow hlimit₁ hnonneg hmax hlength
  have hs₂ : (s₁.atLimit (length.toInt + s₁.bufferPos - 4294967296)).Sound := by
    have hpushed := hs₁.pushLimit hnonneg hmax
    rw [hpush] at hpushed
    obtain ⟨-, limit, -, heq, hsound⟩ := hpushed
    dsimp only at heq
    rwa [heq]
  have hpopped : (s₁.atLimit (length.toInt + s₁.bufferPos - 4294967296)).popLimit s₁.currentLimit = s₁ :=
    (hs₂.limits.popLimit hs₁.limits.range.1 hs₁.limits.range.2).trans hs₁.limits.atLimit_self
  simp only [addEntriesFrom, hpacked, if_true, hread, ok_bind, if_pos hlen, hpush]
  rw [addPacked_of_neg hs₂ hnonneg hneg, ok_bind]
  dsimp only
  rw [hpopped]
  rfl

theorem addEntriesFrom_of_overflow_int32
    : addEntriesFrom [1] { new [255, 255, 255, 255, 7, 8, 1] with lastTag := 50 } (FieldCodec.forInt32 50).toFieldCodec
        = .ok ([1], { new [255, 255, 255, 255, 7, 8, 1] with lastTag := 50, bufferPos := 5 }) :=
  have h : (new [255, 255, 255, 255, 7, 8, 1]).Sound := sound_new (by decide)
  addEntriesFrom_of_overflow [1] (h.congr rfl rfl rfl) rfl (by decide) rfl (by decide)

end RepeatedField

namespace Field

theorem along_robust {field : Field A} {get : M → A} {set : M → A → M} (hfield : field.Robust)
    : (field.along get set).Robust :=
  fun m s h hlast => (hfield (get m) s h hlast).bind fun _ hafter => hafter

theorem value_robust [DecidableEq T] {codec : ValueCodec T} (hcodec : codec.toFieldCodec.Robust)
    : (value codec).Robust :=
  fun _ s h _ => (hcodec s h).imp fun _ h' => .fresh h'

theorem entry_robust [DecidableEq T] {codec : ValueCodec T} (hcodec : codec.toFieldCodec.Robust)
    : (MapField.Codec.field codec).Robust :=
  fun _ s h _ => (hcodec s h).imp fun _ h' => .fresh h'

theorem nullable_robust {message : IMessage N} (hmessage : message.Robust) {tag : UInt32} {new : N}
    : (nullable tag message new).Robust :=
  fun _ _ h _ => (h.readMessage hmessage).bind fun _ h' => .fresh h'

theorem values_robust {codec : FieldCodec T} (hcodec : codec.Robust) {tags : List UInt32}
    : (values tags codec).Robust :=
  fun _ _ h hlast => RepeatedField.addEntriesFrom_robust hcodec h hlast

theorem entries_robust [DecidableEq K] [DecidableEq V] {codec : MapField.Codec K V}
    (hentry : codec.messageAdapter.Robust) (htag : codec.mapTag ≠ 0) : (entries codec).Robust := by
  intro map s h _
  have hturns : Turns (MapField.addEntry codec) :=
    fun map s h => (h.readMessage hentry).bind fun _ h' => h'
  exact hturns.doWhileTag htag h (Nat.lt_succ_of_le left_le_length)

inductive Queued (n : Nat) (s : CodedInputStream) : CodedInputStream → Prop where
  | fresh {s' : CodedInputStream} (hleft : s'.left ≤ n) (h : s.Stays s') : Queued n s s'
  | held {s' : CodedInputStream} (hnext : s'.hasNextTag = true) (hne : s'.nextTag ≠ 0) (hleft : s'.left < n)
    (h : s.Stays { s' with hasNextTag := false }) : Queued n s s'
  | ended {s' : CodedInputStream} (hnext : s'.hasNextTag = true) (hzero : s'.nextTag = 0) (h : s.Ended s')
    : Queued n s s'

theorem Queued.readTag {n : Nat} {s₀ : CodedInputStream} (h : Queued n s₀ s)
    : Outcome Raised (fun p : UInt32 × CodedInputStream =>
        (p.1 = 0 → p.2.lastTag = 0 ∧ p.2.hasNextTag = false ∧ s₀.Ended p.2)
          ∧ (p.1 ≠ 0 → p.2.lastTag ≠ 0 ∧ p.2.left < n ∧ s₀.Stays p.2)) s.readTag := by
  cases h with
  | fresh hleft h =>
    refine h.sound.readTag.imp fun _ htagged => ?_
    cases htagged with
    | tag hne hlast h' =>
      exact ⟨fun hzero => absurd hzero hne, fun _ => ⟨hlast ▸ hne, Nat.lt_of_lt_of_le h'.left_lt hleft,
        h.trans h'.stays⟩⟩
    | ended hlast hnext h' =>
      exact ⟨fun _ => ⟨hlast, hnext, h.ended h'⟩, fun hne => absurd rfl hne⟩
  | held hnext hne hleft h =>
    rw [CodedInputStream.readTag, if_pos hnext]
    exact ⟨fun hzero => absurd hzero hne, fun _ => ⟨hne, hleft, h.congr rfl rfl rfl⟩⟩
  | ended hnext hzero h =>
    rw [CodedInputStream.readTag, if_pos hnext]
    exact ⟨fun _ => ⟨hzero, rfl, h.congr rfl rfl⟩, fun hne => absurd hzero hne⟩

theorem Queued.after {n : Nat} {s₀ : CodedInputStream} (h : s₀.Stays s) (hleft : s.left ≤ n) (hafter : After s s')
    : Queued n s₀ s' := by
  cases hafter with
  | fresh h' => exact .fresh (Nat.le_trans (Nat.le_of_lt h'.left_lt) hleft) (h.trans h'.stays)
  | held hnext hne hleft' h' => exact .held hnext hne (by omega) (h.trans h')
  | ended hnext hzero h' => exact .ended hnext hzero (h.ended h')

theorem mergeAll_robust {fields : Fields M} (hfields : ∀ field ∈ fields, field.Robust) {n fuel : Nat} {m : M}
    {s₀ : CodedInputStream} (h : Queued n s₀ s) (hfuel : n < fuel)
    : Outcome Raised (fun p => p.2.lastTag = 0 ∧ p.2.hasNextTag = false ∧ s₀.Ended p.2) (mergeAll fields fuel m s) := by
  induction fuel generalizing n m s with
  | zero => exact absurd hfuel (Nat.not_lt_zero _)
  | succ fuel ih =>
    refine h.readTag.bind fun ⟨tag, s₁⟩ ⟨hzero, hmore⟩ => ?_
    dsimp only
    split
    . next htag => exact hzero htag
    . next htag =>
      obtain ⟨hlast, hleft, hstays⟩ := hmore htag
      split
      . refine (hstays.sound.skipLastField hlast).bind fun s₂ h₂ => ?_
        exact ih (.fresh h₂.left_le (hstays.trans h₂)) (by omega)
      . next field hfind =>
        have hfield := hfields field (List.mem_of_find?_eq_some hfind)
        refine (hfield m s₁ hstays.sound hlast).bind fun ⟨m', s₂⟩ hafter => ?_
        exact ih (.after hstays (Nat.le_refl _) hafter) (by omega)

theorem message_robust {fields : Fields M} (hfields : ∀ field ∈ fields, field.Robust) : (message fields).Robust :=
  fun _ _ h => mergeAll_robust hfields (.fresh left_le_length (.refl h)) (Nat.lt_succ_self _)

end Field

namespace FieldCodec

theorem forInt32_robust {tag : UInt32} : (forInt32 tag).toFieldCodec.Robust :=
  fun _ h => h.readInt32.imp fun _ h' => h'.toReads

theorem forInt64_robust {tag : UInt32} : (forInt64 tag).toFieldCodec.Robust :=
  fun _ h => h.readInt64.imp fun _ h' => h'.toReads

theorem forString_robust {malformed : Malformed} {tag : UInt32} : (forString malformed tag).toFieldCodec.Robust :=
  fun _ h => h.readString

theorem forMessage_robust {message : IMessage M} (hmessage : message.Robust) {tag : UInt32} {new : M}
    : (forMessage tag message new).Robust := fun _ h => h.readMessage hmessage

end FieldCodec

theorem IMessage.Robust.parseFrom {message : IMessage M} (hmessage : message.Robust) (new : M) {data : List UInt8}
    (h : data.length < maxValue) : Outcome Raised (fun _ => True) (message.parseFrom new data) := by
  refine (hmessage new _ (sound_new h)).bind fun ⟨m, s⟩ ⟨hlast, _⟩ => ?_
  dsimp only at hlast ⊢
  rw [checkReadEndOfStreamTag, if_neg (not_not.mpr hlast)]
  trivial

end WzGame.Protobuf
