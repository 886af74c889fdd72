import Mathlib.Logic.Relation
import WzGame.Net.LogicRecvHandler

/-!
This module contains when the loop of `ProcessPacket` comes to an end: the lengths it meets have to lead its
head forward.
-/

namespace WzGame

namespace LogicRecvHandler

variable {ω β : Type}

def Continues (byte : β → UInt8) (factory : PacketFacotry ω β) (buffer : List β) (p p' : Progress ω β) : Prop :=
  iteration byte factory buffer p = .next p'

structure MovesForward (byte : β → UInt8) (factory : PacketFacotry ω β) (buffer : List β) (p : Progress ω β)
    : Prop where
  terminates : ∃ fuel, (loop byte factory buffer fuel p).isSome = true
  forward : ∀ p₁ p₂, Relation.ReflTransGen (Continues byte factory buffer) p p₁
    → Continues byte factory buffer p₁ p₂ → p₁.iTmpHead < p₂.iTmpHead ∧ p₂.iTmpHead ≤ buffer.length

inductive PositiveLengths (byte : β → UInt8) : List β → Prop where
  | short {rest : List β} : rest.length < 2 → PositiveLengths byte rest
  | incomplete {rest : List β} : rest.length < (readInt16 byte rest).toInt → PositiveLengths byte rest
  | frame {rest : List β} : 0 < (readInt16 byte rest).toInt
    → PositiveLengths byte (rest.drop (readInt16 byte rest).toInt.toNat) → PositiveLengths byte rest

variable {byte : β → UInt8} {factory : PacketFacotry ω β} {pre rest buffer : List β} {p p' : Progress ω β}

theorem iteration_cases (hhead : p.iTmpHead = pre.length)
    : ((rest.length < 2 ∨ rest.length < (readInt16 byte rest).toInt)
          ∧ iteration byte factory (pre ++ rest) p = .leave p rest)
        ∨ (¬ (rest.length < 2 ∨ rest.length < (readInt16 byte rest).toInt)
          ∧ ∃ p', iteration byte factory (pre ++ rest) p = .next p'
            ∧ p'.iTmpHead = p.iTmpHead + (readInt16 byte rest).toInt) := by
  have hnonneg : ¬ p.iTmpHead < 0 := by omega
  have hdrop : (pre ++ rest).drop p.iTmpHead.toNat = rest := by
    rw [hhead, Int.toNat_natCast, List.drop_left]
  have hdelta : ((pre ++ rest).length : Int) - p.iTmpHead = rest.length := by
    rw [List.length_append, hhead]
    omega
  have hheader : (rest.length : Int) < (PACKET_HEADER_SIZE : Nat) ↔ rest.length < 2 := by
    rw [PACKET_HEADER_SIZE]
    omega
  simp only [iteration, if_neg hnonneg, hdrop, hdelta, hheader]
  by_cases hshort : rest.length < 2
  . exact .inl ⟨.inl hshort, if_pos hshort⟩
  . by_cases hlong : (rest.length : Int) < (readInt16 byte rest).toInt
    . rw [if_neg hshort, if_pos hlong]
      exact .inl ⟨.inr hlong, rfl⟩
    . rw [if_neg hshort, if_neg hlong]
      refine .inr ⟨by simp [hshort, hlong], ?_⟩
      generalize (if (rest.length : Int) < 4 then _ else _) = tmpPacketID
      split
      . split
        . refine ⟨_, rfl, ?_⟩
          rfl
        . refine ⟨_, rfl, ?_⟩
          rfl
      . refine ⟨_, rfl, ?_⟩
        rfl

theorem movesForward_leave (h : iteration byte factory buffer p = .leave p rest)
    : MovesForward byte factory buffer p := by
  have hstays : ∀ p', ¬ Continues byte factory buffer p p' := by
    intro p' hp'
    rw [Continues, h] at hp'
    contradiction
  constructor
  . exact ⟨1, by rw [loop, h]; rfl⟩
  . intro p₁ p₂ hreach hnext
    rcases hreach.cases_head with rfl | ⟨p', hp', -⟩
    . exact absurd hnext (hstays p₂)
    . exact absurd hp' (hstays p')

theorem movesForward_next (h : Continues byte factory buffer p p')
    : MovesForward byte factory buffer p
        ↔ (p.iTmpHead < p'.iTmpHead ∧ p'.iTmpHead ≤ buffer.length) ∧ MovesForward byte factory buffer p' := by
  have hloop : ∀ fuel, loop byte factory buffer (fuel + 1) p = loop byte factory buffer fuel p' := by
    intro fuel
    rw [loop, h]
  constructor
  . intro hforward
    refine ⟨hforward.forward p p' .refl h, ?_, ?_⟩
    . obtain ⟨fuel, hfuel⟩ := hforward.terminates
      cases fuel with
      | zero => simp [loop] at hfuel
      | succ fuel => exact ⟨fuel, by rwa [hloop] at hfuel⟩
    . exact fun p₁ p₂ hreach => hforward.forward p₁ p₂ (.head h hreach)
  . rintro ⟨hstep, hforward⟩
    constructor
    . obtain ⟨fuel, hfuel⟩ := hforward.terminates
      exact ⟨fuel + 1, by rwa [hloop]⟩
    . intro p₁ p₂ hreach hnext
      rcases hreach.cases_head with rfl | ⟨p'', hp'', hreach⟩
      . obtain rfl := Iteration.next.inj (h.symm.trans hnext)
        exact hstep
      . obtain rfl := Iteration.next.inj (h.symm.trans hp'')
        exact hforward.forward p₁ p₂ hreach hnext

theorem positiveLengths_iff (hgoes : ¬ (rest.length < 2 ∨ rest.length < (readInt16 byte rest).toInt))
    : PositiveLengths byte rest
        ↔ 0 < (readInt16 byte rest).toInt
          ∧ PositiveLengths byte (rest.drop (readInt16 byte rest).toInt.toNat) := by
  constructor
  . intro h
    cases h with
    | short hshort => exact absurd (.inl hshort) hgoes
    | incomplete hlong => exact absurd (.inr hlong) hgoes
    | frame hpos hrest => exact ⟨hpos, hrest⟩
  . exact fun h => .frame h.1 h.2

theorem movesForward_iff (hhead : p.iTmpHead = pre.length)
    : MovesForward byte factory (pre ++ rest) p ↔ PositiveLengths byte rest := by
  induction hn : rest.length using Nat.strong_induction_on generalizing pre rest p with
  | h n ih =>
    subst hn
    rcases @iteration_cases ω β byte factory pre rest p hhead
      with ⟨hends, hleave⟩ | ⟨hgoes, p', hnext, hp'⟩
    . refine iff_of_true (movesForward_leave hleave) ?_
      rcases hends with hshort | hlong
      . exact .short hshort
      . exact .incomplete hlong
    . rw [movesForward_next hnext, positiveLengths_iff hgoes, hp', hhead]
      by_cases hpos : 0 < (readInt16 byte rest).toInt
      . obtain ⟨hlong, hwhole⟩ := not_or.mp hgoes
        have hbuffer : pre ++ rest = (pre ++ rest.take (readInt16 byte rest).toInt.toNat)
            ++ rest.drop (readInt16 byte rest).toInt.toNat := by
          rw [List.append_assoc, List.take_append_drop]
        have hlength : (pre ++ rest).length = pre.length + rest.length := List.length_append
        rw [hbuffer, ih (rest.drop (readInt16 byte rest).toInt.toNat).length ?_ ?_ rfl, ← hbuffer, hlength]
        . apply and_congr_left'
          omega
        . rw [List.length_drop]
          omega
        . rw [hp', hhead, List.length_append, List.length_take]
          omega
      . exact iff_of_false (fun h => hpos (by omega)) fun h => hpos h.1

/--
`ProcessPacket` ends, with its head moving forward all the way, exactly if the lengths of the frames it comes to
are positive.
-/
theorem processPacket_terminates_iff (s : State ω β) (memStream : List β)
    : (∃ fuel, (processPacket byte factory fuel s memStream).isSome = true)
          ∧ (∀ p₁ p₂, Relation.ReflTransGen
              (Continues byte factory (takeRemaining s.m_LogicRemainingBuf memStream).1)
              ⟨0, 0, s.env, s.packets⟩ p₁
            → Continues byte factory (takeRemaining s.m_LogicRemainingBuf memStream).1 p₁ p₂
            → p₁.iTmpHead < p₂.iTmpHead
              ∧ p₂.iTmpHead ≤ (takeRemaining s.m_LogicRemainingBuf memStream).1.length)
        ↔ PositiveLengths byte (takeRemaining s.m_LogicRemainingBuf memStream).1 := by
  have hstart := @movesForward_iff ω β byte factory [] (takeRemaining s.m_LogicRemainingBuf memStream).1
    ⟨0, 0, s.env, s.packets⟩ rfl
  have hloop : ∀ fuel, (processPacket byte factory fuel s memStream).isSome
      = (loop byte factory (takeRemaining s.m_LogicRemainingBuf memStream).1 fuel
          ⟨0, 0, s.env, s.packets⟩).isSome :=
    fun fuel => Option.isSome_map
  rw [List.nil_append] at hstart
  simp only [hloop]
  exact ⟨fun h => hstart.mp ⟨h.1, h.2⟩, fun h => ⟨(hstart.mpr h).terminates, (hstart.mpr h).forward⟩⟩

theorem loop_of_zero (hhead : p.iTmpHead = pre.length) (htwo : 2 ≤ rest.length)
    (hzero : (readInt16 byte rest).toInt = 0) (fuel : Nat)
    : loop byte factory (pre ++ rest) fuel p = none := by
  induction fuel generalizing p with
  | zero => rfl
  | succ fuel ih =>
    rcases @iteration_cases ω β byte factory pre rest p hhead
      with ⟨hends, -⟩ | ⟨-, p', hnext, hp'⟩
    . omega
    . rw [loop, hnext]
      exact ih (by omega)

def noPackets : PacketFacotry Unit UInt8 := ⟨fun _ _ => none, fun _ _ => ()⟩

theorem processPacket_terminates_counterexample
    : ¬ ∀ (s : State Unit UInt8) (memStream : List UInt8),
        (∃ fuel, (processPacket id noPackets fuel s memStream).isSome = true)
          ∧ ∀ p₁ p₂, Relation.ReflTransGen
              (Continues id noPackets (takeRemaining s.m_LogicRemainingBuf memStream).1)
              ⟨0, 0, s.env, s.packets⟩ p₁
            → Continues id noPackets (takeRemaining s.m_LogicRemainingBuf memStream).1 p₁ p₂
            → p₁.iTmpHead < p₂.iTmpHead
              ∧ p₂.iTmpHead ≤ (takeRemaining s.m_LogicRemainingBuf memStream).1.length := by
  intro hevery
  obtain ⟨⟨fuel, hfuel⟩, -⟩ := hevery ⟨.empty, (), []⟩ [0, 0, 5, 0]
  have hnone : loop id noPackets ([] ++ [0, 0, 5, 0]) fuel ⟨0, 0, (), []⟩ = none :=
    loop_of_zero rfl (by decide) (by decide) fuel
  have hprocess : processPacket id noPackets fuel ⟨.empty, (), []⟩ [0, 0, 5, 0] = none := by
    rw [processPacket]
    exact congrArg (Option.map _) hnone
  rw [hprocess] at hfuel
  contradiction

end LogicRecvHandler

end WzGame
