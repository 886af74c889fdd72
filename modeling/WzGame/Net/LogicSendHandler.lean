import WzGame.Net.Packet

/-!
This module contains the buffer that the client collects its packets in before they are sent, and what
lengths the packets have in it.
-/

namespace WzGame

open Bytes

namespace LogicSendHandler

def writePackets (packets : List Packet) : MemoryStream UInt8 :=
  packets.foldl (fun m_LogicSendBuf packet => packet.writePacket id m_LogicSendBuf) .empty

def offset (packets : List Packet) (i : Nat) : Nat :=
  ((packets.take i).map fun packet => 4 + packet.body.length).sum

def lengthAt (buffer : List UInt8) (i : Nat) : Nat := ofLittleEndian ((buffer.drop i).take 2)

def split : Nat → List UInt8 → List (UInt16 × List UInt8)
  | 0, _ => []
  | fuel + 1, buffer =>
    if buffer.length < 2 then
      []
    else
      let packet := (buffer.drop 2).take (lengthAt buffer 0)
      (.ofNat (ofLittleEndian (packet.take 2)), packet.drop 2)
        :: split fuel (buffer.drop (2 + lengthAt buffer 0))

structure Batched (packets : List Packet) (buffer : List UInt8) : Prop where
  lengths : ∀ (i : Nat) (h : i < packets.length),
    lengthAt buffer (offset packets i) = 2 + packets[i].body.length
  split : split buffer.length buffer
    = packets.map fun packet => (Packet.uint16 packet.packetID, packet.body)

variable {packet packet' : Packet} {packets : List Packet} {n : Nat}

theorem writePackets_ending (packets : List Packet) (bytes : List UInt8)
    : ∃ more, packets.foldl (fun m_LogicSendBuf packet => packet.writePacket id m_LogicSendBuf)
        (.ending bytes) = .ending (bytes ++ more) := by
  induction packets generalizing bytes with
  | nil => exact ⟨[], by simp⟩
  | cons packet packets ih =>
    rw [List.foldl_cons, Packet.writePacket_ending, List.map_id]
    obtain ⟨more, hmore⟩ := ih (bytes ++ packet.written bytes.length)
    exact ⟨packet.written bytes.length ++ more, by rw [hmore, List.append_assoc]⟩

theorem lengthAt_written (packet : Packet) (n : Nat) (rest : List UInt8)
    : lengthAt (packet.written n ++ rest) 0 = (n + 2 + packet.body.length) % 65536 := by
  have htake : (packet.written n ++ rest).take 2
      = Packet.writeInt16 (.ofInt (n + 2 + packet.body.length)) := by
    rw [Packet.written, List.append_assoc, List.append_assoc, List.take_left' Packet.length_writeInt16]
  rw [lengthAt, List.drop_zero, htake, Packet.writeInt16, ofLittleEndian_littleEndian,
    Int16.toBitVec_ofInt, BitVec.toNat_ofInt]
  omega

theorem split_nil : split n [] = [] := by
  cases n with
  | zero => rfl
  | succ n => rfl

theorem batched_singleton (hbody : packet.body.length ≤ 32765)
    : Batched [packet] (writePackets [packet]).buffer := by
  have hbuffer : (writePackets [packet]).buffer = packet.written 0 :=
    congrArg MemoryStream.buffer Packet.writePacket_empty
  have hlength : lengthAt (packet.written 0) 0 = 2 + packet.body.length := by
    have h := lengthAt_written packet 0 []
    rw [List.append_nil] at h
    omega
  have hdrop : (packet.written 0).drop 2
      = Packet.writeUInt16 (Packet.uint16 packet.packetID) ++ packet.body := by
    rw [Packet.written, List.append_assoc, List.drop_left' Packet.length_writeInt16]
  rw [hbuffer]
  constructor
  . intro i hi
    obtain rfl : i = 0 := by simpa using hi
    exact hlength
  . have hfuel : 4 + packet.body.length = (3 + packet.body.length) + 1 := by omega
    have hlong : ¬ (packet.written 0).length < 2 := by
      rw [Packet.length_written]
      omega
    have htake : ((packet.written 0).drop 2).take (2 + packet.body.length)
        = Packet.writeUInt16 (Packet.uint16 packet.packetID) ++ packet.body := by
      rw [hdrop, List.take_of_length_le]
      simp
    have hnil : (packet.written 0).drop (2 + (2 + packet.body.length)) = [] := by
      rw [List.drop_eq_nil_iff, Packet.length_written]
      omega
    rw [Packet.length_written, hfuel, split, if_neg hlong]
    simp only [hlength, htake, hnil, split_nil, List.map_cons, List.map_nil]
    rw [List.take_left' Packet.length_writeUInt16, List.drop_left' Packet.length_writeUInt16,
      Packet.ofNat_writeUInt16]

theorem not_batched_of_two (hbody : packet.body.length ≤ 32765)
    : ¬ Batched (packet :: packet' :: packets) (writePackets (packet :: packet' :: packets)).buffer := by
  obtain ⟨more, hmore⟩ := writePackets_ending packets
    (packet.written 0 ++ packet'.written (packet.written 0).length)
  have hbuffer : (writePackets (packet :: packet' :: packets)).buffer
      = packet.written 0 ++ (packet'.written (packet.written 0).length ++ more) := by
    rw [writePackets, List.foldl_cons, List.foldl_cons, Packet.writePacket_empty,
      Packet.writePacket_ending, List.map_id]
    exact (congrArg MemoryStream.buffer hmore).trans (List.append_assoc _ _ _)
  intro h
  have hlength := h.lengths 1 (by simp)
  have hoffset : offset (packet :: packet' :: packets) 1 = (packet.written 0).length := by
    simp [offset]
  rw [hoffset, hbuffer, lengthAt, List.drop_left] at hlength
  have hwritten := lengthAt_written packet' (packet.written 0).length more
  rw [lengthAt, List.drop_zero, hlength, Packet.length_written] at hwritten
  simp only [List.getElem_cons_succ, List.getElem_cons_zero] at hwritten
  omega

/-- All packets of the buffer have their own lengths if and only if there is at most one. -/
theorem batched_iff (hbody : ∀ packet ∈ packets, packet.body.length ≤ 32765)
    : Batched packets (writePackets packets).buffer ↔ packets.length ≤ 1 := by
  rcases packets with _ | ⟨packet, _ | ⟨packet', packets⟩⟩
  . simp only [List.length_nil, Nat.zero_le, iff_true]
    exact ⟨by simp, rfl⟩
  . simp only [List.length_singleton, Nat.le_refl, iff_true]
    exact batched_singleton (hbody packet (by simp))
  . simp only [List.length_cons, Nat.reduceLeDiff, iff_false]
    exact not_batched_of_two (hbody packet (by simp))

theorem batched_iff_requests
    : Batched [⟨101, some [8, 200, 1]⟩] (writePackets [⟨101, some [8, 200, 1]⟩]).buffer
        ∧ ¬ Batched [⟨101, some [8, 200, 1]⟩, ⟨201, some [8, 5]⟩]
          (writePackets [⟨101, some [8, 200, 1]⟩, ⟨201, some [8, 5]⟩]).buffer := by
  constructor
  . exact (batched_iff (by decide)).mpr (by decide)
  . intro h
    exact absurd ((batched_iff (by decide)).mp h) (by decide)

theorem batched_counterexample
    : ¬ Batched [⟨101, some [8, 200, 1]⟩, ⟨100, none⟩]
        (writePackets [⟨101, some [8, 200, 1]⟩, ⟨100, none⟩]).buffer := by
  intro h
  have hlength := h.lengths 1 (by decide)
  revert hlength
  decide

end LogicSendHandler

end WzGame
