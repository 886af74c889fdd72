import WzGame.Network.Codec.MessageDecoder
import WzGame.Service.GateDecoder
import WzGame.Util.Pipes

/-!
This module contains the links that the requests are sent over, whose receivers decode packets: what is under way on
them and what has been decoded.
-/

namespace WzGame

open Netty Framing

abbrev PacketLink := Pipe UInt8 (Channel DecoderState CocoPacket)

namespace LengthDecoder

variable {α φ : Type} {read : List UInt8 → Int} {write : Nat → List UInt8} {parse : Nat → List UInt8 → Option α}
  {min max : Nat} {fs : List (List UInt8)} {r : List UInt8} {c : Channel DecoderState α}

theorem settle_out : (settle read c).out = c.out := by
  unfold settle readLength
  split_ifs
  . rfl
  . rfl
  . rfl

theorem Reached.out (H : Reached write read parse min fs r c) : c.out = parseAll parse 0 fs := by
  cases H with
  | whole => exact settle_out
  | short => rfl

theorem incomplete_map {payload : φ → List UInt8} {fs : List φ}
    : Incomplete (frame write) r (fs.map payload) ↔ Incomplete (fun f => frame write (payload f)) r fs := by
  cases fs with
  | nil => rfl
  | cons f fs => rfl

theorem reassembles {payload : φ → List UInt8} {good : φ → Prop} (A : Agrees write read max)
    (hparse : ∀ n f, parse n f = none ↔ f.length < min)
    (hgood : ∀ f, good f → min ≤ (payload f).length ∧ (payload f).length ≤ max)
    : Reassembles (fun f => frame write (payload f)) good (channelRead (decode read parse))
        (fun done r c => Reached write read parse min (done.map payload) r c) := by
  constructor
  . intro f _ hnil
    have hlength := length_frame (f := payload f) A
    simp [hnil] at hlength
    omega
  . intro done r c chunk done' rest' r' hall hat hr hcut hr'
    have hbounds : ∀ f ∈ (done ++ done' ++ rest').map payload, min ≤ f.length ∧ f.length ≤ max := by
      intro f hf
      obtain ⟨p, hp, rfl⟩ := List.mem_map.mp hf
      exact hgood p (hall p hp)
    rw [List.map_append]
    refine hat.channelRead A (fun f hf => (hbounds f hf).2) hparse
      (fun f hf => (hbounds f (List.mem_of_mem_dropLast hf)).1) (by simp) ?_ ?_ (incomplete_map.mpr hr')
    . rw [← List.map_append]
      exact incomplete_map.mpr hr
    . rw [hcut, List.flatMap_map]

end LengthDecoder

namespace MessageDecoder

structure Fits (packet : CocoPacket) : Prop where
  sized : packet.Sized
  short : (packet.bytes.getD []).length ≤ 32743
  received : packet.received = packet

abbrev Carries (link : PacketLink) (done queue : List CocoPacket) : Prop :=
  Framing.Carries (fun packet => LengthDecoder.frame writeLength packet.payload) Fits
    (fun done r c => LengthDecoder.Reached writeLength readLength readPacket MessageHeader.LENGTH
      (done.map (·.payload)) r c) link done queue

variable {link : PacketLink} {done queue : List CocoPacket} {packet : CocoPacket}

theorem reassembles : Reassembles (fun packet => LengthDecoder.frame writeLength packet.payload) Fits
    (channelRead decode) (fun done r c => LengthDecoder.Reached writeLength readLength readPacket MessageHeader.LENGTH
      (done.map (·.payload)) r c) := by
  apply LengthDecoder.reassembles agrees readPacket_eq_none
  intro packet hfits
  have hshort := hfits.short
  rw [CocoPacket.length_payload, CocoPacket.getPacketLength_eq, MessageHeader.LENGTH]
  omega

theorem carries_start : Carries ⟨[], LengthDecoder.start⟩ [] [] := carries_nil (.whole nofun)

theorem carries_write (h : Carries link done queue) (hfits : Fits packet)
    : Carries (link.write packet.writePacket) done (queue ++ [packet]) := by
  rw [← frame_payload hfits.sized]
  exact h.write reassembles hfits

theorem out_of_carries (h : Carries link done queue) : link.receiver.out = done := by
  obtain ⟨r, hat⟩ := h.at
  have hgood : ∀ packet ∈ done, Fits packet := fun packet hpacket => h.good packet (List.mem_append_left _ hpacket)
  rw [hat.out, parseAll_payload fun packet hpacket => (hgood packet hpacket).sized,
    List.map_congr_left fun packet hpacket => (hgood packet hpacket).received, List.map_id']

theorem carries_arrive (h : Carries link done queue) (n : Nat)
    : ∃ later, queue = (link.arrive (channelRead decode) n).receiver.out.drop link.receiver.out.length ++ later
        ∧ Carries (link.arrive (channelRead decode) n) (link.arrive (channelRead decode) n).receiver.out later := by
  obtain ⟨now, later, rfl, h'⟩ := h.arrive reassembles n
  have hout : (link.arrive (channelRead decode) n).receiver.out = done ++ now := out_of_carries h'
  refine ⟨later, ?_, ?_⟩
  . rw [hout, out_of_carries h, List.drop_left]
  . rw [hout]
    exact h'

end MessageDecoder

namespace GateDecoder

variable {seqGene : Nat → Int32} {currentTimeMillis : Nat → Int64} {link : PacketLink} {done queue : List Packet}
  {packet : Packet}

abbrev Carries (seqGene : Nat → Int32) (currentTimeMillis : Nat → Int64) (link : PacketLink) (done queue : List Packet)
    : Prop :=
  Framing.Carries (fun packet => LengthDecoder.frame writeLength (payload packet))
    (fun packet => packet.body.length ≤ 253) (fun done r c => LengthDecoder.Reached writeLength readLength
      (readPacket seqGene currentTimeMillis) 2 (done.map payload) r c) link done queue

theorem reassembles : Reassembles (fun packet => LengthDecoder.frame writeLength (payload packet))
    (fun packet => packet.body.length ≤ 253) (channelRead (decode seqGene currentTimeMillis))
    (fun done r c => LengthDecoder.Reached writeLength readLength (readPacket seqGene currentTimeMillis) 2
      (done.map payload) r c) := by
  apply LengthDecoder.reassembles agrees (readPacket_eq_none seqGene currentTimeMillis)
  intro packet hshort
  rw [length_payload]
  omega

theorem carries_start : Carries seqGene currentTimeMillis ⟨[], LengthDecoder.start⟩ [] [] := carries_nil (.whole nofun)

theorem carries_send (h : Carries seqGene currentTimeMillis link done queue) (hshort : packet.body.length ≤ 253)
    : Carries seqGene currentTimeMillis (link.write (send packet)) done (queue ++ [packet]) := by
  rw [send_eq]
  exact h.write reassembles hshort

theorem requests_of_carries (h : Carries seqGene currentTimeMillis link done queue)
    : requests link.receiver = done.map decoded := by
  obtain ⟨r, hat⟩ := h.at
  rw [requests, hat.out, requests_parseAll]

theorem carries_arrive (h : Carries seqGene currentTimeMillis link done queue) (n : Nat)
    : ∃ done' later, done ++ queue = done' ++ later
        ∧ Carries seqGene currentTimeMillis (link.arrive (channelRead (decode seqGene currentTimeMillis)) n) done'
          later := by
  obtain ⟨now, later, rfl, h'⟩ := h.arrive reassembles n
  exact ⟨done ++ now, later, (List.append_assoc ..).symm, h'⟩

end GateDecoder

end WzGame
