import WzGame.Network.Codec.LengthDecoderStreams
import WzGame.Packet.CocoPacket

/-!
This module contains the decoder of the packets that the servers send to each other.
-/

namespace WzGame

open Netty

namespace MessageDecoder

-- `in.readShort()`
def readLength (bytes : List UInt8) : Int := ((ByteBuf.readShort bytes).map fun p => p.1.toInt).getD 0

def writeLength (length : Nat) : List UInt8 := ByteBuf.writeShort (.ofInt length)

def readPacket (_ : Nat) (obj : List UInt8) : Option CocoPacket :=
  (CocoPacket.readPacket obj).map (·.setPacketLength (.ofInt obj.length))

def decode : Channel DecoderState CocoPacket → Channel DecoderState CocoPacket × Bool :=
  LengthDecoder.decode readLength readPacket

def receive (chunks : List (List UInt8)) : Channel DecoderState CocoPacket :=
  chunks.foldl (channelRead decode) LengthDecoder.start

variable {n : Nat} {f : List UInt8} {packet : CocoPacket} {packets : List CocoPacket}
  {chunks fs : List (List UInt8)}

theorem readLength_writeLength : readLength (writeLength n) = (n : Int).bmod 65536 := by
  have hread : ByteBuf.readShort (ByteBuf.writeShort (.ofInt n) ++ []) = some (.ofInt n, []) :=
    ByteBuf.readShort_writeShort
  rw [List.append_nil] at hread
  rw [readLength, writeLength, hread]
  exact Int16.toInt_ofInt

theorem readLength_eq_iff : readLength (writeLength n) = n ↔ n ≤ 32767 := by
  rw [readLength_writeLength]
  constructor
  . intro h
    have hlt := Int.bmod_lt (x := n) (m := 65536) (by decide)
    omega
  . intro h
    apply Int.bmod_eq_of_le
    . omega
    . omega

theorem agrees : LengthDecoder.Agrees writeLength readLength 32767 :=
  ⟨fun _ => ByteBuf.length_writeShort, fun _ => readLength_eq_iff.mpr⟩

theorem readPacket_eq_none (n : Nat) (f : List UInt8)
    : readPacket n f = none ↔ f.length < MessageHeader.LENGTH := by
  rw [readPacket, Option.map_eq_none_iff, CocoPacket.readPacket_eq_none]

theorem readPacket_payload (hsized : packet.Sized)
    : readPacket n packet.payload = some packet.received := by
  rw [readPacket, CocoPacket.readPacket_payload, CocoPacket.length_payload, ← hsized]
  rfl

theorem frame_payload (hsized : packet.Sized)
    : LengthDecoder.frame writeLength packet.payload = packet.writePacket := by
  rw [LengthDecoder.frame, CocoPacket.writePacket_eq, writeLength, CocoPacket.length_payload, hsized]

theorem parseAll_payload (hsized : ∀ packet ∈ packets, packet.Sized)
    : LengthDecoder.parseAll readPacket n (packets.map (·.payload)) = packets.map (·.received) := by
  induction packets generalizing n with
  | nil => rfl
  | cons packet packets ih =>
    rw [List.map_cons, LengthDecoder.parseAll, readPacket_payload (hsized packet (by simp))]
    simp only [List.map_cons]
    rw [ih fun p hp => hsized p (by simp [hp])]

/-- Packets that fit into the length are received as they were written. -/
theorem receive_writePacket (hsized : ∀ packet ∈ packets, packet.Sized)
    (hbody : ∀ packet ∈ packets, (packet.bytes.getD []).length ≤ 32743)
    (hchunks : chunks.flatten = packets.flatMap (·.writePacket))
    : (receive chunks).out = packets.map (·.received) ∧ (receive chunks).state.length = -1
        ∧ (receive chunks).input = [] := by
  have hstream : chunks.flatten
      = (packets.map (·.payload)).flatMap (LengthDecoder.frame writeLength) := by
    rw [hchunks, List.flatMap_map]
    exact List.flatMap_congr fun packet hpacket => (frame_payload (hsized packet hpacket)).symm
  have hlength : ∀ f ∈ packets.map (·.payload), MessageHeader.LENGTH ≤ f.length ∧ f.length ≤ 32767 := by
    intro f hf
    obtain ⟨packet, hpacket, rfl⟩ := List.mem_map.mp hf
    have hle := hbody packet hpacket
    rw [CocoPacket.length_payload, CocoPacket.getPacketLength_eq, MessageHeader.LENGTH]
    omega
  have H := LengthDecoder.reached_of_stream agrees (fun f hf => (hlength f hf).2)
    readPacket_eq_none
    (fun f hf => (hlength f (List.mem_of_mem_dropLast hf)).1) hstream
  have hreceive : receive chunks = _ := H.eq_pass fun f hf => (hlength f hf).1
  rw [hreceive]
  refine ⟨?_, rfl, rfl⟩
  simp only [LengthDecoder.pass, LengthDecoder.start, Channel.open, List.nil_append, List.length_nil]
  exact parseAll_payload hsized

theorem receive_writePacket_chunks
    : let packets := [CocoPacket.create 7 1000 3 (some [1, 2, 255]) 42,
        .create 8 1001 (-4) none (-1)]
      let bytes := packets.flatMap (·.writePacket)
      let chunks := [bytes.take 1, (bytes.drop 1).take 9, (bytes.drop 10).take 20, bytes.drop 30]
      (receive chunks).out = packets.map (·.received) ∧ (receive chunks).state.length = -1
        ∧ (receive chunks).input = [] := by
  apply receive_writePacket
  . simp [CocoPacket.sized_create]
  . decide
  . decide

def LengthRight (packet : CocoPacket) : Prop :=
  readLength (packet.writePacket.take 2) = (packet.writePacket.drop 2).length

theorem lengthRight_iff (hsized : packet.Sized)
    : LengthRight packet ↔ (packet.bytes.getD []).length ≤ 32743 := by
  have htake : packet.writePacket.take 2 = writeLength packet.payload.length := by
    rw [← frame_payload hsized, LengthDecoder.frame, List.take_left' (agrees.length _)]
  have hdrop : packet.writePacket.drop 2 = packet.payload := by
    rw [← frame_payload hsized, LengthDecoder.frame, List.drop_left' (agrees.length _)]
  rw [LengthRight, htake, hdrop, readLength_eq_iff, CocoPacket.length_payload,
    CocoPacket.getPacketLength_eq, MessageHeader.LENGTH]
  omega

def NeverDerails (fs : List (List UInt8)) : Prop :=
  ∀ chunks : List (List UInt8), chunks.flatten = fs.flatMap (LengthDecoder.frame writeLength)
    → LengthDecoder.Delimited readPacket fs (receive chunks)

/--
The length of a packet is right if and only if its body is short enough, and a stream of frames is
delimited if and only if no frame but the last one is shorter than a header.
-/
theorem delimits_iff (seqGene reqId : Int32) (currentTimeMillis playerId : Int64)
    (bytes : Option (List UInt8)) (hmax : ∀ f ∈ fs, f.length ≤ 32767)
    : (LengthRight (.create seqGene currentTimeMillis reqId bytes playerId)
          ↔ (bytes.getD []).length ≤ 32743)
        ∧ (NeverDerails fs ↔ ∀ f ∈ fs.dropLast, MessageHeader.LENGTH ≤ f.length) :=
  ⟨lengthRight_iff CocoPacket.sized_create,
    LengthDecoder.delimited_iff agrees hmax readPacket_eq_none⟩

theorem delimits_iff_short
    : (LengthRight (.create 7 1000 3 (some [1, 2, 255]) 42)
          ↔ ((some [1, 2, 255]).getD []).length ≤ 32743)
        ∧ (NeverDerails [List.replicate 24 0, []]
          ↔ ∀ f ∈ [List.replicate 24 (0 : UInt8), []].dropLast, MessageHeader.LENGTH ≤ f.length) :=
  delimits_iff 7 3 1000 42 (some [1, 2, 255]) (by decide)

theorem delimits_counterexample
    : ¬ LengthRight (.create 7 1000 3 (some (.replicate 32744 0)) 42)
        ∧ ¬ NeverDerails [[], List.replicate 24 0] := by
  have hlength : ¬ (List.replicate 32744 (0 : UInt8)).length ≤ 32743 := by
    rw [List.length_replicate]
    decide
  constructor
  . exact (lengthRight_iff CocoPacket.sized_create).not.mpr hlength
  . exact (LengthDecoder.delimited_iff agrees (by decide) readPacket_eq_none).not.mpr (by decide)

end MessageDecoder

end WzGame
