import WzGame.Net.Packet
import WzGame.Network.Codec.LengthDecoderStreams
import WzGame.Packet.CocoPacket

/-!
This module contains the decoder of the packets that the clients send to the gate.
-/

namespace WzGame

open Netty

namespace GateDecoder

def REQUEST_FLAG : Int32 := 0x10000000

-- `LittleEndianByteBufUtil.readShort(in)`
def readLength (bytes : List UInt8) : Int :=
  ((LittleEndianByteBufUtil.readShort bytes).map fun p => p.1.toInt).getD 0

def readPacket (seqGene : Nat → Int32) (currentTimeMillis : Nat → Int64) (n : Nat) (obj : List UInt8)
    : Option CocoPacket :=
  (LittleEndianByteBufUtil.readShort obj).map fun (reqCode, bytes) =>
    .create (seqGene n) (currentTimeMillis n) (reqCode.toInt32 + REQUEST_FLAG) (some bytes) 0

def decode (seqGene : Nat → Int32) (currentTimeMillis : Nat → Int64)
    : Channel DecoderState CocoPacket → Channel DecoderState CocoPacket × Bool :=
  LengthDecoder.decode readLength (readPacket seqGene currentTimeMillis)

def receive (seqGene : Nat → Int32) (currentTimeMillis : Nat → Int64) (chunks : List (List UInt8))
    : Channel DecoderState CocoPacket :=
  chunks.foldl (channelRead (decode seqGene currentTimeMillis)) LengthDecoder.start

def send (packet : Packet) : List UInt8 := (packet.writePacket id .empty).buffer

def request (packet : Packet) : Int32 × Option (List UInt8) :=
  (packet.packetID + REQUEST_FLAG, some packet.body)

def requests (c : Channel DecoderState CocoPacket) : List (Int32 × Option (List UInt8)) :=
  c.out.map fun packet => (packet.header.reqId, packet.bytes)

def writeLength (length : Nat) : List UInt8 := Packet.writeInt16 (.ofInt length)

def payload (packet : Packet) : List UInt8 :=
  Packet.writeUInt16 (Packet.uint16 packet.packetID) ++ packet.body

variable {seqGene : Nat → Int32} {currentTimeMillis : Nat → Int64} {n : Nat} {a b : UInt8}
  {f bs : List UInt8} {packet : Packet} {packets : List Packet} {chunks : List (List UInt8)}

theorem toInt_ofNat_byte : (Int16.ofBitVec (.ofNat 16 a.toNat)).toInt = a.toNat := by
  have ha := a.toNat_lt
  have hmod : a.toNat % 2 ^ 16 = a.toNat := Nat.mod_eq_of_lt (by omega)
  rw [Int16.toInt_ofBitVec, BitVec.toInt_eq_toNat_of_lt]
  . rw [BitVec.toNat_ofNat, hmod]
  . rw [BitVec.toNat_ofNat, hmod]
    omega

theorem readLength_eq : readLength (a :: b :: bs) = a.toNat := by
  rw [readLength, LittleEndianByteBufUtil.readShort_eq]
  exact toInt_ofNat_byte

theorem readLength_nonneg (bs : List UInt8) : 0 ≤ readLength bs := by
  rcases bs with _ | ⟨a, _ | ⟨b, bs⟩⟩
  . exact Int.le_refl 0
  . exact Int.le_refl 0
  . rw [readLength_eq]
    omega

theorem readLength_writeLength : readLength (writeLength n) = (n % 256 : Nat) := by
  have hlow : (Int16.ofInt n).toBitVec.toNat % 256 = n % 256 := by
    rw [Int16.toBitVec_ofInt, BitVec.toNat_ofInt]
    omega
  show readLength (.ofNat _ :: .ofNat _ :: []) = _
  rw [readLength_eq, UInt8.toNat_ofNat', ← hlow]

theorem agrees : LengthDecoder.Agrees writeLength readLength 255 := by
  refine ⟨fun _ => Packet.length_writeInt16, ?_⟩
  intro n hn
  rw [readLength_writeLength, Nat.mod_eq_of_lt (by omega)]

theorem readPacket_eq_none (seqGene : Nat → Int32) (currentTimeMillis : Nat → Int64) (n : Nat)
    (f : List UInt8)
    : readPacket seqGene currentTimeMillis n f = none ↔ f.length < 2 := by
  rw [readPacket, Option.map_eq_none_iff]
  rcases f with _ | ⟨a, _ | ⟨b, bs⟩⟩
  . simp [LittleEndianByteBufUtil.readShort]
  . simp [LittleEndianByteBufUtil.readShort]
  . simp [LittleEndianByteBufUtil.readShort]

def decoded (packet : Packet) : Int32 × Option (List UInt8) :=
  ((Int16.ofBitVec (.ofNat 16 (UInt8.ofNat packet.packetID.toBitVec.toNat).toNat)).toInt32
    + REQUEST_FLAG, some packet.body)

theorem readPacket_payload
    : (readPacket seqGene currentTimeMillis n (payload packet)).map
          (fun packet => (packet.header.reqId, packet.bytes))
        = some (decoded packet) := by
  have hpayload : payload packet
      = .ofNat (Packet.uint16 packet.packetID).toNat
        :: .ofNat ((Packet.uint16 packet.packetID).toNat / 256) :: packet.body := rfl
  have hlow : UInt8.ofNat (Packet.uint16 packet.packetID).toNat
      = .ofNat packet.packetID.toBitVec.toNat := by
    apply UInt8.toNat_inj.mp
    rw [UInt8.toNat_ofNat', UInt8.toNat_ofNat']
    show (packet.packetID.toBitVec.setWidth 16).toNat % 2 ^ 8 = _
    rw [BitVec.toNat_setWidth]
    omega
  rw [hpayload, readPacket, LittleEndianByteBufUtil.readShort_eq, hlow]
  rfl

theorem decoded_eq_request_iff (hid : 0 ≤ packet.packetID.toInt)
    : decoded packet = request packet ↔ packet.packetID.toInt < 256 := by
  have hnat : packet.packetID.toInt = packet.packetID.toBitVec.toNat := by
    apply BitVec.toInt_eq_toNat_of_msb
    rw [BitVec.msb_eq_toInt, decide_eq_false_iff_not]
    exact Int.not_lt.mpr hid
  rw [decoded, request, Prod.mk.injEq, and_iff_left rfl, Int32.add_left_inj, ← Int32.toInt_inj,
    Int16.toInt_toInt32, toInt_ofNat_byte, hnat, UInt8.toNat_ofNat']
  omega

theorem length_payload : (payload packet).length = 2 + packet.body.length := by
  simp [payload]

theorem send_eq : send packet = writeLength (payload packet).length ++ payload packet := by
  have hwritten : send packet = Packet.written 0 packet :=
    congrArg MemoryStream.buffer Packet.writePacket_empty
  rw [hwritten, Packet.written, payload, writeLength, List.append_assoc]
  congr 3
  rw [List.length_append, Packet.length_writeUInt16]
  omega

theorem requests_parseAll
    : (LengthDecoder.parseAll (readPacket seqGene currentTimeMillis) n (packets.map payload)).map
          (fun packet => (packet.header.reqId, packet.bytes))
        = packets.map decoded := by
  induction packets generalizing n with
  | nil => rfl
  | cons packet packets ih =>
    have hpacket : (readPacket seqGene currentTimeMillis n (payload packet)).map _
        = some (decoded packet) := readPacket_payload
    obtain ⟨p, hp, hdecoded⟩ := Option.map_eq_some_iff.mp hpacket
    rw [List.map_cons, List.map_cons, LengthDecoder.parseAll, hp]
    simp only [List.map_cons]
    rw [ih, hdecoded]

theorem length_of_readPacket {r : Int32}
    (h : (readPacket seqGene currentTimeMillis n f).map
        (fun packet => (packet.header.reqId, packet.bytes)) = some (r, some bs))
    : f.length = 2 + bs.length := by
  rcases f with _ | ⟨a, _ | ⟨b, f⟩⟩
  . simp [readPacket, LittleEndianByteBufUtil.readShort] at h
  . simp [readPacket, LittleEndianByteBufUtil.readShort] at h
  . rw [readPacket, LittleEndianByteBufUtil.readShort_eq, Option.map_some, Option.map_some,
      Option.some.injEq, Prod.mk.injEq] at h
    obtain rfl : f = bs := Option.some.inj h.2
    rw [List.length_cons, List.length_cons]
    omega

theorem fits_of_entries {es : List (LengthDecoder.Entry CocoPacket)} {rest : List UInt8}
    (hvalid : ∀ e ∈ es, ∃ n, e.Valid readLength (readPacket seqGene currentTimeMillis) n)
    (hout : es.map (fun e => (e.packet.header.reqId, e.packet.bytes)) = packets.map request)
    (hstream : packets.flatMap send = es.flatMap LengthDecoder.Entry.bytes ++ rest)
    : ∀ packet ∈ packets, decoded packet = request packet ∧ packet.body.length ≤ 253 := by
  induction packets generalizing es with
  | nil => simp
  | cons packet packets ih =>
    cases es with
    | nil => simp at hout
    | cons e es =>
      rw [List.map_cons, List.map_cons, List.cons.injEq] at hout
      rw [List.flatMap_cons, List.flatMap_cons, List.append_assoc] at hstream
      obtain ⟨n, hlength, hread, hpacket⟩ := hvalid e (by simp)
      have hrequest := congrArg (Option.map fun p => (p.header.reqId, p.bytes)) hpacket
      rw [Option.map_some, hout.1] at hrequest
      have hobj : e.obj.length = 2 + packet.body.length := length_of_readPacket hrequest
      have hbytes : send packet = e.bytes := by
        apply List.append_inj_left hstream
        rw [send_eq, LengthDecoder.Entry.bytes, List.length_append, List.length_append, hlength, hobj,
          agrees.length, length_payload]
      have hrest := hstream
      rw [hbytes, List.append_cancel_left_eq] at hrest
      rw [send_eq, LengthDecoder.Entry.bytes] at hbytes
      obtain ⟨hlength', hpayload⟩ := List.append_inj hbytes (by rw [agrees.length, hlength])
      have hdecoded : decoded packet = request packet := by
        rw [← hpayload, readPacket_payload, Option.some.injEq] at hrequest
        exact hrequest
      have hle : packet.body.length ≤ 253 := by
        rw [← hlength', readLength_writeLength, hobj, length_payload] at hread
        omega
      intro p hp
      rcases List.mem_cons.mp hp with rfl | hp
      . exact ⟨hdecoded, hle⟩
      . exact ih (fun e he => hvalid e (by simp [he])) hout.2 hrest p hp

/--
The gate gets the requests of a client if and only if all identifiers and lengths fit into a byte.
-/
theorem requests_receive_iff (hid : ∀ packet ∈ packets, 0 ≤ packet.packetID.toInt)
    (hchunks : chunks.flatten = packets.flatMap send)
    : requests (receive seqGene currentTimeMillis chunks) = packets.map request
        ↔ ∀ packet ∈ packets, packet.packetID.toInt < 256 ∧ packet.body.length ≤ 253 := by
  constructor
  . intro h packet hpacket
    obtain ⟨es, pre, hreceived, hout, hvalid, -⟩ := LengthDecoder.traced_of_chunks
      readLength_nonneg (readPacket_eq_none seqGene currentTimeMillis) chunks
    have hes : ∀ e ∈ es, ∃ n, e.Valid readLength (readPacket seqGene currentTimeMillis) n := by
      intro e he
      obtain ⟨n, hn, rfl⟩ := List.getElem_of_mem he
      exact ⟨n, hvalid n hn⟩
    have hrequests : es.map (fun e => (e.packet.header.reqId, e.packet.bytes))
        = packets.map request := by
      rw [← h, requests, receive, decode, hout, List.map_map]
      rfl
    rw [hchunks, List.append_assoc] at hreceived
    obtain ⟨hdecoded, hle⟩ := fits_of_entries hes hrequests hreceived packet hpacket
    exact ⟨(decoded_eq_request_iff (hid packet hpacket)).mp hdecoded, hle⟩
  . intro hfits
    have hstream : chunks.flatten
        = (packets.map payload).flatMap (LengthDecoder.frame writeLength) := by
      rw [hchunks, List.flatMap_map]
      exact List.flatMap_congr fun packet _ => send_eq
    have hlength : ∀ f ∈ packets.map payload, 2 ≤ f.length ∧ f.length ≤ 255 := by
      intro f hf
      obtain ⟨packet, hpacket, rfl⟩ := List.mem_map.mp hf
      have hle := (hfits packet hpacket).2
      rw [length_payload]
      omega
    have H := LengthDecoder.reached_of_stream agrees (fun f hf => (hlength f hf).2)
      (readPacket_eq_none seqGene currentTimeMillis)
      (fun f hf => (hlength f (List.mem_of_mem_dropLast hf)).1) hstream
    have hreceive : receive seqGene currentTimeMillis chunks = _ :=
      H.eq_pass fun f hf => (hlength f hf).1
    rw [requests, hreceive]
    show (LengthDecoder.parseAll _ 0 _).map _ = _
    rw [requests_parseAll]
    apply List.map_congr_left
    intro packet hpacket
    exact (decoded_eq_request_iff (hid packet hpacket)).mpr (hfits packet hpacket).1

theorem requests_receive_iff_ping
    : let packets : List Packet := [⟨101, some [8, 200]⟩, ⟨100, none⟩]
      let bytes := packets.flatMap send
      requests (receive .ofNat .ofNat [bytes.take 1, (bytes.drop 1).take 8, bytes.drop 9])
          = packets.map request
        ↔ ∀ packet ∈ packets, packet.packetID.toInt < 256 ∧ packet.body.length ≤ 253 := by
  apply requests_receive_iff
  . decide
  . decide

theorem requests_receive_counterexample
    : requests (receive .ofNat .ofNat [send ⟨256, some [8]⟩]) ≠ [request ⟨256, some [8]⟩] := by
  decide

end GateDecoder

end WzGame
