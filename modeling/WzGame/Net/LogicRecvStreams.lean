import WzGame.Net.LogicRecvHandler
import WzGame.Net.Packet
import WzGame.Packet.PacketCreator

/-!
This module contains what the client makes of the frames of the gate, in whatever buffers it receives
them.
-/

namespace WzGame

open Bytes Framing

namespace LogicRecvHandler

variable {ω : Type}

abbrev Response := Int32 × Option (List UInt8)

def frame (response : Response) : List UInt8 := PacketCreator.create response.1 response.2

def packet (response : Response) : Received UInt8 :=
  ⟨(frame response).take 4, Packet.uint16 response.1, response.2.getD []⟩

def handOver (factory : PacketFacotry ω UInt8) (s : ω × List (Received UInt8)) (response : Response)
    : ω × List (Received UInt8) :=
  if factory.createPacket s.1 (Packet.uint16 response.1) then
    (factory.handle s.1 (packet response), s.2 ++ [packet response])
  else
    s

def processPackets (factory : PacketFacotry ω UInt8) (fuel : Nat) (env : ω)
    (buffers : List (List UInt8)) : Option (State ω UInt8) :=
  buffers.foldl (fun s memStream => s.bind fun s =>
    (processPacket id factory fuel s memStream).map Prod.fst) (some ⟨.empty, env, []⟩)

variable {factory : PacketFacotry ω UInt8} {response : Response} {responses rest : List Response}
  {env : ω} {fuel : Nat} {buffers : List (List UInt8)} {r : List UInt8}

theorem valid_frame (h : 4 + (response.2.getD []).length ≤ 32767) : Valid id (frame response) := by
  constructor
  . simp [frame]
  . simpa [frame] using h
  . rw [List.map_id]
    exact PacketCreator.ofLittleEndian_take_create h

theorem received_frame : received id (frame response) = packet response := by
  have hid : readUInt16 id ((frame response).drop 2) = Packet.uint16 response.1 := by
    rw [readUInt16, frame, PacketCreator.drop_create, List.take_left' PacketCreator.length_writeShort,
      List.map_id, PacketCreator.ofLittleEndian_writeShort]
    apply UInt16.toNat_inj.mp
    show _ = (response.1.toBitVec.setWidth 16).toNat
    rw [UInt16.toNat_ofNat', BitVec.toNat_setWidth]
    omega
  rw [received, hid, frame, PacketCreator.drop_four_create]
  rfl

theorem dispatch_frame {s : ω × List (Received UInt8)}
    : dispatch id factory s (frame response) = handOver factory s response := by
  simp only [dispatch, received_frame, handOver]
  rfl

theorem foldl_dispatch {s : ω × List (Received UInt8)}
    : (responses.map frame).foldl (dispatch id factory) s
        = responses.foldl (handOver factory) s := by
  rw [List.foldl_map]
  simp only [dispatch_frame]

theorem incomplete_map : Incomplete frame r rest ↔ Incomplete (fun f => f) r (rest.map frame) := by
  cases rest with
  | nil => rfl
  | cons response rest => rfl

/--
Of the buffers that have been processed, the whole frames have been handed over, and the beginning of
the next one remains.
-/
theorem processPackets_frames
    (hlength : ∀ response ∈ responses, 4 + (response.2.getD []).length ≤ 32767)
    (hbuffers : buffers.flatten <+: responses.flatMap frame)
    (hfuel : (responses.flatMap frame).length < fuel)
    : ∃ done rest r, responses = done ++ rest ∧ buffers.flatten = done.flatMap frame ++ r
        ∧ Incomplete frame r rest
        ∧ (buffers.flatten = responses.flatMap frame → rest = [] ∧ r = [])
        ∧ processPackets factory fuel env buffers
          = some ⟨.ending r, (done.foldl (handOver factory) (env, [])).1,
            (done.foldl (handOver factory) (env, [])).2⟩ := by
  let feed (s : Option (State ω UInt8)) (memStream : List UInt8) : Option (State ω UInt8) :=
    s.bind fun s => (processPacket id factory fuel s memStream).map Prod.fst
  let At (done : List Response) (r : List UInt8) (s : Option (State ω UInt8)) : Prop :=
    s = some ⟨.ending r, (done.foldl (handOver factory) (env, [])).1,
      (done.foldl (handOver factory) (env, [])).2⟩
  have hvalid : ∀ fs ⊆ responses, ∀ f ∈ fs.map frame, Valid id f := by
    intro fs hfs f hf
    obtain ⟨response, hresponse, rfl⟩ := List.mem_map.mp hf
    exact valid_frame (hlength response (hfs hresponse))
  have hfeed : ∀ done r s chunk done' rest' r', At done r s → Incomplete frame r (done' ++ rest')
      → r ++ chunk = done'.flatMap frame ++ r' → Incomplete frame r' rest'
      → responses = done ++ done' ++ rest' → At (done ++ done') r' (feed s chunk) := by
    rintro done r _ chunk done' rest' r' rfl - hcut hr' hresponses
    rw [List.flatMap_def] at hcut
    have hle : (done'.map frame).flatten.length < fuel := by
      rw [hresponses, List.flatMap_append, List.flatMap_append, List.length_append,
        List.length_append] at hfuel
      rw [← List.flatMap_def]
      omega
    have hprocess : processPacket id factory fuel ⟨.ending r,
        (done.foldl (handOver factory) (env, [])).1, (done.foldl (handOver factory) (env, [])).2⟩ chunk
          = _ :=
      processPacket_frames (hvalid done' (by simp [hresponses])) (hvalid rest' (by simp [hresponses]))
        hcut (incomplete_map.mp hr') hle
    rw [foldl_dispatch, ← List.foldl_append] at hprocess
    show Option.bind _ _ = _
    rw [Option.bind_some, hprocess, Option.map_some]
  have hframe : ∀ response ∈ responses, frame response ≠ [] := by
    exact fun response hresponse => (valid_frame (hlength response hresponse)).ne_nil
  obtain ⟨done, rest, r, hresponses, hflatten, hr, (hat : At done r _)⟩ :=
    reassemble hfeed rfl hframe hbuffers
  refine ⟨done, rest, r, hresponses, hflatten, hr, ?_, hat⟩
  intro hall
  rw [hresponses] at hall
  exact eq_of_incomplete hr (hall.symm.trans hflatten)

theorem processPackets_frames_login
    : let responses : List Response := [(30101, some [8, 200, 1]), (7, none)]
      let factory : PacketFacotry Unit UInt8 :=
        ⟨fun _ packetID => if packetID = 30101 then some ⟨true, none⟩ else none, fun env _ => env⟩
      let bytes := responses.flatMap frame
      let buffers := [bytes.take 1, (bytes.drop 1).take 5, bytes.drop 6]
      ∃ done rest r, responses = done ++ rest ∧ buffers.flatten = done.flatMap frame ++ r
        ∧ Incomplete frame r rest
        ∧ (buffers.flatten = responses.flatMap frame → rest = [] ∧ r = [])
        ∧ processPackets factory 100 () buffers
          = some ⟨.ending r, (done.foldl (handOver factory) ((), [])).1,
            (done.foldl (handOver factory) ((), [])).2⟩ := by
  apply processPackets_frames
  . decide
  . decide
  . decide

end LogicRecvHandler

end WzGame
