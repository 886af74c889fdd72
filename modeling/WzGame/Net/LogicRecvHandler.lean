import WzGame.Net.MemoryStream
import WzGame.Net.PacketFactory
import WzGame.Util.Framing

/-!
This module contains how the client takes the packets of the server out of what it has received.
-/

namespace WzGame

open Bytes

namespace LogicRecvHandler

variable {ω β : Type}

def PACKET_HEADER_SIZE : Nat := 2 + 0

def readUInt16 (byte : β → UInt8) (bytes : List β) : UInt16 :=
  .ofNat (ofLittleEndian ((bytes.take 2).map byte))

def readInt16 (byte : β → UInt8) (bytes : List β) : Int16 :=
  .ofBitVec (.ofNat 16 (ofLittleEndian ((bytes.take 2).map byte)))

structure Progress (ω β : Type) where
  iTmpHead : Int
  tmpPacketID : UInt16
  env : ω
  packets : List (Received β)

-- what comes of an iteration: the next one, the bytes that remain when it is the last, or an exception
inductive Iteration (ω β : Type) where
  | next (progress : Progress ω β)
  | leave (progress : Progress ω β) (remaining : List β)
  | throws (progress : Progress ω β)

def iteration (byte : β → UInt8) (factory : PacketFacotry ω β) (buffer : List β)
    (p : Progress ω β) : Iteration ω β :=
  -- a stream cannot seek in front of its beginning
  if p.iTmpHead < 0 then
    .throws p
  else
    let rest := buffer.drop p.iTmpHead.toNat
    let iTmpDeltaLenth : Int := buffer.length - p.iTmpHead
    if iTmpDeltaLenth < PACKET_HEADER_SIZE then
      .leave p rest
    else
      let iTmpPacketUInt32 := readInt16 byte rest
      if iTmpDeltaLenth < iTmpPacketUInt32.toInt then
        .leave p rest
      else
        -- the exception of a stream that is at its end is caught
        let tmpPacketID := if iTmpDeltaLenth < 4 then p.tmpPacketID else readUInt16 byte (rest.drop 2)
        let iTmpHead := p.iTmpHead + iTmpPacketUInt32.toInt
        if factory.createPacket p.env tmpPacketID then
          let iSize := iTmpPacketUInt32 - 4
          -- so is the exception of a negative number of bytes
          if iSize < 0 then
            .next { p with iTmpHead, tmpPacketID }
          else
            let packet := ⟨rest.take 4, tmpPacketID, (rest.drop 4).take iSize.toInt.toNat⟩
            .next {
              iTmpHead
              tmpPacketID
              env := factory.handle p.env packet
              packets := p.packets ++ [packet]
            }
        else
          .next { p with iTmpHead, tmpPacketID }

-- the loop, with the bytes that remain unless it ends with an exception
def loop (byte : β → UInt8) (factory : PacketFacotry ω β) (buffer : List β)
    : Nat → Progress ω β → Option (Progress ω β × Option (List β))
  | 0, _ => none
  | fuel + 1, p =>
    match iteration byte factory buffer p with
    | .next p => loop byte factory buffer fuel p
    | .leave p remaining => some (p, some remaining)
    | .throws p => some (p, none)

structure State (ω β : Type) where
  m_LogicRemainingBuf : MemoryStream β
  env : ω
  packets : List (Received β)

def takeRemaining (m_LogicRemainingBuf : MemoryStream β) (memStream : List β)
    : List β × MemoryStream β :=
  if m_LogicRemainingBuf.buffer = [] then
    (memStream, m_LogicRemainingBuf)
  else
    let m_LogicRemainingBuf := m_LogicRemainingBuf.write memStream
    ((MemoryStream.write ⟨memStream, 0⟩ m_LogicRemainingBuf.buffer).buffer, .empty)

def processPacket (byte : β → UInt8) (factory : PacketFacotry ω β) (fuel : Nat) (s : State ω β)
    (memStream : List β) : Option (State ω β × Bool) :=
  let (buffer, m_LogicRemainingBuf) := takeRemaining s.m_LogicRemainingBuf memStream
  (loop byte factory buffer fuel ⟨0, 0, s.env, s.packets⟩).map fun (p, remaining) =>
    match remaining with
    | none => (⟨m_LogicRemainingBuf, p.env, p.packets⟩, false)
    | some remaining => (⟨m_LogicRemainingBuf.write remaining, p.env, p.packets⟩, true)

structure Valid (byte : β → UInt8) (f : List β) : Prop where
  min : 4 ≤ f.length
  max : f.length ≤ 32767
  length : ofLittleEndian ((f.take 2).map byte) = f.length

theorem Valid.ne_nil {byte : β → UInt8} {f : List β} (hf : Valid byte f) : f ≠ [] := by
  rintro rfl
  have hmin := hf.min
  contradiction

def received (byte : β → UInt8) (f : List β) : Received β :=
  ⟨f.take 4, readUInt16 byte (f.drop 2), f.drop 4⟩

def dispatch (byte : β → UInt8) (factory : PacketFacotry ω β) (s : ω × List (Received β))
    (f : List β) : ω × List (Received β) :=
  let packet := received byte f
  if factory.createPacket s.1 packet.packetID then
    (factory.handle s.1 packet, s.2 ++ [packet])
  else
    s

variable {byte : β → UInt8} {factory : PacketFacotry ω β} {f r pre : List β} {p : Progress ω β}
  {fs rest : List (List β)} {s : State ω β}

theorem readUInt16_append (h : 2 ≤ f.length) : readUInt16 byte (f ++ r) = readUInt16 byte f := by
  rw [readUInt16, readUInt16, List.take_append_of_le_length h]

theorem Valid.toInt_readInt16 (hf : Valid byte f) : (readInt16 byte (f ++ r)).toInt = f.length := by
  have hmin := hf.min
  have hmax := hf.max
  have hmod : f.length % 2 ^ 16 = f.length := Nat.mod_eq_of_lt (by omega)
  rw [readInt16, List.take_append_of_le_length (by omega), hf.length, Int16.toInt_ofBitVec,
    BitVec.toInt_eq_toNat_of_lt]
  . rw [BitVec.toNat_ofNat, hmod]
  . rw [BitVec.toNat_ofNat, hmod]
    omega

theorem Valid.toInt_sub (hf : Valid byte f)
    : (readInt16 byte (f ++ r) - 4).toInt = (f.length - 4 : Nat) := by
  have hmin := hf.min
  have hmax := hf.max
  have hfour : Int16.toInt 4 = 4 := by decide
  rw [Int16.toInt_sub, hf.toInt_readInt16, hfour]
  rw [Int.bmod_eq_of_le]
  . omega
  . omega
  . omega

theorem iteration_frame (hf : Valid byte f) (hhead : p.iTmpHead = pre.length)
    : iteration byte factory (pre ++ (f ++ r)) p
        = .next {
          iTmpHead := p.iTmpHead + f.length
          tmpPacketID := (received byte f).packetID
          env := (dispatch byte factory (p.env, p.packets) f).1
          packets := (dispatch byte factory (p.env, p.packets) f).2
        } := by
  have hmin := hf.min
  have hnonneg : ¬ p.iTmpHead < 0 := by omega
  have hdrop : (pre ++ (f ++ r)).drop p.iTmpHead.toNat = f ++ r := by
    rw [hhead, Int.toNat_natCast, List.drop_left]
  have hdelta : ((pre ++ (f ++ r)).length : Int) - p.iTmpHead = (f.length + r.length : Nat) := by
    rw [List.length_append, List.length_append, hhead]
    omega
  have hid : readUInt16 byte ((f ++ r).drop 2) = (received byte f).packetID := by
    rw [List.drop_append_of_le_length (by omega)]
    exact readUInt16_append (by
      rw [List.length_drop]
      omega)
  have hpacket : (⟨(f ++ r).take 4, (received byte f).packetID,
      ((f ++ r).drop 4).take (f.length - 4)⟩ : Received β) = received byte f := by
    rw [List.take_append_of_le_length hmin, List.drop_append_of_le_length hmin,
      List.take_left' List.length_drop]
    rfl
  have hsize : ¬ readInt16 byte (f ++ r) - 4 < 0 := by
    rw [Int16.lt_iff_toInt_lt, hf.toInt_sub]
    exact Int.not_lt.mpr (Int.natCast_nonneg _)
  have hheader : ¬ ((f.length + r.length : Nat) : Int) < PACKET_HEADER_SIZE := by
    rw [PACKET_HEADER_SIZE]
    omega
  have hwhole : ¬ ((f.length + r.length : Nat) : Int) < f.length := by omega
  have hfour : ¬ ((f.length + r.length : Nat) : Int) < 4 := by omega
  simp only [iteration, if_neg hnonneg, hdrop, hdelta, if_neg hheader, hf.toInt_readInt16,
    if_neg hwhole, if_neg hfour, hid, if_neg hsize, hf.toInt_sub, Int.toNat_natCast, hpacket, dispatch]
  split
  . rfl
  . rfl

theorem iteration_incomplete (hrest : ∀ f ∈ rest, Valid byte f)
    (hr : Framing.Incomplete (fun f => f) r rest) (hhead : p.iTmpHead = pre.length)
    : iteration byte factory (pre ++ r) p = .leave p r := by
  have hnonneg : ¬ p.iTmpHead < 0 := by omega
  have hdrop : (pre ++ r).drop p.iTmpHead.toNat = r := by
    rw [hhead, Int.toNat_natCast, List.drop_left]
  have hdelta : ((pre ++ r).length : Int) - p.iTmpHead = r.length := by
    rw [List.length_append, hhead]
    omega
  simp only [iteration, if_neg hnonneg, hdrop, hdelta]
  split
  . rfl
  . next hlong =>
    simp only [PACKET_HEADER_SIZE] at hlong
    cases rest with
    | nil =>
      have hnil : r = [] := hr
      simp [hnil] at hlong
    | cons f rest =>
      obtain ⟨⟨more, rfl⟩, hlt⟩ := hr
      have hread : (readInt16 byte ((r ++ more) ++ [])).toInt = (r ++ more).length :=
        (hrest _ (by simp)).toInt_readInt16
      rw [readInt16, List.append_nil, List.take_append_of_le_length (by omega)] at hread
      rw [if_pos]
      rw [readInt16, hread]
      exact Int.ofNat_lt.mpr hlt

theorem loop_frames (hfs : ∀ f ∈ fs, Valid byte f) (hrest : ∀ f ∈ rest, Valid byte f)
    (hr : Framing.Incomplete (fun f => f) r rest) {fuel : Nat} (hfuel : fs.flatten.length < fuel)
    (hhead : p.iTmpHead = pre.length)
    : ∃ p', loop byte factory (pre ++ (fs.flatten ++ r)) fuel p = some (p', some r)
        ∧ (p'.env, p'.packets) = fs.foldl (dispatch byte factory) (p.env, p.packets) := by
  obtain ⟨fuel, rfl⟩ : ∃ n, fuel = n + 1 := ⟨fuel - 1, by omega⟩
  induction fs generalizing pre p fuel with
  | nil =>
    refine ⟨p, ?_, rfl⟩
    rw [loop, List.flatten_nil, List.nil_append, iteration_incomplete hrest hr hhead]
  | cons f fs ih =>
    have hf := hfs f (by simp)
    have hmin := hf.min
    rw [List.flatten_cons, List.length_append] at hfuel
    obtain ⟨fuel, rfl⟩ : ∃ n, fuel = n + 1 := ⟨fuel - 1, by omega⟩
    rw [loop, List.flatten_cons, List.append_assoc, iteration_frame hf hhead]
    have hbuffer : pre ++ (f ++ (fs.flatten ++ r)) = (pre ++ f) ++ (fs.flatten ++ r) :=
      (List.append_assoc _ _ _).symm
    simp only
    rw [hbuffer, List.foldl_cons]
    apply ih
    . exact fun f' hf' => hfs f' (by simp [hf'])
    . simp [hhead]
    . omega

theorem loop_fuel {buffer : List β} {fuel fuel' : Nat} {x y : Progress ω β × Option (List β)}
    (hx : loop byte factory buffer fuel p = some x) (hy : loop byte factory buffer fuel' p = some y)
    : x = y := by
  induction fuel generalizing p fuel' with
  | zero => contradiction
  | succ fuel ih =>
    cases fuel' with
    | zero => contradiction
    | succ fuel' =>
      rw [loop] at hx hy
      cases hiteration : iteration byte factory buffer p with
      | next p' =>
        rw [hiteration] at hx hy
        exact ih hx hy
      | leave p' remaining =>
        rw [hiteration] at hx hy
        exact Option.some.inj (hx.symm.trans hy)
      | throws p' =>
        rw [hiteration] at hx hy
        exact Option.some.inj (hx.symm.trans hy)

theorem processPacket_fuel {memStream : List β} {fuel fuel' : Nat} {x y : State ω β × Bool}
    (hx : processPacket byte factory fuel s memStream = some x)
    (hy : processPacket byte factory fuel' s memStream = some y)
    : x = y := by
  obtain ⟨p, hp, rfl⟩ := Option.map_eq_some_iff.mp hx
  obtain ⟨p', hp', rfl⟩ := Option.map_eq_some_iff.mp hy
  rw [loop_fuel hp hp']

theorem takeRemaining_ending {chunk : List β}
    : takeRemaining (.ending r) chunk = (r ++ chunk, .empty) := by
  unfold takeRemaining
  split
  . next hnil =>
    obtain rfl : r = [] := hnil
    rfl
  . rw [MemoryStream.write_ending]
    simp [MemoryStream.write]

theorem processPacket_frames (hfs : ∀ f ∈ fs, Valid byte f) (hrest : ∀ f ∈ rest, Valid byte f)
    {r' chunk : List β} (hcut : r ++ chunk = fs.flatten ++ r')
    (hr' : Framing.Incomplete (fun f => f) r' rest) {fuel : Nat} (hfuel : fs.flatten.length < fuel)
    {s : ω × List (Received β)}
    : processPacket byte factory fuel ⟨.ending r, s.1, s.2⟩ chunk
        = some (⟨.ending r', (fs.foldl (dispatch byte factory) s).1,
          (fs.foldl (dispatch byte factory) s).2⟩, true) := by
  obtain ⟨p, hloop, hp⟩ : ∃ p, loop byte factory ([] ++ (fs.flatten ++ r')) fuel ⟨0, 0, s.1, s.2⟩
        = some (p, some r') ∧ (p.env, p.packets) = fs.foldl (dispatch byte factory) s :=
    loop_frames hfs hrest hr' hfuel rfl
  rw [List.nil_append] at hloop
  have hempty : (MemoryStream.empty : MemoryStream β).write r' = .ending r' :=
    MemoryStream.write_ending.trans (by rw [List.nil_append])
  simp only [processPacket, takeRemaining_ending, hcut, hloop, Option.map_some, hempty]
  rw [← hp]

end LogicRecvHandler

end WzGame
