import WzGame.Service.RequestHandlers

/-!
This module contains what becomes of a request that a gate has read from a client: which codes are passed on to the
logic server, and which call they lead to.
-/

namespace WzGame

open LogicHandler CocoPacket

namespace CocoPacket

@[simp]
theorem setReqId_setReqId {packet : CocoPacket} {reqId reqId' : Int32}
    : (packet.setReqId reqId).setReqId reqId' = packet.setReqId reqId' := rfl

@[simp]
theorem setPlayerId_setReqId {packet : CocoPacket} {reqId : Int32} {playerId : Int64}
    : (packet.setReqId reqId).setPlayerId playerId = (packet.setPlayerId playerId).setReqId reqId := rfl

theorem setReqId_eq {packet : CocoPacket} {reqId : Int32} (h : packet.header.reqId = reqId)
    : packet.setReqId reqId = packet := by
  rw [← h]
  rfl

def FromClient (packet : CocoPacket) : Prop :=
  ∃ code : Int32, packet.header.reqId = code + REQUEST_FLAG ∧ 0 ≤ code.toInt ∧ code.toInt < 256

end CocoPacket

variable {packet : CocoPacket} {code : Int32} {agent : Option Gate.CocoAgent}
  {parseFrom : List UInt8 → Option Int32} {ctx : Nat}

theorem toInt_add_flag (h₀ : 0 ≤ code.toInt) (h : code.toInt < 2 ^ 16)
    : (code + REQUEST_FLAG).toInt = code.toInt + 0x10000000 := by
  have hflag : REQUEST_FLAG.toInt = 0x10000000 := rfl
  rw [Int32.toInt_add, hflag, Int.bmod_eq_of_le (by omega) (by omega)]

theorem isRequestMessage_add (hreqId : packet.header.reqId = code + REQUEST_FLAG) (h₀ : 0 < code.toInt)
    (h : code.toInt < 2 ^ 16)
    : packet.isRequestMessage = some (packet.setReqId code) := by
  have hgt : packet.header.reqId > REQUEST_FLAG := by
    rw [gt_iff_lt, Int32.lt_iff_toInt_lt, hreqId, toInt_add_flag (by omega) h]
    have hflag : REQUEST_FLAG.toInt = 0x10000000 := rfl
    omega
  rw [isRequestMessage, if_pos hgt, hreqId, Int32.add_sub_cancel]

namespace CenterMessageHandler

theorem channelRead_eq (hreqId : packet.header.reqId = code + REQUEST_FLAG) (h₀ : 0 < code.toInt)
    (h : code.toInt < 2 ^ 16)
    : channelRead packet = if (RequestCode.getByValue code).getSendTo = .logic then some packet else none := by
  have hlt : code < REQUEST_FLAG := by
    rw [Int32.lt_iff_toInt_lt]
    have hflag : REQUEST_FLAG.toInt = 0x10000000 := rfl
    omega
  have hsent : ServerSession.sendRequest (packet.setReqId code) = packet := (if_pos hlt).trans (setReqId_eq hreqId)
  have hcode : (packet.setReqId code).getReqCode = .getByValue code := rfl
  rw [channelRead, isRequestMessage_add hreqId h₀ h]
  simp only [Option.bind_eq_bind, Option.bind_some, handPacket, hcode, hsent]
  split_ifs <;> simp_all

end CenterMessageHandler

namespace LogicHandler

theorem messageReceived_eq (hreqId : packet.header.reqId = code + REQUEST_FLAG) (h₀ : 0 < code.toInt)
    (h : code.toInt < 2 ^ 16)
    : messageReceived packet
        = if (RequestCode.getByValue code).getSendTo = .logic then
            (actionHandlers code).map fun handler => ⟨packet.header.playerId, handler, packet.bytes.getD []⟩
          else
            none := by
  rw [messageReceived, isRequestMessage_add hreqId h₀ h]
  rfl

end LogicHandler

def playerCall (agent : Option Gate.CocoAgent) (packet : CocoPacket) : Option LogicHandler.Call :=
  match agent with
  | none => none
  | some agent =>
    if agent.valid then
      if packet.header.reqId = 201 + REQUEST_FLAG then
        some ⟨agent.playerId, .strengthenEquip, packet.bytes.getD []⟩
      else if packet.header.reqId = 202 + REQUEST_FLAG then
        some ⟨agent.playerId, .wearEquipment, packet.bytes.getD []⟩
      else
        none
    else
      none

theorem handler_of_playerCall {call : LogicHandler.Call} (h : playerCall agent packet = some call)
    : call.handler ≠ .actionPlayerLogin := by
  unfold playerCall at h
  split at h
  . contradiction
  . split_ifs at h
    . obtain rfl := Option.some.inj h
      nofun
    . obtain rfl := Option.some.inj h
      nofun

namespace GateNetHandler

def request (parseFrom : List UInt8 → Option Int32) (ctx : Nat) (agent : Option Gate.CocoAgent) (packet : CocoPacket)
    : Option CocoPacket :=
  (channelRead parseFrom ctx agent packet).2.bind CenterMessageHandler.channelRead

theorem channelRead_sent (hreqId : packet.header.reqId = code + REQUEST_FLAG) (h₀ : 0 ≤ code.toInt)
    (h : code.toInt < 256)
    : (channelRead parseFrom ctx agent packet).2
        = if code = 0 then none else if code = 101 then some packet
          else agent.bind fun curAgent =>
            if curAgent.valid ∧ (code = 202 ∨ code = 201) then
              some (packet.setPlayerId curAgent.playerId)
            else
              none := by
  by_cases hzero : code = 0
  . subst hzero
    have hnone : packet.isRequestMessage = none := by
      rw [isRequestMessage, hreqId, Int32.zero_add, if_neg (Int32.lt_irrefl)]
    rw [channelRead, hnone, if_pos rfl]
  . have hpos : 0 < code.toInt := by
      have hne : code.toInt ≠ 0 := fun h => hzero (Int32.toInt_inj.mp h)
      omega
    have hcode (p : CocoPacket) : (p.setReqId code).getReqCode = .getByValue code := rfl
    have hsent : NetClient.sendRequest (packet.setReqId code) = packet := setReqId_eq hreqId
    have hsent' (id : Int64)
        : NetClient.sendRequest ((packet.setPlayerId id).setReqId code) = packet.setPlayerId id := by
      have hreqId' : (packet.setPlayerId id).header.reqId = code + REQUEST_FLAG := hreqId
      exact setReqId_eq hreqId'
    rw [channelRead, isRequestMessage_add hreqId hpos (by omega), if_neg hzero]
    have hlogin : RequestCode.getByValue code = .accountLogin ↔ code = 101 := by
      rw [RequestCode.getByValue_byte h]
      split_ifs <;> simp_all
    simp only [hcode, hlogin, hsent]
    split_ifs with hlogin
    . split <;> rfl
    . cases agent with
      | none => rfl
      | some curAgent =>
        simp only [Option.bind_some, setPlayerId_setReqId, GateServerHandler.handPacket, hcode, hsent',
          RequestCode.getSendTo_byte h, if_neg hlogin]
        split_ifs <;> simp_all

theorem request_eq (hreqId : packet.header.reqId = code + REQUEST_FLAG) (h₀ : 0 ≤ code.toInt) (h : code.toInt < 256)
    : request parseFrom ctx agent packet
        = agent.bind fun curAgent =>
            if curAgent.valid ∧ (code = 202 ∨ code = 201) then
              some (packet.setPlayerId curAgent.playerId)
            else
              none := by
  have hcenter (p : CocoPacket) (hp : p.header.reqId = code + REQUEST_FLAG) (hzero : code ≠ 0)
        : CenterMessageHandler.channelRead p = if code = 202 ∨ code = 201 then some p else none := by
    have hne : code.toInt ≠ 0 := fun h => hzero (Int32.toInt_inj.mp h)
    rw [CenterMessageHandler.channelRead_eq hp (by omega) (by omega), RequestCode.getSendTo_byte h]
    split_ifs <;> simp_all
  rw [request, channelRead_sent hreqId h₀ h]
  split_ifs with hzero hlogin
  . cases agent <;> simp [hzero]
  . subst hlogin
    rw [Option.bind_some, hcenter packet hreqId hzero]
    cases agent <;> simp
  . cases agent with
    | none => rfl
    | some curAgent =>
      simp only [Option.bind_some]
      split_ifs with hok
      . exact (hcenter (packet.setPlayerId curAgent.playerId) hreqId hzero).trans (if_pos hok.2)
      . rfl

theorem request_bind_messageReceived (hfrom : packet.FromClient)
    : (request parseFrom ctx agent packet).bind messageReceived = playerCall agent packet := by
  obtain ⟨code, hreqId, h₀, h⟩ := hfrom
  rw [request_eq hreqId h₀ h]
  cases agent with
  | none => rfl
  | some curAgent =>
    have hsame (c : Int32) : packet.header.reqId = c + REQUEST_FLAG ↔ code = c := by
      rw [hreqId, Int32.add_left_inj]
    simp only [Option.bind_some, playerCall, hsame]
    by_cases hok : curAgent.valid ∧ (code = 202 ∨ code = 201)
    . have hreqId' : (packet.setPlayerId curAgent.playerId).header.reqId = code + REQUEST_FLAG := hreqId
      have hpos : 0 < code.toInt := by
        rcases hok.2 with rfl | rfl
        . decide
        . decide
      rw [if_pos hok, Option.bind_some, messageReceived_eq hreqId' hpos (by omega), RequestCode.getSendTo_byte h]
      obtain ⟨hvalid, rfl | rfl⟩ := hok
      . rw [if_pos hvalid]
        rfl
      . rw [if_pos hvalid]
        rfl
    . rw [if_neg hok, Option.bind_none]
      split_ifs <;> simp_all

end GateNetHandler

end WzGame
