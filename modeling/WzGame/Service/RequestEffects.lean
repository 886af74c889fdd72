import WzGame.Service.RequestDelivery

/-!
This module contains what the requests of a player make of the levels of its equipments: each one that has arrived
counts once, and nobody else's does.
-/

namespace WzGame

open LogicHandler Netty Runs TaggedLists

namespace RequestPath

def playerOf (agent : Option Gate.CocoAgent) : Option Int64 :=
  agent.bind fun agent => if agent.valid then some agent.playerId else none

def equipLevel (players : EntityStorage RyCharacter) (playerId equipId : Int64) : Option Int32 :=
  (players.getEntity playerId).bind fun ch => (ch.charEquip.getEntity equipId).map EquipEntity.level

def Strengthens (setup : Setup) (equipId : Int64) (packet : Packet) : Prop :=
  UInt8.ofNat packet.packetID.toBitVec.toNat = 201 ∧ setup.parseInt64 packet.body = some equipId

instance {setup : Setup} {equipId : Int64} {packet : Packet} : Decidable (Strengthens setup equipId packet) :=
  inferInstanceAs (Decidable (_ ∧ _))

def strengthened (setup : Setup) (agents : Nat → Option Gate.CocoAgent) (playerId equipId : Int64)
    (pushed : List (Nat × Packet)) : Nat :=
  pushed.countP fun p => playerOf (agents p.1) = some playerId ∧ Strengthens setup equipId p.2

/--
The condition of a step: the clients of the player send packets whose length and identifier fit, and no login; their
connections stay as they are, nobody else becomes one of them, and the player is not loaded again.
-/
def Steady (agents : Nat → Option Gate.CocoAgent) (playerId : Int64) (s : State) : Action → Prop
  | .push ctx packet => playerOf (agents ctx) = some playerId →
    packet.body.length ≤ 253 ∧ UInt8.ofNat packet.packetID.toBitVec.toNat ≠ 101
  | .write ctx _ => playerOf (agents ctx) ≠ some playerId
  | .setAgent ctx agent => playerOf (agents ctx) ≠ some playerId ∧ playerOf agent ≠ some playerId
  | .addEntity ch => ch.entityId ≠ playerId
  | a => Allowed s a

def Idle (setup : Setup) (agents : Nat → Option Gate.CocoAgent) (playerId : Int64) (s : State) : Prop :=
  (∀ ctx, playerOf (agents ctx) = some playerId →
    (s.clients ctx).bytes = [] ∧ (s.gates (setup.gateOf ctx)).bytes = []) ∧ s.logic.bytes = []

def CallStrengthens (setup : Setup) (playerId equipId : Int64) (call : LogicHandler.Call) : Prop :=
  call.playerId = playerId ∧ call.handler = .strengthenEquip ∧ setup.parseInt64 call.bytes = some equipId

instance {setup : Setup} {playerId equipId : Int64} {call : LogicHandler.Call}
    : Decidable (CallStrengthens setup playerId equipId call) :=
  inferInstanceAs (Decidable (_ ∧ _))

variable {setup : Setup} {s s' : State} {q : RequestQueues} {agents : Nat → Option Gate.CocoAgent}
  {players : EntityStorage RyCharacter} {ctx gate n : Nat} {playerId equipId : Int64} {call : LogicHandler.Call}

def effect (setup : Setup) (call : LogicHandler.Call) (ch : RyCharacter) : RyCharacter :=
  match call.handler, setup.parseInt64 call.bytes with
  | .strengthenEquip, some value => EquipManager.strengthenEquip ch value
  | .heroLevelUp, some value => HeroManager.heroLevelUp ch value
  | _, _ => ch

theorem getEntity_modify_eq {f : RyCharacter → RyCharacter} {hf : ∀ ch, getEntityId (f ch) = getEntityId ch}
    {id id' : Int64}
    : (players.modify id f hf).getEntity id' = (players.getEntity id').map fun ch => if id' = id then f ch else ch := by
  rw [EntityStorage.getEntity_modify]
  split_ifs with h
  . rw [h]
  . exact Option.map_id'.symm

theorem getEntity_doAction {id : Int64}
    : (doAction setup.parseInt64 players call).getEntity id
        = (players.getEntity id).map fun ch => if id = call.playerId then effect setup call ch else ch := by
  obtain ⟨playerId, handler, bytes⟩ := call
  cases handler with
  | strengthenEquip =>
    cases hvalue : setup.parseInt64 bytes with
    | none => simp [doAction, effect, hvalue]
    | some value => simp only [doAction, effect, hvalue, getEntity_modify_eq]
  | heroLevelUp =>
    cases hvalue : setup.parseInt64 bytes with
    | none => simp [doAction, effect, hvalue]
    | some value => simp only [doAction, effect, hvalue, getEntity_modify_eq]
  | actionPlayerLogin => simp [doAction, effect]
  | formationEquip => simp [doAction, effect]
  | wearEquipment => simp [doAction, effect]

theorem getEntity_strengthenEquip {ch : RyCharacter} {value : Int64}
    : (EquipManager.strengthenEquip ch value).charEquip.getEntity equipId
        = (ch.charEquip.getEntity equipId).map fun equip => if equipId = value then equip.levelUp else equip := by
  have hid : ∀ equip, getEntityId (EquipEntity.levelUp equip) = getEntityId equip := fun _ => rfl
  have hmodify : (EquipManager.strengthenEquip ch value).charEquip
      = ch.charEquip.modify value EquipEntity.levelUp hid := rfl
  rw [hmodify, EntityStorage.getEntity_modify]
  split_ifs with h
  . rw [h]
  . exact Option.map_id'.symm

theorem equipLevel_doAction
    : equipLevel (doAction setup.parseInt64 players call) playerId equipId
        = (equipLevel players playerId equipId).map fun level =>
            if CallStrengthens setup playerId equipId call then level + 1 else level := by
  rw [equipLevel, getEntity_doAction, equipLevel]
  cases players.getEntity playerId with
  | none => rfl
  | some ch =>
    simp only [Option.map_some, Option.bind_some]
    by_cases hplayer : playerId = call.playerId
    . subst hplayer
      rw [if_pos rfl]
      unfold effect
      split
      . next value hhandler hvalue =>
        rw [getEntity_strengthenEquip, Option.map_map, Option.map_map]
        congr 1
        funext equip
        simp only [Function.comp_apply, CallStrengthens, hhandler, hvalue, true_and, Option.some.injEq,
          eq_comm (a := equipId)]
        split_ifs
        . rfl
        . rfl
      . next value hhandler hvalue =>
        have hno : ¬ CallStrengthens setup call.playerId equipId call := by
          rintro ⟨-, hstrengthen, -⟩
          rw [hhandler] at hstrengthen
          contradiction
        simp only [if_neg hno, Option.map_id']
        rfl
      . next h _ =>
        have hno : ¬ CallStrengthens setup call.playerId equipId call := fun h' => h _ h'.2.1 h'.2.2
        simp only [if_neg hno, Option.map_id']
    . have hno : ¬ CallStrengthens setup playerId equipId call := fun h => hplayer h.1.symm
      simp only [if_neg hplayer, if_neg hno, Option.map_id']

theorem playerId_of_playerCall {agent : Option Gate.CocoAgent} {packet : CocoPacket}
    (h : playerCall agent packet = some call)
    : playerOf agent = some call.playerId := by
  unfold playerCall at h
  split at h
  . contradiction
  . next agent =>
    split_ifs at h with hvalid
    . obtain rfl := Option.some.inj h
      simp [playerOf, hvalid]
    . obtain rfl := Option.some.inj h
      simp [playerOf, hvalid]

def callOf (playerId : Int64) (request : Int32 × Option (List UInt8)) : Option LogicHandler.Call :=
  if request.1 = 201 + CocoPacket.REQUEST_FLAG then
    some ⟨playerId, .strengthenEquip, request.2.getD []⟩
  else if request.1 = 202 + CocoPacket.REQUEST_FLAG then
    some ⟨playerId, .wearEquipment, request.2.getD []⟩
  else
    none

theorem playerCall_eq_callOf {agent : Option Gate.CocoAgent} {packet : CocoPacket} (h : playerOf agent = some playerId)
    : playerCall agent packet = callOf playerId (packet.header.reqId, packet.bytes) := by
  cases agent with
  | none => contradiction
  | some agent =>
    simp only [playerOf, Option.bind_some] at h
    split_ifs at h with hvalid
    obtain rfl := Option.some.inj h
    simp only [playerCall, if_pos hvalid, callOf]

theorem decoded_fst_eq {packet : Packet} {b : UInt8} {code : Int32} (hcode : code.toInt = b.toNat)
    : (GateDecoder.decoded packet).1 = code + CocoPacket.REQUEST_FLAG
        ↔ UInt8.ofNat packet.packetID.toBitVec.toNat = b := by
  have hflag : GateDecoder.REQUEST_FLAG = CocoPacket.REQUEST_FLAG := rfl
  rw [GateDecoder.decoded, hflag, Int32.add_left_inj, ← Int32.toInt_inj, Int16.toInt_toInt32,
    GateDecoder.toInt_ofNat_byte, hcode, Int.natCast_inj, UInt8.toNat_inj]

theorem callStrengthens_callOf (playerId : Int64) {packet : Packet}
    : ((callOf playerId (GateDecoder.decoded packet)).any fun call => CallStrengthens setup playerId equipId call)
        = decide (Strengthens setup equipId packet) := by
  have hstrengthen : (GateDecoder.decoded packet).1 = 201 + CocoPacket.REQUEST_FLAG ↔ _ :=
    decoded_fst_eq (b := 201) rfl
  have hbytes : (GateDecoder.decoded packet).2.getD [] = packet.body := rfl
  simp only [callOf, Strengthens, hstrengthen, hbytes]
  split_ifs with h h'
  . simp [CallStrengthens, h]
  . simp [CallStrengthens, h]
  . simp [h]

theorem playerOf_channelRead {packet : CocoPacket} (hfrom : packet.FromClient) (parseFrom : List UInt8 → Option Int32)
    (ctx : Nat) (agent : Option Gate.CocoAgent)
    : playerOf (GateNetHandler.channelRead parseFrom ctx agent packet).1 = playerOf agent
        ∨ packet.header.reqId = 101 + CocoPacket.REQUEST_FLAG
          ∧ playerOf (GateNetHandler.channelRead parseFrom ctx agent packet).1 = none := by
  obtain ⟨code, hreqId, h₀, h⟩ := hfrom
  by_cases hzero : code = 0
  . have hnone : packet.isRequestMessage = none := by
      rw [CocoPacket.isRequestMessage, hreqId, hzero, Int32.zero_add, if_neg Int32.lt_irrefl]
    rw [GateNetHandler.channelRead, hnone]
    exact .inl rfl
  . have hne : code.toInt ≠ 0 := fun h => hzero (Int32.toInt_inj.mp h)
    have hcode : (packet.setReqId code).getReqCode = .getByValue code := rfl
    rw [GateNetHandler.channelRead, isRequestMessage_add hreqId (by omega) (by omega)]
    simp only [hcode]
    split_ifs with hlogin
    . rw [RequestCode.getByValue_byte h] at hlogin
      have hlogin : code = 101 := by
        split_ifs at hlogin with _ h
        exact h
      split
      . exact .inl rfl
      . exact .inr ⟨hlogin ▸ hreqId, rfl⟩
    . split
      . exact .inl rfl
      . split_ifs
        . exact .inl rfl
        . exact .inl rfl

structure Kept (setup : Setup) (agents : Nat → Option Gate.CocoAgent) (playerId : Int64) (s : State) : Prop where
  agent : ∀ ctx, playerOf (s.agents ctx) = some playerId ↔ playerOf (agents ctx) = some playerId
  read : ∀ ctx, ∀ p ∈ s.read ctx, playerOf p.1 = some playerId ↔ playerOf (agents ctx) = some playerId
  clients : ∀ ctx, playerOf (agents ctx) = some playerId → ∃ done queue,
    GateDecoder.Carries (setup.seqGene ctx) (setup.currentTimeMillis ctx) (s.clients ctx) done queue
      ∧ done ++ queue = ofSource ctx s.pushed
  noLogin : ∀ p ∈ s.pushed, playerOf (agents p.1) = some playerId →
    UInt8.ofNat p.2.packetID.toBitVec.toNat ≠ 101

theorem kept_start : Kept setup agents playerId (start agents players) where
  agent _ := Iff.rfl
  read := nofun
  clients _ _ := ⟨[], [], GateDecoder.carries_start, rfl⟩
  noLogin := nofun

theorem Kept.reqId_ne (K : Kept setup agents playerId s) (hplayer : playerOf (agents ctx) = some playerId)
    {packet : CocoPacket} (n : Nat)
    (hpacket : packet ∈ decoded (s.clients ctx) ((s.clients ctx).arrive (channelRead (decodeOf setup ctx)) n))
    : packet.header.reqId ≠ 101 + CocoPacket.REQUEST_FLAG := by
  obtain ⟨done, queue, hcarries, hpushed⟩ := K.clients ctx hplayer
  obtain ⟨done', later, hsplit, hcarries'⟩ := GateDecoder.carries_arrive hcarries n
  have hmem : (packet.header.reqId, packet.bytes) ∈ done'.map GateDecoder.decoded := by
    rw [← GateDecoder.requests_of_carries hcarries']
    exact List.mem_map_of_mem (List.mem_of_mem_drop hpacket)
  obtain ⟨p, hp, hdecoded⟩ := List.mem_map.mp hmem
  have hsource : p ∈ ofSource ctx s.pushed := by
    rw [← hpushed, hsplit]
    exact List.mem_append_left _ hp
  obtain ⟨x, hpush, rfl⟩ := List.mem_map.mp hsource
  obtain ⟨hpushed', hctx⟩ := List.mem_filter.mp hpush
  obtain rfl : x.1 = ctx := of_decide_eq_true hctx
  intro hreqId
  have hcode : (101 : Int32).toInt = (101 : UInt8).toNat := rfl
  refine K.noLogin x hpushed' hplayer ((decoded_fst_eq hcode).mp ?_)
  rw [hdecoded]
  exact hreqId

theorem Kept.readPacket {packet : CocoPacket} (K : Kept setup agents playerId s) (hfrom : packet.FromClient)
    (hlogin : playerOf (agents ctx) = some playerId → packet.header.reqId ≠ 101 + CocoPacket.REQUEST_FLAG)
    : Kept setup agents playerId (readPacket setup ctx s packet) := by
  obtain ⟨gates, hread⟩ := exists_readPacket setup ctx s packet
  rw [hread]
  refine ⟨fun ctx' => ?_, fun ctx' p hp => ?_, K.clients, K.noLogin⟩
  . simp only [Function.update_apply]
    split_ifs with hctx
    . subst hctx
      rcases playerOf_channelRead hfrom setup.parseLoginReq ctx' (s.agents ctx') with hsame | ⟨hreqId, hnone⟩
      . rw [hsame]
        exact K.agent ctx'
      . rw [hnone]
        exact ⟨nofun, fun hplayer => absurd hreqId (hlogin hplayer)⟩
    . exact K.agent ctx'
  . simp only [Function.update_apply] at hp
    split_ifs at hp with hctx
    . subst hctx
      rcases List.mem_append.mp hp with hp | hp
      . exact K.read ctx' p hp
      . obtain rfl := List.mem_singleton.mp hp
        exact K.agent ctx'
    . exact K.read ctx' p hp

theorem Kept.readPackets {packets : List CocoPacket} (K : Kept setup agents playerId s)
    (hfrom : ∀ packet ∈ packets, packet.FromClient) (hlogin : playerOf (agents ctx) = some playerId →
      ∀ packet ∈ packets, packet.header.reqId ≠ 101 + CocoPacket.REQUEST_FLAG)
    : Kept setup agents playerId (packets.foldl (RequestPath.readPacket setup ctx) s) := by
  induction packets generalizing s with
  | nil => exact K
  | cons packet packets ih =>
    apply ih
    . exact K.readPacket (hfrom packet List.mem_cons_self) fun hplayer => hlogin hplayer packet List.mem_cons_self
    . exact fun packet hpacket => hfrom packet (List.mem_cons_of_mem _ hpacket)
    . exact fun hplayer packet hpacket => hlogin hplayer packet (List.mem_cons_of_mem _ hpacket)

theorem Kept.arriveAtGate (K : Kept setup agents playerId s) (h : Received setup s) (ctx n : Nat)
    : Kept setup agents playerId (arriveAtGate setup s ctx n) := by
  have K' : Kept setup agents playerId { s with
      clients := Function.update s.clients ctx ((s.clients ctx).arrive (channelRead (decodeOf setup ctx)) n) } := by
    refine ⟨K.agent, K.read, fun ctx' hplayer => ?_, K.noLogin⟩
    obtain ⟨done, queue, hcarries, hpushed⟩ := K.clients ctx' hplayer
    simp only [Function.update_apply]
    split_ifs with hctx
    . subst hctx
      obtain ⟨done', later, hsplit, hcarries'⟩ := GateDecoder.carries_arrive hcarries n
      exact ⟨done', later, hcarries', hsplit.symm.trans hpushed⟩
    . exact ⟨done, queue, hcarries, hpushed⟩
  apply K'.readPackets
  . exact fun packet hpacket => (h.of_mem ctx n hpacket).2
  . exact fun hplayer packet hpacket => K.reqId_ne hplayer n hpacket

theorem Kept.push {packet : Packet} (K : Kept setup agents playerId s)
    (hfits : playerOf (agents ctx) = some playerId →
      packet.body.length ≤ 253 ∧ UInt8.ofNat packet.packetID.toBitVec.toNat ≠ 101)
    : Kept setup agents playerId { writeToGate s ctx (GateDecoder.send packet) with
        pushed := s.pushed ++ [(ctx, packet)] } := by
  refine ⟨K.agent, K.read, fun ctx' hplayer => ?_, fun p hp hplayer => ?_⟩
  . obtain ⟨done, queue, hcarries, hpushed⟩ := K.clients ctx' hplayer
    simp only [writeToGate, Function.update_apply, ofSource_append, ofSource_cons]
    split_ifs with hctx hctx' hctx'
    . subst hctx
      refine ⟨done, queue ++ [packet], GateDecoder.carries_send hcarries (hfits hplayer).1, ?_⟩
      rw [← hpushed, List.append_assoc]
      rfl
    . exact absurd hctx.symm hctx'
    . exact absurd hctx'.symm hctx
    . exact ⟨done, queue, hcarries, hpushed.trans (List.append_nil _).symm⟩
  . rcases List.mem_append.mp hp with hp | hp
    . exact K.noLogin p hp hplayer
    . obtain rfl := List.mem_singleton.mp hp
      exact (hfits hplayer).2

theorem Kept.step {a : Action} (K : Kept setup agents playerId s) (h : Received setup s)
    (hok : Steady agents playerId s a) (hstep : step setup s a = some s')
    : Kept setup agents playerId s' := by
  cases a with
  | push ctx packet =>
    obtain rfl := Option.some.inj hstep
    exact K.push hok
  | write ctx bytes =>
    obtain rfl := Option.some.inj hstep
    refine ⟨K.agent, K.read, fun ctx' hplayer => ?_, K.noLogin⟩
    have hctx : ctx' ≠ ctx := fun hctx => hok (hctx ▸ hplayer)
    simp only [writeToGate, Function.update_of_ne hctx]
    exact K.clients ctx' hplayer
  | setAgent ctx agent =>
    obtain rfl := Option.some.inj hstep
    refine ⟨fun ctx' => ?_, K.read, K.clients, K.noLogin⟩
    simp only [Function.update_apply]
    split_ifs with hctx
    . rw [hctx]
      exact ⟨fun hplayer => absurd hplayer hok.2, fun hplayer => absurd hplayer hok.1⟩
    . exact K.agent ctx'
  | arriveAtGate ctx n =>
    obtain rfl := Option.some.inj hstep
    exact K.arriveAtGate h ctx n
  | gateSends gate packet =>
    obtain rfl := Option.some.inj hstep
    exact ⟨K.agent, K.read, K.clients, K.noLogin⟩
  | arriveAtCenter gate n =>
    obtain rfl := Option.some.inj hstep
    rw [arriveAtCenter, foldl_relayPacket]
    exact ⟨K.agent, K.read, K.clients, K.noLogin⟩
  | centerSends packet =>
    obtain rfl := Option.some.inj hstep
    exact ⟨K.agent, K.read, K.clients, K.noLogin⟩
  | arriveAtLogic n =>
    obtain rfl := Option.some.inj hstep
    rw [arriveAtLogic, foldl_handlePacket]
    exact ⟨K.agent, K.read, K.clients, K.noLogin⟩
  | addEntity ch =>
    obtain rfl := Option.some.inj hstep
    exact ⟨K.agent, K.read, K.clients, K.noLogin⟩

theorem Steady.allowed {a : Action} (h : Steady agents playerId s a) : Allowed s a := by
  cases a with
  | push => trivial
  | write => trivial
  | setAgent => trivial
  | addEntity => trivial
  | arriveAtGate => trivial
  | gateSends => exact h
  | arriveAtCenter => trivial
  | centerSends => exact h
  | arriveAtLogic => trivial

theorem kept_of_run {as : List Action}
    (hrun : Run (stepOf (step setup)) (Steady agents playerId) (start agents players) as s)
    : Kept setup agents playerId s := by
  refine (hrun.invariant (fun s => Received setup s ∧ (∃ q, Follows s q) ∧ Kept setup agents playerId s)
    ⟨received_start, ⟨_, follows_start⟩, kept_start⟩ ?_).2.2
  rintro s a s' ⟨h, ⟨q, F⟩, K⟩ hok hstep
  obtain ⟨h', q', -, F'⟩ := step_follows F h hok.allowed hstep
  exact ⟨h', ⟨q', F'⟩, K.step h hok hstep⟩

section levels

theorem equipLevel_foldl_doAction {calls : List LogicHandler.Call}
    : equipLevel (calls.foldl (doAction setup.parseInt64) players) playerId equipId
        = (equipLevel players playerId equipId).map fun level =>
            level + Int32.ofNat (calls.countP fun call => CallStrengthens setup playerId equipId call) := by
  induction calls generalizing players with
  | nil => simp
  | cons call calls ih =>
    rw [List.foldl_cons, ih, equipLevel_doAction, Option.map_map, List.countP_cons]
    congr 1
    funext level
    by_cases h : CallStrengthens setup playerId equipId call
    . simp [h, Int32.ofNat_add, Int32.add_assoc, Int32.add_comm]
    . simp [h]

theorem equipLevel_addEntity {ch : RyCharacter} (h : ch.entityId ≠ playerId)
    : equipLevel (players.addEntity ch) playerId equipId = equipLevel players playerId equipId := by
  have hne : getEntityId ch ≠ playerId := h
  rw [equipLevel, EntityStorage.getEntity_addEntity, if_neg hne, equipLevel]

theorem equipLevel_of_run {as : List Action} (hrun : Run (stepOf (step setup)) (Steady agents playerId)
      (start agents players) as s)
    : equipLevel s.players playerId equipId
        = (equipLevel players playerId equipId).map fun level =>
            level + Int32.ofNat (s.calls.countP fun call => CallStrengthens setup playerId equipId call) := by
  refine hrun.invariant (fun s => equipLevel s.players playerId equipId
    = (equipLevel players playerId equipId).map fun level =>
        level + Int32.ofNat (s.calls.countP fun call => CallStrengthens setup playerId equipId call)) ?_ ?_
  . simp [start]
  . intro s a s' hlevel hok hstep
    cases a with
    | push ctx packet =>
      obtain rfl := Option.some.inj hstep
      exact hlevel
    | write ctx bytes =>
      obtain rfl := Option.some.inj hstep
      exact hlevel
    | setAgent ctx agent =>
      obtain rfl := Option.some.inj hstep
      exact hlevel
    | arriveAtGate ctx n =>
      obtain rfl := Option.some.inj hstep
      obtain ⟨agents', gates, read, hread, -⟩ := exists_readPackets setup ctx
        { s with
          clients := Function.update s.clients ctx ((s.clients ctx).arrive (channelRead (decodeOf setup ctx)) n) }
        (decoded (s.clients ctx) ((s.clients ctx).arrive (channelRead (decodeOf setup ctx)) n))
      rw [arriveAtGate, hread]
      exact hlevel
    | gateSends gate packet =>
      obtain rfl := Option.some.inj hstep
      exact hlevel
    | arriveAtCenter gate n =>
      obtain rfl := Option.some.inj hstep
      rw [arriveAtCenter, foldl_relayPacket]
      exact hlevel
    | centerSends packet =>
      obtain rfl := Option.some.inj hstep
      exact hlevel
    | arriveAtLogic n =>
      obtain rfl := Option.some.inj hstep
      rw [arriveAtLogic, foldl_handlePacket]
      simp only [equipLevel_foldl_doAction, hlevel, Option.map_map, List.countP_append]
      congr 1
      funext level
      simp [Int32.ofNat_add, Int32.add_assoc]
    | addEntity ch =>
      obtain rfl := Option.some.inj hstep
      rw [equipLevel_addEntity hok]
      exact hlevel

end levels

section asked

def asked (agents : Nat → Option Gate.CocoAgent) (playerId : Int64) (pushed : List (Nat × Packet))
    : List (Nat × LogicHandler.Call) :=
  pushed.filterMap fun p =>
    (if playerOf (agents p.1) = some playerId then callOf playerId (GateDecoder.decoded p.2) else none).map
      (Prod.mk p.1)

theorem ofSource_asked {pushed : List (Nat × Packet)}
    : ofSource ctx (asked agents playerId pushed)
        = if playerOf (agents ctx) = some playerId then
            (ofSource ctx pushed).filterMap fun packet => callOf playerId (GateDecoder.decoded packet)
          else
            [] := by
  rw [asked, ofSource_filterMap (f := fun ctx packet =>
    if playerOf (agents ctx) = some playerId then callOf playerId (GateDecoder.decoded packet) else none)]
  split_ifs
  . rfl
  . exact List.filterMap_none ..

theorem countP_asked {pushed : List (Nat × Packet)}
    : (asked agents playerId pushed).countP (fun x => CallStrengthens setup playerId equipId x.2)
        = strengthened setup agents playerId equipId pushed := by
  rw [asked, List.countP_filterMap, strengthened]
  apply List.countP_congr
  intro p _
  rw [decide_eq_true_iff, ← decide_eq_true_iff (p := Strengthens setup equipId p.2),
    ← callStrengthens_callOf playerId]
  by_cases hplayer : playerOf (agents p.1) = some playerId
  . rw [if_pos hplayer, Option.map_map]
    cases callOf playerId (GateDecoder.decoded p.2) <;> simp [hplayer]
  . simp [hplayer]

theorem filterMap_of_map_eq {α β γ δ : Type} {f : α → γ} {f' : β → γ} {xs : List α} {ys : List β}
    (h : xs.map f = ys.map f') (g : γ → Option δ)
    : xs.filterMap (fun x => g (f x)) = ys.filterMap fun y => g (f' y) := by
  have hsame := congrArg (List.filterMap g) h
  rwa [List.filterMap_map, List.filterMap_map] at hsame

theorem Kept.exists_playerCalls (K : Kept setup agents playerId s) (h : Received setup s)
    (hplayer : playerOf (agents ctx) = some playerId)
    : ∃ done queue : List Packet, done ++ queue = ofSource ctx s.pushed
        ∧ ((s.clients ctx).bytes = [] → queue = [])
        ∧ (s.read ctx).filterMap (fun p => playerCall p.1 p.2)
          = done.filterMap fun packet => callOf playerId (GateDecoder.decoded packet) := by
  obtain ⟨done, queue, hcarries, hpushed⟩ := K.clients ctx hplayer
  refine ⟨done, queue, hpushed, fun hbytes => hcarries.eq_nil hbytes, ?_⟩
  have hrequests : (s.read ctx).map (fun p => (p.2.header.reqId, p.2.bytes)) = done.map GateDecoder.decoded := by
    rw [← GateDecoder.requests_of_carries hcarries, GateDecoder.requests, ← h.read, List.map_map]
    rfl
  rw [← filterMap_of_map_eq hrequests (callOf playerId)]
  exact List.filterMap_congr fun p hp => playerCall_eq_callOf ((K.read ctx p hp).mpr hplayer)

theorem Kept.filter_playerCalls (K : Kept setup agents playerId s) (hplayer : playerOf (agents ctx) ≠ some playerId)
    : ((s.read ctx).filterMap fun p => playerCall p.1 p.2).filter (fun call =>
          CallStrengthens setup playerId equipId call) = [] := by
  rw [List.filter_eq_nil_iff]
  intro call hcall hstrengthens
  obtain ⟨p, hp, hcall⟩ := List.mem_filterMap.mp hcall
  have hid : call.playerId = playerId := (of_decide_eq_true hstrengthens).1
  exact hplayer ((K.read ctx p hp).mp (hid ▸ playerId_of_playerCall hcall))

theorem countP_calls (F : Follows s q) (I : RequestQueues.Inv setup.parseLoginReq setup.gateOf q)
    (playerId equipId : Int64)
    : s.calls.countP (fun call => CallStrengthens setup playerId equipId call)
        = (RequestQueues.playerCalls q).countP fun x => CallStrengthens setup playerId equipId x.2 := by
  have hmap : (RequestQueues.playerCalls q).countP (fun x => CallStrengthens setup playerId equipId x.2)
      = ((RequestQueues.playerCalls q).map Prod.snd).countP fun call =>
          CallStrengthens setup playerId equipId call := by
    simp only [List.countP_map, Function.comp_def]
  rw [hmap, I.map_playerCalls, ← F.calls, List.countP_filter]
  apply List.countP_congr
  intro call _
  by_cases h : CallStrengthens setup playerId equipId call
  . simp [h, h.2.1]
  . simp [h]

end asked

/--
While the connections of a player stay, the level of an equipment has risen by at most one for each packet that its
clients have sent to strengthen it, and by exactly one when nothing of the player is under way any more.
-/
theorem levels_of_run {as : List Action} (hrun : Run (stepOf (step setup)) (Steady agents playerId)
      (start agents players) as s)
    : ∃ n ≤ strengthened setup agents playerId equipId s.pushed,
        equipLevel s.players playerId equipId
            = (equipLevel players playerId equipId).map (fun level => level + Int32.ofNat n)
          ∧ (Idle setup agents playerId s → n = strengthened setup agents playerId equipId s.pushed) := by
  have K := kept_of_run hrun
  obtain ⟨h, q, ⟨as', hrun'⟩, F⟩ := exists_queues_of_run (hrun.weaken fun _ _ h => h.allowed)
  have I := RequestQueues.inv_of_run hrun'
  have hcount := countP_calls F I playerId equipId
  rw [← countP_asked]
  refine ⟨_, ?_, equipLevel_of_run hrun, fun hidle => ?_⟩
  . rw [hcount]
    refine countP_le (f := fun call => CallStrengthens setup playerId equipId call) fun ctx => ?_
    have hfront := I.playerCalls_prefix ctx
    rw [← F.read] at hfront
    rw [ofSource_asked]
    split_ifs with hplayer
    . obtain ⟨done, queue, hpushed, -, hcalls⟩ := K.exists_playerCalls h hplayer
      rw [hcalls] at hfront
      rw [← hpushed, List.filterMap_append]
      exact (hfront.trans (List.prefix_append _ _)).filter _
    . have hnil := hfront.filter fun call => CallStrengthens setup playerId equipId call
      rw [K.filter_playerCalls hplayer] at hnil
      exact hnil.trans List.nil_prefix
  . rw [hcount]
    refine countP_eq (f := fun call => CallStrengthens setup playerId equipId call) fun ctx => ?_
    rw [ofSource_asked]
    split_ifs with hplayer
    . obtain ⟨done, queue, hpushed, hnil, hcalls⟩ := K.exists_playerCalls h hplayer
      obtain ⟨hclient, hgate⟩ := hidle.1 ctx hplayer
      obtain ⟨doneGate, hcarries⟩ := F.gates (setup.gateOf ctx)
      obtain ⟨doneLogic, hcarries'⟩ := F.logic
      have hgates : q.gates (setup.gateOf ctx) = [] := List.map_eq_nil_iff.mp (hcarries.eq_nil hgate)
      have hlogic : q.logic = [] := List.map_eq_nil_iff.mp (hcarries'.eq_nil hidle.2)
      rw [I.playerCalls_eq hgates hlogic, ← F.read, hcalls, ← hpushed, hnil hclient, List.append_nil]
    . have hnil := (I.playerCalls_prefix ctx).filter fun call => CallStrengthens setup playerId equipId call
      rw [← F.read, K.filter_playerCalls hplayer, List.prefix_nil] at hnil
      exact hnil

theorem levels_of_run_oneRequest
    : ∃ s, Run (stepOf (step oneSetup)) (Steady oneAgent 7) (start oneAgent onePlayer) oneRequest s
        ∧ Idle oneSetup oneAgent 7 s ∧ equipLevel s.players 7 5 = some 2 := by
  obtain ⟨s, hrun, hpushed, hclient, hgate, hlogic⟩ : ∃ s, Run (stepOf (step oneSetup)) anyLabel
      (start oneAgent onePlayer) oneRequest s ∧ s.pushed = [(1, ⟨201, some [8, 5]⟩)] ∧ (s.clients 1).bytes = []
        ∧ (s.gates 0).bytes = [] ∧ s.logic.bytes = [] := Run.exists_of_foldlM (by decide)
  have hsteady : ∀ a ∈ oneRequest, ∀ s, Steady oneAgent 7 s a := by
    simp [oneRequest, Steady, Allowed, Packet.body]
  have hrun' := (hrun.label hsteady).weaken fun s _ h => h s
  have hidle : Idle oneSetup oneAgent 7 s := by
    refine ⟨fun ctx hplayer => ?_, hlogic⟩
    obtain rfl : ctx = 1 := by
      by_contra hctx
      simp [oneAgent, hctx, playerOf] at hplayer
    exact ⟨hclient, hgate⟩
  obtain ⟨n, -, hlevel, hn⟩ := levels_of_run hrun'
  have hone : strengthened oneSetup oneAgent 7 5 s.pushed = 1 := by
    rw [hpushed]
    decide
  have hstart : equipLevel onePlayer 7 5 = some 1 := by decide
  rw [hn hidle, hone, hstart] at hlevel
  exact ⟨s, hrun', hidle, hlevel⟩

end RequestPath

end WzGame
