import WzGame.Service.RequestPath

/-!
This module contains that the way of the requests through the servers is the one of the queues: whatever the clients
write and however it arrives, the calls of the logic server are those of the requests that the gates have read.
-/

namespace WzGame

open LogicHandler MessageDecoder Netty Runs TaggedLists

namespace MessageDecoder

variable {packet packet' : CocoPacket}

theorem Fits.setReqId (h : Fits packet) (reqId : Int32) : Fits (packet.setReqId reqId) := by
  refine ⟨h.sized, h.short, ?_⟩
  have hbytes : some (packet.bytes.getD []) = packet.bytes := congrArg CocoPacket.bytes h.received
  rw [CocoPacket.received, CocoPacket.setReqId, hbytes]

theorem Fits.setPlayerId (h : Fits packet) (playerId : Int64) : Fits (packet.setPlayerId playerId) := by
  refine ⟨h.sized, h.short, ?_⟩
  have hbytes : some (packet.bytes.getD []) = packet.bytes := congrArg CocoPacket.bytes h.received
  rw [CocoPacket.received, CocoPacket.setPlayerId, hbytes]

theorem Fits.isRequestMessage (h : Fits packet) (hrequest : packet.isRequestMessage = some packet') : Fits packet' := by
  unfold CocoPacket.isRequestMessage at hrequest
  split_ifs at hrequest
  obtain rfl := Option.some.inj hrequest
  exact h.setReqId _

theorem Fits.relayed (h : Fits packet) (hsent : CenterMessageHandler.channelRead packet = some packet')
    : Fits packet' := by
  obtain ⟨request, hrequest, hsent⟩ := Option.bind_eq_some_iff.mp hsent
  obtain ⟨⟨sendTo, sent⟩, hhand, hsent⟩ := Option.bind_eq_some_iff.mp hsent
  have hfits := h.isRequestMessage hrequest
  simp only [CenterMessageHandler.handPacket] at hhand
  split_ifs at hhand
  obtain ⟨-, rfl⟩ := Prod.mk.inj (Option.some.inj hhand)
  replace hsent : (if sendTo = .logic then some (ServerSession.sendRequest request) else none) = some packet' := hsent
  split_ifs at hsent
  obtain rfl := Option.some.inj hsent
  rw [ServerSession.sendRequest, CocoPacket.resetReqIdToRequest]
  split_ifs
  . exact hfits.setReqId _
  . exact hfits

theorem Fits.sent {parseFrom : List UInt8 → Option Int32} {ctx : Nat} {agent : Option Gate.CocoAgent} (h : Fits packet)
    (hsent : (GateNetHandler.channelRead parseFrom ctx agent packet).2 = some packet')
    : Fits packet' := by
  unfold GateNetHandler.channelRead at hsent
  split at hsent
  case h_1 => contradiction
  case h_2 request hrequest =>
    have hfits := h.isRequestMessage hrequest
    split_ifs at hsent
    . have hlogin : NetClient.sendRequest request = packet' := by
        split at hsent
        . exact Option.some.inj hsent
        . exact Option.some.inj hsent
      rw [← hlogin]
      exact hfits.setReqId _
    . split at hsent
      case h_1 => contradiction
      case h_2 curAgent =>
        split_ifs at hsent
        simp only [GateServerHandler.handPacket] at hsent
        split_ifs at hsent
        obtain rfl := Option.some.inj hsent
        exact (hfits.setPlayerId _).setReqId _

end MessageDecoder

namespace LengthDecoder

variable {α : Type} {read : List UInt8 → Int} {parse : Nat → List UInt8 → Option α} {c : Channel DecoderState α}

theorem decode_out : c.out <+: (decode read parse c).1.out := by
  have hlength : (readLength read c).out = c.out := by
    unfold readLength
    split_ifs
    . rfl
    . rfl
  unfold decode decodeFrame
  split_ifs
  . exact List.prefix_rfl
  . rw [hlength]
  . rw [hlength]
  . unfold readFrame
    simp only
    split
    . rw [← hlength]
      rfl
    . rw [← hlength]
      exact List.prefix_append _ _

theorem channelRead_out {chunk : List UInt8} : c.out <+: (channelRead (decode read parse) c chunk).out := by
  rw [channelRead_eq]
  apply decodeAll_invariant fun c' => c.out <+: c'.out
  . exact fun c' h => h.trans decode_out
  . exact fun c' h _ => h.trans decode_out
  . exact fun c' h => h.trans decode_out
  . exact List.prefix_rfl

end LengthDecoder

namespace GateDecoder

variable {seqGene : Nat → Int32} {currentTimeMillis : Nat → Int64} {n : Nat} {obj : List UInt8} {packet : CocoPacket}

theorem of_readPacket (h : readPacket seqGene currentTimeMillis n obj = some packet) (hlength : obj.length ≤ 255)
    : Fits packet ∧ packet.FromClient := by
  rcases obj with _ | ⟨a, _ | ⟨b, body⟩⟩
  . contradiction
  . contradiction
  . rw [readPacket, LittleEndianByteBufUtil.readShort_eq] at h
    obtain rfl := Option.some.inj h
    have hcode : (Int16.ofBitVec (.ofNat 16 a.toNat)).toInt32.toInt = a.toNat := by
      rw [Int16.toInt_toInt32, toInt_ofNat_byte]
    have ha := a.toNat_lt
    refine ⟨⟨CocoPacket.sized_create, ?_, rfl⟩, _, rfl, by omega, by omega⟩
    show body.length ≤ 32743
    simp only [List.length_cons] at hlength
    omega

theorem readLength_le (bs : List UInt8) : readLength bs ≤ 255 := by
  rcases bs with _ | ⟨a, _ | ⟨b, bs⟩⟩
  . decide
  . show (0 : Int) ≤ 255
    decide
  . have ha := a.toNat_lt
    rw [readLength_eq]
    omega

theorem of_mem_receive {chunks : List (List UInt8)}
    (h : packet ∈ (receive seqGene currentTimeMillis chunks).out)
    : Fits packet ∧ packet.FromClient := by
  obtain ⟨es, -, -, hout, hvalid, -⟩ := LengthDecoder.traced_of_chunks
    readLength_nonneg (readPacket_eq_none seqGene currentTimeMillis) chunks
  replace hout : (receive seqGene currentTimeMillis chunks).out = es.map LengthDecoder.Entry.packet := hout
  rw [hout] at h
  obtain ⟨e, he, rfl⟩ := List.mem_map.mp h
  obtain ⟨n, hn, rfl⟩ := List.getElem_of_mem he
  obtain ⟨-, hread, hpacket⟩ := hvalid n hn
  have hle := readLength_le es[n].length
  exact of_readPacket hpacket (by omega)

end GateDecoder

namespace RequestQueues

variable {parseFrom : List UInt8 → Option Int32} {gateOf : Nat → Nat} {q : RequestQueues} {gate : Nat}
  {now later : List Sent}

def relayed (sent : List Sent) : List Sent :=
  sent.flatMap fun p => (CenterMessageHandler.channelRead p.2).toList.map fun packet => (p.1, packet)

def Leads (parseFrom : List UInt8 → Option Int32) (gateOf : Nat → Nat) (q q' : RequestQueues) : Prop :=
  ∃ as, Run (stepOf (step parseFrom gateOf)) Allowed q as q'

theorem Leads.refl : Leads parseFrom gateOf q q := ⟨[], .start⟩

theorem Leads.trans {q' q'' : RequestQueues} (h : Leads parseFrom gateOf q q') (h' : Leads parseFrom gateOf q' q'')
    : Leads parseFrom gateOf q q'' := by
  obtain ⟨as, hrun⟩ := h
  obtain ⟨as', hrun'⟩ := h'
  exact ⟨as ++ as', hrun.append hrun'⟩

theorem leads_of_step {q' : RequestQueues} {a : Action} (hok : Allowed q a)
    (hstep : step parseFrom gateOf q a = some q')
    : Leads parseFrom gateOf q q' :=
  ⟨[] ++ [a], .next .start hok hstep⟩

theorem leads_relay (h : q.gates gate = now ++ later)
    : Leads parseFrom gateOf q { q with
        gates := Function.update q.gates gate later
        logic := q.logic ++ relayed now } := by
  induction now generalizing q with
  | nil =>
    have hsame : Function.update q.gates gate later = q.gates := by
      rw [← List.nil_append later, ← h, Function.update_eq_self]
    rw [hsame, relayed, List.flatMap_nil, List.append_nil]
    exact .refl
  | cons p now ih =>
    let q' : RequestQueues := { q with
      gates := Function.update q.gates gate (now ++ later)
      logic := q.logic ++ relayed [p] }
    have hstep : step parseFrom gateOf q (.relay gate) = some q' := by
      simp [step, h, q', relayed]
    have hrest : Leads parseFrom gateOf q' { q' with
        gates := Function.update q'.gates gate later
        logic := q'.logic ++ relayed now } := ih (Function.update_self ..)
    have hend : { q with
        gates := Function.update q.gates gate later
        logic := q.logic ++ relayed (p :: now) } = { q' with
        gates := Function.update q'.gates gate later
        logic := q'.logic ++ relayed now } := by
      simp [q', relayed]
    rw [hend]
    exact (leads_of_step (a := .relay gate) trivial hstep).trans hrest

theorem leads_handle (h : q.logic = now ++ later)
    : Leads parseFrom gateOf q { q with
        logic := later
        done := q.done ++ now } := by
  induction now generalizing q with
  | nil =>
    rw [List.append_nil, ← List.nil_append later, ← h]
    exact .refl
  | cons p now ih =>
    have hstep : step parseFrom gateOf q .handle
        = some { q with logic := now ++ later, done := q.done ++ [p] } := by
      simp [step, h]
    have hrest : Leads parseFrom gateOf { q with logic := now ++ later, done := q.done ++ [p] } { q with
        logic := later
        done := q.done ++ [p] ++ now } := ih rfl
    rw [List.append_assoc] at hrest
    exact (leads_of_step (a := .handle) trivial hstep).trans hrest

end RequestQueues

namespace RequestPath

structure Follows (s : State) (q : RequestQueues) : Prop where
  gates : ∀ gate, ∃ done, Carries (s.gates gate) done ((q.gates gate).map Prod.snd)
  logic : ∃ done, Carries s.logic done (q.logic.map Prod.snd)
  read : s.read = q.read
  calls : s.calls = q.done.filterMap fun p => messageReceived p.2

variable {setup : Setup} {s s' : State} {q : RequestQueues} {agents : Nat → Option Gate.CocoAgent}
  {players : EntityStorage RyCharacter} {ctx gate n : Nat} {packet : CocoPacket} {packets : List CocoPacket}

theorem follows_start : Follows (start agents players) .start :=
  ⟨fun _ => ⟨[], carries_start⟩, ⟨[], carries_start⟩, rfl, rfl⟩

theorem Follows.writeToCenter (F : Follows s q) (gate : Nat) (hfits : Fits packet) (from' : Option Nat)
    : Follows (writeToCenter s gate packet) (q.put gate [(from', packet)]) := by
  refine ⟨fun gate' => ?_, F.logic, F.read, F.calls⟩
  simp only [RequestPath.writeToCenter, RequestQueues.put_gates, Function.update_apply]
  obtain ⟨done, hcarries⟩ := F.gates gate'
  split_ifs with hgate
  . subst hgate
    rw [List.map_append]
    exact ⟨done, carries_write hcarries hfits⟩
  . exact ⟨done, hcarries⟩

theorem Follows.readPacket (F : Follows s q) (setup : Setup) (ctx : Nat) (hfits : Fits packet)
    (hfrom : packet.FromClient)
    : ∃ q', RequestQueues.Leads setup.parseLoginReq setup.gateOf q q'
        ∧ Follows (readPacket setup ctx s packet) q' := by
  refine ⟨_, RequestQueues.leads_of_step (a := .read ctx (s.agents ctx) packet) hfrom rfl, ?_⟩
  have hread : Function.update s.read ctx (s.read ctx ++ [(s.agents ctx, packet)])
      = Function.update q.read ctx (q.read ctx ++ [(s.agents ctx, packet)]) := by
    rw [F.read]
  unfold RequestPath.readPacket
  cases hsent : GateNetHandler.channelRead setup.parseLoginReq ctx (s.agents ctx) packet with
  | mk agent sent =>
    cases sent with
    | none =>
      refine ⟨fun gate => ?_, F.logic, hread, F.calls⟩
      simp only [Option.toList_none, List.map_nil, RequestQueues.put_gates, List.append_nil]
      split_ifs with hgate
      . subst hgate
        exact F.gates _
      . exact F.gates gate
    | some packet' =>
      have hsent' : Fits packet' := hfits.sent (congrArg Prod.snd hsent)
      obtain ⟨hgates, hlogic, -, hcalls⟩ := F.writeToCenter (setup.gateOf ctx) hsent' (some ctx)
      exact ⟨hgates, hlogic, hread, hcalls⟩

theorem Follows.readPackets (F : Follows s q) (setup : Setup) (ctx : Nat)
    (hpackets : ∀ packet ∈ packets, Fits packet ∧ packet.FromClient)
    : ∃ q', RequestQueues.Leads setup.parseLoginReq setup.gateOf q q'
        ∧ Follows (packets.foldl (RequestPath.readPacket setup ctx) s) q' := by
  induction packets generalizing s q with
  | nil => exact ⟨q, .refl, F⟩
  | cons packet packets ih =>
    obtain ⟨hfits, hfrom⟩ := hpackets packet List.mem_cons_self
    obtain ⟨q₁, hlead, F₁⟩ := F.readPacket setup ctx hfits hfrom
    obtain ⟨q₂, hlead', F₂⟩ := ih F₁ fun packet hpacket => hpackets packet (List.mem_cons_of_mem _ hpacket)
    exact ⟨q₂, hlead.trans hlead', F₂⟩

theorem foldl_relayPacket
    : packets.foldl relayPacket s = { s with
        logic := (packets.filterMap CenterMessageHandler.channelRead).foldl (fun link packet =>
          link.write packet.writePacket) s.logic } := by
  induction packets generalizing s with
  | nil => rfl
  | cons packet packets ih =>
    rw [List.foldl_cons, ih, List.filterMap_cons, relayPacket]
    cases CenterMessageHandler.channelRead packet <;> rfl

theorem carries_writes {link : PacketLink} {done queue : List CocoPacket} (h : Carries link done queue)
    (hfits : ∀ packet ∈ packets, Fits packet)
    : Carries (packets.foldl (fun link packet => link.write packet.writePacket) link) done (queue ++ packets) := by
  induction packets generalizing link queue with
  | nil => rwa [List.append_nil]
  | cons packet packets ih =>
    have h' := ih (carries_write h (hfits packet List.mem_cons_self))
      fun packet hpacket => hfits packet (List.mem_cons_of_mem _ hpacket)
    rwa [List.append_assoc, List.singleton_append] at h'

theorem foldl_handlePacket
    : packets.foldl (handlePacket setup) s = { s with
        players := (packets.filterMap messageReceived).foldl (doAction setup.parseInt64) s.players
        calls := s.calls ++ packets.filterMap messageReceived } := by
  induction packets generalizing s with
  | nil => simp
  | cons packet packets ih =>
    rw [List.foldl_cons, ih, List.filterMap_cons, handlePacket]
    cases messageReceived packet <;> simp

theorem map_relayed {sent : List Sent}
    : (RequestQueues.relayed sent).map Prod.snd
        = (sent.map Prod.snd).filterMap CenterMessageHandler.channelRead := by
  induction sent with
  | nil => rfl
  | cons p sent ih =>
    rw [RequestQueues.relayed, List.flatMap_cons, List.map_append, ← RequestQueues.relayed, ih, List.map_cons,
      List.filterMap_cons]
    cases CenterMessageHandler.channelRead p.2 <;> rfl

theorem Follows.arriveAtCenter (F : Follows s q)
    : ∃ q', RequestQueues.Leads setup.parseLoginReq setup.gateOf q q' ∧ Follows (arriveAtCenter s gate n) q' := by
  obtain ⟨done, hcarries⟩ := F.gates gate
  obtain ⟨later, hqueue, hcarries'⟩ := carries_arrive hcarries n
  obtain ⟨now, later, hgate, hnow, rfl⟩ := List.map_eq_append_iff.mp hqueue
  refine ⟨_, RequestQueues.leads_relay hgate, ?_⟩
  rw [RequestPath.arriveAtCenter, foldl_relayPacket]
  refine ⟨fun gate' => ?_, ?_, F.read, F.calls⟩
  . simp only [Function.update_apply]
    split_ifs with hgate
    . exact ⟨_, hcarries'⟩
    . exact F.gates gate'
  . obtain ⟨doneLogic, hlogic⟩ := F.logic
    have hsent : (RequestQueues.relayed now).map Prod.snd
        = (decoded (s.gates gate) ((s.gates gate).arrive (channelRead decode) n)).filterMap
          CenterMessageHandler.channelRead := by
      rw [map_relayed, hnow, decoded]
    rw [List.map_append, hsent]
    refine ⟨doneLogic, carries_writes hlogic fun packet hpacket => ?_⟩
    obtain ⟨packet', hmem, hrelay⟩ := List.mem_filterMap.mp hpacket
    refine Fits.relayed (hcarries.good packet' ?_) hrelay
    rw [hqueue]
    exact List.mem_append_right _ (List.mem_append_left _ hmem)

theorem Follows.arriveAtLogic (F : Follows s q)
    : ∃ q', RequestQueues.Leads setup.parseLoginReq setup.gateOf q q' ∧ Follows (arriveAtLogic setup s n) q' := by
  obtain ⟨done, hcarries⟩ := F.logic
  obtain ⟨later, hqueue, hcarries'⟩ := carries_arrive hcarries n
  obtain ⟨now, later, hlogic, hnow, rfl⟩ := List.map_eq_append_iff.mp hqueue
  refine ⟨_, RequestQueues.leads_handle hlogic, ?_⟩
  rw [RequestPath.arriveAtLogic, foldl_handlePacket]
  refine ⟨F.gates, ⟨_, hcarries'⟩, F.read, ?_⟩
  show s.calls ++ (decoded s.logic _).filterMap messageReceived = _
  rw [List.filterMap_append, F.calls, decoded, ← hnow, List.filterMap_map]
  rfl

structure Received (setup : Setup) (s : State) : Prop where
  chunks : ∀ ctx, ∃ chunks, (s.clients ctx).receiver
      = GateDecoder.receive (setup.seqGene ctx) (setup.currentTimeMillis ctx) chunks
    ∧ chunks.flatten ++ (s.clients ctx).bytes = s.written ctx
  read : ∀ ctx, (s.read ctx).map Prod.snd = (s.clients ctx).receiver.out

theorem received_start : Received setup (start agents players) :=
  ⟨fun _ => ⟨[], rfl, rfl⟩, fun _ => rfl⟩

theorem exists_readPacket (setup : Setup) (ctx : Nat) (s : State) (packet : CocoPacket)
    : ∃ gates, readPacket setup ctx s packet = { s with
        agents := Function.update s.agents ctx
          (GateNetHandler.channelRead setup.parseLoginReq ctx (s.agents ctx) packet).1
        gates := gates
        read := Function.update s.read ctx (s.read ctx ++ [(s.agents ctx, packet)]) } := by
  unfold readPacket
  split
  . next agent sent h =>
    split
    . exact ⟨_, by rw [h]⟩
    . exact ⟨_, by rw [h]; rfl⟩

theorem exists_readPackets (setup : Setup) (ctx : Nat) (s : State) (packets : List CocoPacket)
    : ∃ agents gates read, packets.foldl (readPacket setup ctx) s = { s with
          agents := agents
          gates := gates
          read := read }
        ∧ ∀ ctx', (read ctx').map Prod.snd = (s.read ctx').map Prod.snd ++ if ctx' = ctx then packets else [] := by
  induction packets generalizing s with
  | nil => exact ⟨s.agents, s.gates, s.read, rfl, by simp⟩
  | cons packet packets ih =>
    obtain ⟨gates, hpacket⟩ := exists_readPacket setup ctx s packet
    obtain ⟨agents', gates', read, hpackets, hread⟩ := ih (readPacket setup ctx s packet)
    refine ⟨agents', gates', read, ?_, fun ctx' => ?_⟩
    . rw [List.foldl_cons, hpackets, hpacket]
    . rw [hread, hpacket]
      simp only [Function.update_apply]
      split_ifs with hctx
      . simp [hctx]
      . simp

theorem Received.arriveAtGate (h : Received setup s) (ctx n : Nat) : Received setup (arriveAtGate setup s ctx n) := by
  have hfront : (s.clients ctx).receiver.out
      <+: ((s.clients ctx).arrive (channelRead (decodeOf setup ctx)) n).receiver.out := LengthDecoder.channelRead_out
  obtain ⟨agents, gates, read, hread, hpackets⟩ := exists_readPackets setup ctx
    { s with clients := Function.update s.clients ctx ((s.clients ctx).arrive (channelRead (decodeOf setup ctx)) n) }
    (decoded (s.clients ctx) ((s.clients ctx).arrive (channelRead (decodeOf setup ctx)) n))
  rw [RequestPath.arriveAtGate, hread]
  constructor
  . intro ctx'
    simp only [Function.update_apply]
    obtain ⟨chunks, hreceiver, hwritten⟩ := h.chunks ctx'
    split_ifs with hctx
    . subst hctx
      refine ⟨chunks ++ [(s.clients ctx').bytes.take n], ?_, ?_⟩
      . rw [GateDecoder.receive, List.foldl_append, ← GateDecoder.receive, ← hreceiver]
        rfl
      . rw [← hwritten, List.flatten_concat, List.append_assoc, Framing.Pipe.arrive, List.take_append_drop]
    . exact ⟨chunks, hreceiver, hwritten⟩
  . intro ctx'
    have hreads : (read ctx').map Prod.snd = _ := hpackets ctx'
    show (read ctx').map Prod.snd = _
    rw [hreads, h.read]
    simp only [Function.update_apply]
    split_ifs with hctx
    . subst hctx
      obtain ⟨out, hout⟩ := hfront
      rw [decoded, ← hout, List.drop_left]
    . rw [List.append_nil]

theorem Received.writeToGate (h : Received setup s) (ctx : Nat) (bytes : List UInt8)
    : Received setup (writeToGate s ctx bytes) := by
  constructor
  . intro ctx'
    obtain ⟨chunks, hreceiver, hwritten⟩ := h.chunks ctx'
    simp only [RequestPath.writeToGate, Function.update_apply]
    split_ifs with hctx
    . subst hctx
      exact ⟨chunks, hreceiver, by rw [← hwritten, List.append_assoc]; rfl⟩
    . exact ⟨chunks, hreceiver, hwritten⟩
  . intro ctx'
    simp only [RequestPath.writeToGate, Function.update_apply]
    split_ifs with hctx
    . subst hctx
      exact h.read ctx'
    . exact h.read ctx'

theorem Received.of_mem (h : Received setup s) (ctx n : Nat)
    (hpacket : packet ∈ decoded (s.clients ctx) ((s.clients ctx).arrive (channelRead (decodeOf setup ctx)) n))
    : Fits packet ∧ packet.FromClient := by
  obtain ⟨chunks, hreceiver, -⟩ := h.chunks ctx
  have hmem : packet ∈ (GateDecoder.receive (setup.seqGene ctx) (setup.currentTimeMillis ctx)
      (chunks ++ [(s.clients ctx).bytes.take n])).out := by
    rw [GateDecoder.receive, List.foldl_append, ← GateDecoder.receive, ← hreceiver]
    exact List.mem_of_mem_drop hpacket
  exact GateDecoder.of_mem_receive hmem

theorem step_follows {a : Action} (F : Follows s q) (h : Received setup s) (hok : Allowed s a)
    (hstep : step setup s a = some s')
    : Received setup s' ∧ ∃ q', RequestQueues.Leads setup.parseLoginReq setup.gateOf q q' ∧ Follows s' q' := by
  cases a with
  | push ctx packet =>
    obtain rfl := Option.some.inj hstep
    obtain ⟨hchunks, hread⟩ := h.writeToGate ctx (GateDecoder.send packet)
    exact ⟨⟨hchunks, hread⟩, q, .refl, F.gates, F.logic, F.read, F.calls⟩
  | write ctx bytes =>
    obtain rfl := Option.some.inj hstep
    exact ⟨h.writeToGate ctx bytes, q, .refl, F.gates, F.logic, F.read, F.calls⟩
  | setAgent ctx agent =>
    obtain rfl := Option.some.inj hstep
    exact ⟨⟨h.chunks, h.read⟩, q, .refl, F.gates, F.logic, F.read, F.calls⟩
  | arriveAtGate ctx n =>
    obtain rfl := Option.some.inj hstep
    let clients := Function.update s.clients ctx ((s.clients ctx).arrive (channelRead (decodeOf setup ctx)) n)
    have F' : Follows { s with clients := clients } q := ⟨F.gates, F.logic, F.read, F.calls⟩
    exact ⟨h.arriveAtGate ctx n, F'.readPackets setup ctx fun packet hpacket => h.of_mem ctx n hpacket⟩
  | gateSends gate packet =>
    obtain rfl := Option.some.inj hstep
    exact ⟨⟨h.chunks, h.read⟩, _, RequestQueues.leads_of_step (a := .own gate packet) hok.2 rfl,
      F.writeToCenter gate hok.1 none⟩
  | arriveAtCenter gate n =>
    obtain rfl := Option.some.inj hstep
    refine ⟨?_, F.arriveAtCenter⟩
    rw [arriveAtCenter, foldl_relayPacket]
    exact ⟨h.chunks, h.read⟩
  | centerSends packet =>
    obtain rfl := Option.some.inj hstep
    obtain ⟨done, hlogic⟩ := F.logic
    have hlogic' := carries_write hlogic hok.1
    refine ⟨⟨h.chunks, h.read⟩, _, RequestQueues.leads_of_step (a := .command packet) hok.2 rfl, F.gates, ?_, F.read,
      F.calls⟩
    rw [List.map_append]
    exact ⟨done, hlogic'⟩
  | arriveAtLogic n =>
    obtain rfl := Option.some.inj hstep
    refine ⟨?_, F.arriveAtLogic⟩
    rw [arriveAtLogic, foldl_handlePacket]
    exact ⟨h.chunks, h.read⟩
  | addEntity ch =>
    obtain rfl := Option.some.inj hstep
    exact ⟨⟨h.chunks, h.read⟩, q, .refl, F.gates, F.logic, F.read, F.calls⟩

theorem exists_queues_of_run {as : List Action} (hrun : Run (stepOf (step setup)) Allowed (start agents players) as s)
    : Received setup s
        ∧ ∃ q, RequestQueues.Leads setup.parseLoginReq setup.gateOf .start q ∧ Follows s q := by
  refine hrun.invariant (fun s => Received setup s ∧ ∃ q, RequestQueues.Leads setup.parseLoginReq setup.gateOf .start q
    ∧ Follows s q) ⟨received_start, .start, .refl, follows_start⟩ ?_
  rintro s a s' ⟨h, q, hlead, F⟩ hok hstep
  obtain ⟨h', q', hlead', F'⟩ := step_follows F h hok hstep
  exact ⟨h', q', hlead.trans hlead', F'⟩

/--
The calls of the players' handlers can be told apart by their connections, and those of a connection are a part of what
its requests lead to, from the front and in their order. Each of these has been read from bytes of its own that the
client has written.
-/
structure Delivered (setup : Setup) (s : State) : Prop where
  exists_log : ∃ log : List (Nat × LogicHandler.Call),
    log.map Prod.snd = s.calls.filter (·.handler ≠ .actionPlayerLogin)
      ∧ ∀ ctx, ofSource ctx log <+: (s.read ctx).filterMap fun p => playerCall p.1 p.2
  exists_entries : ∀ ctx, ∃ (es : List (LengthDecoder.Entry CocoPacket)) (rest : List UInt8),
    s.written ctx = es.flatMap LengthDecoder.Entry.bytes ++ rest
      ∧ (s.read ctx).map Prod.snd = es.map LengthDecoder.Entry.packet
      ∧ ∀ (n : Nat) (h : n < es.length), (es[n]).Valid GateDecoder.readLength
        (GateDecoder.readPacket (setup.seqGene ctx) (setup.currentTimeMillis ctx)) n

/-- Whatever the clients write, their requests are called at most once each, for their own players and in order. -/
theorem delivered_of_run {as : List Action}
    (hrun : Run (stepOf (step setup)) Allowed (start agents players) as s)
    : Delivered setup s := by
  obtain ⟨h, q, ⟨as', hrun'⟩, F⟩ := exists_queues_of_run hrun
  have I := RequestQueues.inv_of_run hrun'
  constructor
  . refine ⟨RequestQueues.playerCalls q, ?_, fun ctx => ?_⟩
    . rw [I.map_playerCalls, F.calls]
    . rw [F.read]
      exact I.playerCalls_prefix ctx
  . intro ctx
    obtain ⟨chunks, hreceiver, hwritten⟩ := h.chunks ctx
    obtain ⟨es, pre, hreceived, hout, hvalid, -⟩ := LengthDecoder.traced_of_chunks GateDecoder.readLength_nonneg
      (GateDecoder.readPacket_eq_none (setup.seqGene ctx) (setup.currentTimeMillis ctx)) chunks
    let c := GateDecoder.receive (setup.seqGene ctx) (setup.currentTimeMillis ctx) chunks
    refine ⟨es, pre ++ (c.input ++ (s.clients ctx).bytes), ?_, ?_, hvalid⟩
    . rw [← hwritten, hreceived, List.append_assoc, List.append_assoc]
      rfl
    . rw [h.read, hreceiver]
      exact hout

def oneSetup : Setup where
  gateOf _ := 0
  seqGene _ n := Int32.ofNat n
  currentTimeMillis _ _ := 0
  parseLoginReq _ := none
  parseInt64 bytes := if bytes = [8, 5] then some 5 else none

def oneAgent (ctx : Nat) : Option Gate.CocoAgent := if ctx = 1 then some ⟨7, 1, 3, true⟩ else none

def onePlayer : EntityStorage RyCharacter :=
  EntityStorage.empty.addEntity { RyCharacter.getDefault 0 7 "user_id" 3 with
    charEquip := EntityStorage.empty.addEntity (.createEquip 5 200001) }

def oneRequest : List Action :=
  [.push 1 ⟨201, some [8, 5]⟩, .arriveAtGate 1 3, .arriveAtGate 1 10, .arriveAtCenter 0 100, .arriveAtLogic 100]

theorem delivered_of_run_oneRequest
    : ∃ s, Run (stepOf (step oneSetup)) Allowed (start oneAgent onePlayer) oneRequest s
        ∧ s.calls = [⟨7, .strengthenEquip, [8, 5]⟩] ∧ Delivered oneSetup s := by
  obtain ⟨s, hrun, hcalls⟩ : ∃ s, Run (stepOf (step oneSetup)) anyLabel (start oneAgent onePlayer) oneRequest s
      ∧ s.calls = [⟨7, .strengthenEquip, [8, 5]⟩] := Run.exists_of_foldlM (by decide)
  have hallowed : ∀ a ∈ oneRequest, ∀ s, Allowed s a := by simp [oneRequest, Allowed]
  have hrun' := (hrun.label hallowed).weaken fun s _ h => h s
  exact ⟨s, hrun', hcalls, delivered_of_run hrun'⟩

end RequestPath

end WzGame
