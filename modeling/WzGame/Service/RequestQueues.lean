import WzGame.Service.RequestRouting
import WzGame.Util.Runs
import WzGame.Util.TaggedLists

/-!
This module contains what the way from the gates over the center to the logic server is for: it is made up of queues of
packets, and every request that a gate has read leads to one call, in the order of its connection.
-/

namespace WzGame

open LogicHandler Runs TaggedLists

abbrev Sent := Option Nat × CocoPacket

/--
What the gates have read from their connections, each with the attribute of its connection; what is under way from each
gate to the center and from there to the logic server; and what this has handled.
-/
structure RequestQueues where
  read : Nat → List (Option Gate.CocoAgent × CocoPacket)
  gates : Nat → List Sent
  logic : List Sent
  done : List Sent

namespace RequestQueues

def start : RequestQueues := ⟨fun _ => [], fun _ => [], [], []⟩

inductive Action where
  -- the gate reads a packet from a connection
  | read (ctx : Nat) (agent : Option Gate.CocoAgent) (packet : CocoPacket)
  -- the gate sends a packet of its own
  | own (gate : Nat) (packet : CocoPacket)
  -- the center gets the next packet of a gate
  | relay (gate : Nat)
  -- the center sends a packet of its own
  | command (packet : CocoPacket)
  -- the logic server gets the next packet
  | handle

section step

variable (parseFrom : List UInt8 → Option Int32) (gateOf : Nat → Nat)

def put (q : RequestQueues) (gate : Nat) (sent : List Sent) : RequestQueues :=
  { q with gates := Function.update q.gates gate (q.gates gate ++ sent) }

def step (q : RequestQueues) : Action → Option RequestQueues
  | .read ctx agent packet =>
    let sent := (GateNetHandler.channelRead parseFrom ctx agent packet).2.toList
    some { q.put (gateOf ctx) (sent.map fun packet => (some ctx, packet)) with
      read := Function.update q.read ctx (q.read ctx ++ [(agent, packet)]) }
  | .own gate packet => some (q.put gate [(none, packet)])
  | .relay gate =>
    match q.gates gate with
    | [] => none
    | (ctx, packet) :: rest =>
      some { q with
        gates := Function.update q.gates gate rest
        logic := q.logic ++ (CenterMessageHandler.channelRead packet).toList.map fun packet => (ctx, packet) }
  | .command packet => some { q with logic := q.logic ++ [(none, packet)] }
  | .handle =>
    match q.logic with
    | [] => none
    | sent :: rest => some { q with logic := rest, done := q.done ++ [sent] }

/--
The condition of a step: a gate reads requests with codes of one byte, and neither a gate nor the center has a request
of a player of its own.
-/
def Allowed (_ : RequestQueues) : Action → Prop
  | .read _ _ packet => packet.FromClient
  | .own _ packet => CenterMessageHandler.channelRead packet = none
  | .command packet => ∀ call, messageReceived packet = some call → call.handler = .actionPlayerLogin
  | _ => True

end step

def ofConnection (ctx : Nat) (sent : List Sent) : List CocoPacket :=
  sent.filterMap fun p => if p.1 = some ctx then some p.2 else none

def underway (gateOf : Nat → Nat) (q : RequestQueues) (ctx : Nat) : List CocoPacket :=
  (ofConnection ctx (q.gates (gateOf ctx))).filterMap CenterMessageHandler.channelRead

/--
Of each connection, the requests that its gate has read are those that have been handled and those that are still under
way, in this order.
-/
structure Inv (parseFrom : List UInt8 → Option Int32) (gateOf : Nat → Nat) (q : RequestQueues) : Prop where
  conserved : ∀ ctx, ofConnection ctx (q.done ++ q.logic) ++ underway gateOf q ctx
    = (q.read ctx).filterMap fun p => GateNetHandler.request parseFrom ctx p.1 p.2
  home : ∀ gate, ∀ p ∈ q.gates gate, ∀ ctx, p.1 = some ctx → gateOf ctx = gate
  own : ∀ gate, ∀ p ∈ q.gates gate, p.1 = none → CenterMessageHandler.channelRead p.2 = none
  command : ∀ p ∈ q.done ++ q.logic, p.1 = none → ∀ call, messageReceived p.2 = some call →
    call.handler = .actionPlayerLogin
  fromClient : ∀ ctx, ∀ p ∈ q.read ctx, p.2.FromClient

variable {parseFrom : List UInt8 → Option Int32} {gateOf : Nat → Nat} {q q' : RequestQueues} {a : Action}
  {ctx gate : Nat} {sent sent' : List Sent}

@[simp]
theorem ofConnection_nil : ofConnection ctx [] = [] := rfl

@[simp]
theorem ofConnection_append : ofConnection ctx (sent ++ sent') = ofConnection ctx sent ++ ofConnection ctx sent' :=
  List.filterMap_append ..

theorem ofConnection_map {packets : List CocoPacket} {from' : Option Nat}
    : ofConnection ctx (packets.map fun packet => (from', packet)) = if from' = some ctx then packets else [] := by
  induction packets with
  | nil => simp
  | cons packet packets ih =>
    rw [List.map_cons, ofConnection, List.filterMap_cons]
    split_ifs at ih ⊢ <;> simp_all [ofConnection]

theorem mem_ofConnection {packet : CocoPacket} : packet ∈ ofConnection ctx sent ↔ (some ctx, packet) ∈ sent := by
  simp [ofConnection, List.mem_filterMap]

theorem ofConnection_cons {p : Sent}
    : ofConnection ctx (p :: sent) = ofConnection ctx [p] ++ ofConnection ctx sent := by
  rw [← ofConnection_append, List.singleton_append]

theorem put_gates {gate' : Nat}
    : (q.put gate sent).gates gate' = if gate' = gate then q.gates gate ++ sent else q.gates gate' :=
  Function.update_apply ..

theorem ofConnection_eq_nil (hhome : ∀ p ∈ sent, ∀ ctx, p.1 = some ctx → gateOf ctx = gate) (hgate : gateOf ctx ≠ gate)
    : ofConnection ctx sent = [] := by
  rw [ofConnection, List.filterMap_eq_nil_iff]
  intro p hp
  exact if_neg fun h => hgate (hhome p hp ctx h)

theorem underway_put (hhome : ∀ p ∈ sent, ∀ ctx, p.1 = some ctx → gateOf ctx = gate)
    : underway gateOf (q.put gate sent) ctx
        = underway gateOf q ctx ++ (ofConnection ctx sent).filterMap CenterMessageHandler.channelRead := by
  rw [underway, put_gates]
  split_ifs with hgate
  . rw [ofConnection_append, List.filterMap_append, underway, hgate]
  . rw [ofConnection_eq_nil hhome hgate, List.filterMap_nil, List.append_nil]
    rfl

theorem inv_start : Inv parseFrom gateOf start :=
  ⟨fun _ => rfl, nofun, nofun, nofun, nofun⟩

theorem Inv.put (I : Inv parseFrom gateOf q) (hhome : ∀ p ∈ sent, ∀ ctx, p.1 = some ctx → gateOf ctx = gate)
    (hown : ∀ p ∈ sent, p.1 = none → CenterMessageHandler.channelRead p.2 = none)
    {read : Nat → List (Option Gate.CocoAgent × CocoPacket)}
    (hread : ∀ ctx, (read ctx).filterMap (fun p => GateNetHandler.request parseFrom ctx p.1 p.2)
      = (q.read ctx).filterMap (fun p => GateNetHandler.request parseFrom ctx p.1 p.2)
        ++ (ofConnection ctx sent).filterMap CenterMessageHandler.channelRead)
    (hfrom : ∀ ctx, ∀ p ∈ read ctx, p.2.FromClient)
    : Inv parseFrom gateOf { q.put gate sent with read } := by
  refine ⟨fun ctx => ?_, fun gate' p hp => ?_, fun gate' p hp => ?_, I.command, hfrom⟩
  . show ofConnection ctx (q.done ++ q.logic) ++ underway gateOf (q.put gate sent) ctx = _
    rw [underway_put hhome, ← List.append_assoc, I.conserved, hread]
  . replace hp : p ∈ (q.put gate sent).gates gate' := hp
    rw [put_gates] at hp
    split_ifs at hp with hgate
    . subst hgate
      exact (List.mem_append.mp hp).elim (I.home _ p) (hhome p)
    . exact I.home gate' p hp
  . replace hp : p ∈ (q.put gate sent).gates gate' := hp
    rw [put_gates] at hp
    split_ifs at hp with hgate
    . exact (List.mem_append.mp hp).elim (I.own _ p) (hown p)
    . exact I.own gate' p hp

theorem Inv.step_read {agent : Option Gate.CocoAgent} {packet : CocoPacket} (I : Inv parseFrom gateOf q)
    (hfrom : packet.FromClient) (h : step parseFrom gateOf q (.read ctx agent packet) = some q')
    : Inv parseFrom gateOf q' := by
  obtain rfl := Option.some.inj h
  apply I.put
  . intro p hp ctx' hctx
    obtain ⟨packet', -, rfl⟩ := List.mem_map.mp hp
    rw [Option.some.inj hctx]
  . intro p hp hnone
    obtain ⟨packet', -, rfl⟩ := List.mem_map.mp hp
    contradiction
  . intro ctx'
    rw [ofConnection_map, Function.update_apply]
    by_cases hctx : ctx' = ctx
    . subst hctx
      rw [if_pos rfl, if_pos rfl, List.filterMap_append]
      cases hsent : (GateNetHandler.channelRead parseFrom ctx' agent packet).2
        <;> simp [GateNetHandler.request, List.filterMap_cons, hsent]
    . rw [if_neg hctx, if_neg fun h => hctx (Option.some.inj h).symm, List.filterMap_nil, List.append_nil]
  . intro ctx' p hp
    rw [Function.update_apply] at hp
    split_ifs at hp with hctx
    . rcases List.mem_append.mp hp with hp | hp
      . exact I.fromClient ctx p hp
      . obtain rfl := List.mem_singleton.mp hp
        exact hfrom
    . exact I.fromClient ctx' p hp

theorem Inv.step_own {packet : CocoPacket} (I : Inv parseFrom gateOf q)
    (hown : CenterMessageHandler.channelRead packet = none)
    (h : step parseFrom gateOf q (.own gate packet) = some q')
    : Inv parseFrom gateOf q' := by
  obtain rfl := Option.some.inj h
  apply I.put
  . simp
  . simpa using hown
  . simp [ofConnection]
  . exact I.fromClient

theorem Inv.step_relay (I : Inv parseFrom gateOf q) (h : step parseFrom gateOf q (.relay gate) = some q')
    : Inv parseFrom gateOf q' := by
  simp only [step] at h
  split at h
  case h_1 => contradiction
  case h_2 ctx packet rest hgates =>
    obtain rfl := Option.some.inj h
    have hsub : ∀ gate', ∀ p ∈ Function.update q.gates gate rest gate', p ∈ q.gates gate' := by
      intro gate' p hp
      rw [Function.update_apply] at hp
      split_ifs at hp with hgate
      . rw [hgate, hgates]
        exact List.mem_cons_of_mem _ hp
      . exact hp
    refine ⟨fun ctx' => ?_, fun gate' p hp => I.home gate' p (hsub gate' p hp),
      fun gate' p hp => I.own gate' p (hsub gate' p hp), ?_, I.fromClient⟩
    . rw [← I.conserved, underway, underway]
      simp only [ofConnection_append, ofConnection_map, List.append_assoc, List.append_cancel_left_eq,
        Function.update_apply]
      by_cases hgate : gateOf ctx' = gate
      . rw [if_pos hgate, hgate, hgates, ofConnection_cons, List.filterMap_append]
        congr 1
        by_cases hctx : ctx = some ctx'
        . cases hsent : CenterMessageHandler.channelRead packet <;> simp [ofConnection, hctx, hsent]
        . simp [ofConnection, hctx]
      . have hctx : ctx ≠ some ctx' := fun hctx => hgate (I.home gate (ctx, packet) (by simp [hgates]) ctx' hctx)
        rw [if_neg hgate, if_neg hctx, List.nil_append]
    . intro p hp hnone call hcall
      rw [← List.append_assoc] at hp
      rcases List.mem_append.mp hp with hp | hp
      . exact I.command p hp hnone call hcall
      . obtain ⟨packet', hsent, rfl⟩ := List.mem_map.mp hp
        obtain rfl : ctx = none := hnone
        rw [I.own gate (none, packet) (by simp [hgates]) rfl] at hsent
        contradiction

theorem Inv.step_command {packet : CocoPacket} (I : Inv parseFrom gateOf q)
    (hcommand : ∀ call, messageReceived packet = some call → call.handler = .actionPlayerLogin)
    (h : step parseFrom gateOf q (.command packet) = some q')
    : Inv parseFrom gateOf q' := by
  obtain rfl := Option.some.inj h
  refine ⟨fun ctx => ?_, I.home, I.own, ?_, I.fromClient⟩
  . rw [← I.conserved]
    simp [ofConnection, underway]
  . intro p hp hnone
    rw [← List.append_assoc] at hp
    rcases List.mem_append.mp hp with hp | hp
    . exact I.command p hp hnone
    . obtain rfl := List.mem_singleton.mp hp
      exact hcommand

theorem Inv.step_handle (I : Inv parseFrom gateOf q) (h : step parseFrom gateOf q .handle = some q')
    : Inv parseFrom gateOf q' := by
  simp only [step] at h
  split at h
  case h_1 => contradiction
  case h_2 sent rest hlogic =>
    obtain rfl := Option.some.inj h
    have hsplit : q.done ++ [sent] ++ rest = q.done ++ q.logic := by
      rw [hlogic, List.append_assoc, List.singleton_append]
    refine ⟨fun ctx => ?_, I.home, I.own, ?_, I.fromClient⟩
    . rw [← I.conserved, ← hsplit]
      rfl
    . rw [hsplit]
      exact I.command

theorem Inv.step (I : Inv parseFrom gateOf q) (hok : Allowed q a) (h : step parseFrom gateOf q a = some q')
    : Inv parseFrom gateOf q' := by
  cases a with
  | read => exact I.step_read hok h
  | own => exact I.step_own hok h
  | relay => exact I.step_relay h
  | command => exact I.step_command hok h
  | handle => exact I.step_handle h

theorem inv_of_run {as : List Action} (hrun : Run (stepOf (step parseFrom gateOf)) Allowed start as q)
    : Inv parseFrom gateOf q :=
  hrun.invariant _ inv_start fun _ _ _ I hok h => I.step hok h

def playerCalls (q : RequestQueues) : List (Nat × LogicHandler.Call) :=
  q.done.filterMap fun p => p.1.bind fun ctx => (messageReceived p.2).map fun call => (ctx, call)

theorem filterMap_request (I : Inv parseFrom gateOf q) (ctx : Nat)
    : ((q.read ctx).filterMap fun p => GateNetHandler.request parseFrom ctx p.1 p.2).filterMap messageReceived
        = (q.read ctx).filterMap fun p => playerCall p.1 p.2 := by
  rw [List.filterMap_filterMap]
  apply List.filterMap_congr
  intro p hp
  exact GateNetHandler.request_bind_messageReceived (I.fromClient ctx p hp)

theorem ofSource_playerCalls
    : ofSource ctx (playerCalls q) = (ofConnection ctx q.done).filterMap messageReceived := by
  rw [ofSource, playerCalls, ofConnection, List.filter_filterMap, List.map_filterMap, List.filterMap_filterMap]
  congr 1
  funext p
  obtain ⟨from', packet⟩ := p
  cases from' with
  | none => rfl
  | some ctx' =>
    by_cases hctx : ctx' = ctx
    . cases hcall : messageReceived packet <;> simp [Option.filter, hctx, hcall]
    . cases messageReceived packet <;> simp [Option.filter, hctx]

theorem Inv.playerCalls_prefix (I : Inv parseFrom gateOf q) (ctx : Nat)
    : ofSource ctx (playerCalls q) <+: (q.read ctx).filterMap fun p => playerCall p.1 p.2 := by
  rw [ofSource_playerCalls, ← filterMap_request I, ← I.conserved, ofConnection_append, List.append_assoc,
    List.filterMap_append]
  exact List.prefix_append _ _

theorem Inv.playerCalls_eq (I : Inv parseFrom gateOf q) (hgate : q.gates (gateOf ctx) = []) (hlogic : q.logic = [])
    : ofSource ctx (playerCalls q) = (q.read ctx).filterMap fun p => playerCall p.1 p.2 := by
  rw [ofSource_playerCalls, ← filterMap_request I, ← I.conserved, hlogic, underway, hgate]
  simp

theorem Inv.exists_read {packet : CocoPacket} (I : Inv parseFrom gateOf q) (h : (some ctx, packet) ∈ q.done ++ q.logic)
    : ∃ p ∈ q.read ctx, GateNetHandler.request parseFrom ctx p.1 p.2 = some packet := by
  have hmem : packet ∈ ofConnection ctx (q.done ++ q.logic) ++ underway gateOf q ctx :=
    List.mem_append_left _ (mem_ofConnection.mpr h)
  rw [I.conserved] at hmem
  exact List.mem_filterMap.mp hmem

theorem Inv.map_playerCalls (I : Inv parseFrom gateOf q)
    : (playerCalls q).map Prod.snd
        = (q.done.filterMap fun p => messageReceived p.2).filter (·.handler ≠ .actionPlayerLogin) := by
  rw [playerCalls, List.map_filterMap, List.filter_filterMap]
  apply List.filterMap_congr
  intro p hp
  obtain ⟨from', packet⟩ := p
  have hmem : (from', packet) ∈ q.done ++ q.logic := List.mem_append_left _ hp
  cases hcall : messageReceived packet with
  | none => cases from' <;> simp
  | some call =>
    cases from' with
    | none =>
      have hlogin := I.command _ hmem rfl call hcall
      simp [Option.filter, hlogin]
    | some ctx =>
      obtain ⟨⟨agent, packet'⟩, hread, hrequest⟩ := I.exists_read hmem
      have hplayer : playerCall agent packet' = some call := by
        rw [← GateNetHandler.request_bind_messageReceived (I.fromClient ctx _ hread), hrequest, Option.bind_some, hcall]
      simp [Option.filter, handler_of_playerCall hplayer]

end RequestQueues

end WzGame
