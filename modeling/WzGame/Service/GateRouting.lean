import WzGame.Service.GateHandlers
import WzGame.Util.Runs

/-!
This module contains when the table of the players' agents leads to the right connections, however
the event loops of the gate interleave.
-/

namespace WzGame.Gate

open Runs

def State.channelOf (s : State) (agent : Nat) : Channel := s.channels (s.agents agent).ctx

def State.Found (s : State) (id : Int64) (ctx : Nat) : Prop :=
  ∃ agent, s.agentMap id = some agent ∧ (s.agents agent).ctx = ctx

structure Routed (s : State) : Prop where
  live : ∀ id agent, s.agentMap id = some agent → (s.channelOf agent).loop ≠ .inactive
  latest : ∀ id ctx, s.latest id = some ctx → (s.channels ctx).isOpen = true → ctx ∉ s.kicked →
    s.Found id ctx

def Channel.Current (channel : Channel) (agent : Nat) : Prop :=
  channel.loop = .idle ∧ channel.agent = some agent ∨ channel.loop = .registered agent

def Channel.Routes (channel : Channel) (agent : Nat) (id : Int64) : Prop :=
  channel.Current agent ∨ channel.loop = .removing id

def Channel.Holds (channel : Channel) (agents : Nat → CocoAgent) (id : Int64) : Prop :=
  (∃ agent, channel.Current agent ∧ (agents agent).playerId = id) ∨ channel.loop = .removing id

/--
The condition of a step: a connection that has logged in does not ask to log in again, and the
result of a login finds a connection that is still there, at a moment when no other connection is
the one of its player.
-/
def Orderly (s : State) : Action → Prop
  | .sendRequest ctx _ =>
    ∀ agent, (s.channels ctx).agent = some agent → (s.agents agent).playerId = 0
  | .actionLoginResult request id => id ≠ 0 ∧
    ∀ ctx userId agent, s.requests[request]? = some (ctx, userId) → s.userMap userId = some agent →
      (s.channelOf agent).Current agent
        ∧ ((s.agents agent).playerId = 0 ∨ (s.agents agent).playerId = id)
        ∧ ∀ ctx ≠ (s.agents agent).ctx, ¬ (s.channels ctx).Holds s.agents id
  | .registerAgent =>
    ∀ agent request id, s.link = .registering agent request id →
      (s.channelOf agent).loop ≠ .inactive
  | _ => True

structure Inv (s : State) : Prop where
  own : ∀ ctx agent, (s.channels ctx).agent = some agent
    ∨ (s.channels ctx).loop = .registered agent → agent < s.created ∧ (s.agents agent).ctx = ctx
  user : ∀ userId agent, s.userMap userId = some agent → agent < s.created
  entry : ∀ id agent, s.agentMap id = some agent →
    agent < s.created ∧ id ≠ 0 ∧ (s.agents agent).playerId = id
      ∧ (s.channelOf agent).Routes agent id
  unique : ∀ id ctx ctx', id ≠ 0 → (s.channels ctx).Holds s.agents id →
    (s.channels ctx').Holds s.agents id → ctx = ctx'
  registering : ∀ agent request id, s.link = .registering agent request id →
    agent < s.created ∧ id ≠ 0 ∧ (s.agents agent).playerId = id
      ∧ ((s.channelOf agent).Routes agent id ∨ (s.channelOf agent).loop = .inactive)
  kicking : ∀ agent, s.link = .kicking agent →
    agent < s.created ∧ ∀ id, ¬ s.Found id (s.agents agent).ctx
  closed : ∀ ctx, (s.channels ctx).loop = .inactive ∨ (∃ id, (s.channels ctx).loop = .removing id) →
    (s.channels ctx).isOpen = false
  latest : ∀ id ctx, s.latest id = some ctx → (s.channels ctx).isOpen = true → ctx ∉ s.kicked →
    s.Found id ctx

variable {s s' : State} {ctx request agent : Nat} {userId : Int32} {id : Int64} {a : Action}

theorem Channel.Current.unique {channel : Channel} {agent agent' : Nat} (h : channel.Current agent)
    (h' : channel.Current agent')
    : agent = agent' := by
  unfold Channel.Current at h h'
  rcases h with ⟨hloop, hagent⟩ | hloop
  . rcases h' with ⟨-, hagent'⟩ | hloop'
    . exact Option.some.inj (hagent.symm.trans hagent')
    . simp [hloop] at hloop'
  . rcases h' with ⟨hloop', -⟩ | hloop'
    . simp [hloop] at hloop'
    . simpa [hloop] using hloop'

theorem Channel.Current.not_removing {channel : Channel} (h : channel.Current agent)
    : channel.loop ≠ .removing id := by
  rcases h with ⟨hloop, -⟩ | hloop <;> simp [hloop]

theorem Channel.Holds.unique {channel : Channel} {agents : Nat → CocoAgent} {id id' : Int64}
    (h : channel.Holds agents id) (h' : channel.Holds agents id')
    : id = id' := by
  rcases h with ⟨agent, hcurrent, rfl⟩ | hloop
  . rcases h' with ⟨agent', hcurrent', rfl⟩ | hloop'
    . rw [hcurrent.unique hcurrent']
    . exact absurd hloop' hcurrent.not_removing
  . rcases h' with ⟨agent', hcurrent', rfl⟩ | hloop'
    . exact absurd hloop hcurrent'.not_removing
    . simpa [hloop] using hloop'

theorem Inv.routes (I : Inv s) (h : s.agentMap id = some agent) (hctx : (s.agents agent).ctx = ctx)
    : (s.channels ctx).Routes agent id :=
  hctx ▸ (I.entry id agent h).2.2.2

theorem Inv.registering_routes (I : Inv s) (h : s.link = .registering agent request id)
    (hctx : (s.agents agent).ctx = ctx)
    : (s.channels ctx).Routes agent id ∨ (s.channels ctx).loop = .inactive :=
  hctx ▸ (I.registering agent request id h).2.2.2

theorem Inv.setChannel (I : Inv s) (ctx : Nat) {channel : Channel}
    (hown : ∀ agent, channel.agent = some agent ∨ channel.loop = .registered agent →
      agent < s.created ∧ (s.agents agent).ctx = ctx)
    (hentry : ∀ id agent, s.agentMap id = some agent → (s.agents agent).ctx = ctx →
      channel.Routes agent id)
    (hregistering : ∀ agent request id, s.link = .registering agent request id →
      (s.agents agent).ctx = ctx → channel.Routes agent id ∨ channel.loop = .inactive)
    (hholds : ∀ id ≠ 0, channel.Holds s.agents id → (s.channels ctx).Holds s.agents id)
    (hclosed : channel.loop = .inactive ∨ (∃ id, channel.loop = .removing id) →
      channel.isOpen = false)
    (hopen : channel.isOpen = true → (s.channels ctx).isOpen = true)
    : Inv (s.setChannel ctx channel) := by
  have hholds' : ∀ id ≠ 0, ∀ ctx', ((s.setChannel ctx channel).channels ctx').Holds s.agents id →
      (s.channels ctx').Holds s.agents id := by
    intro id hid ctx' h
    rw [State.setChannel_channels] at h
    split at h
    case isTrue heq => exact heq ▸ hholds id hid h
    case isFalse => exact h
  constructor
  . intro ctx' agent h
    rw [State.setChannel_channels] at h
    split at h
    case isTrue heq => exact heq ▸ hown agent h
    case isFalse => exact I.own ctx' agent h
  . exact I.user
  . intro id agent h
    obtain ⟨hlt, hid, hplayer, hroutes⟩ := I.entry id agent h
    refine ⟨hlt, hid, hplayer, ?_⟩
    unfold State.channelOf
    rw [State.setChannel_channels]
    split
    case isTrue heq => exact hentry id agent h heq
    case isFalse => exact hroutes
  . intro id ctx₁ ctx₂ hid h₁ h₂
    exact I.unique id ctx₁ ctx₂ hid (hholds' id hid ctx₁ h₁) (hholds' id hid ctx₂ h₂)
  . intro agent request id h
    obtain ⟨hlt, hid, hplayer, hroutes⟩ := I.registering agent request id h
    refine ⟨hlt, hid, hplayer, ?_⟩
    unfold State.channelOf
    rw [State.setChannel_channels]
    split
    case isTrue heq => exact hregistering agent request id h heq
    case isFalse => exact hroutes
  . exact I.kicking
  . intro ctx' h
    rw [State.setChannel_channels] at h ⊢
    split at h
    case isTrue heq => simpa [heq] using hclosed h
    case isFalse hne => simpa [hne] using I.closed ctx' h
  . intro id ctx' hlatest hopen' hkicked
    refine I.latest id ctx' hlatest ?_ hkicked
    rw [State.setChannel_channels] at hopen'
    split at hopen'
    case isTrue heq => exact heq ▸ hopen hopen'
    case isFalse => exact hopen'

theorem inv_start : Inv start := by
  constructor <;> simp [start, State.Found, Channel.Holds, Channel.Current]

theorem Inv.logs (I : Inv s) (requests : List (Nat × Int32)) (answered : List Nat)
    (accepted : List (Nat × Int64)) (validated : List Outcome)
    : Inv { s with requests, answered, accepted, validated } :=
  ⟨I.own, I.user, I.entry, I.unique, I.registering, I.kicking, I.closed, I.latest⟩

theorem Inv.sendRequest (I : Inv s) (hok : Orderly s (.sendRequest ctx userId))
    (hstep : sendRequest s ctx userId = some s')
    : Inv s' := by
  unfold Gate.sendRequest at hstep
  split at hstep
  case h_2 => cases hstep
  case h_1 hidle =>
    cases hstep
    have hzero : ∀ agent id, id ≠ 0 → (s.agents agent).playerId = id →
        ¬ (s.channels ctx).Routes agent id := by
      rintro agent id hid hplayer ((⟨-, hagent⟩ | hloop) | hloop)
      . exact hid (hplayer.symm.trans (hok agent hagent))
      . simp [hidle] at hloop
      . simp [hidle] at hloop
    refine (I.setChannel ctx ?_ ?_ ?_ ?_ ?_ ?_).logs _ _ _ _
    . intro agent h
      exact I.own ctx agent (.inl (by simpa using h))
    . intro id agent h hctx
      obtain ⟨-, hid, hplayer, -⟩ := I.entry id agent h
      exact absurd (I.routes h hctx) (hzero agent id hid hplayer)
    . intro agent request id h hctx
      obtain ⟨-, hid, hplayer, -⟩ := I.registering agent request id h
      rcases I.registering_routes h hctx with hroutes | hloop
      . exact absurd hroutes (hzero agent id hid hplayer)
      . simp [hidle] at hloop
    . intro id _ hholds
      simp [Channel.Holds, Channel.Current] at hholds
    . simp
    . intro hopen
      exact hopen

theorem Inv.newAgent (I : Inv s) (agent : CocoAgent)
    : Inv { s with
        agents := Function.update s.agents s.created agent
        created := s.created + 1 } := by
  have hold : ∀ agent' < s.created,
      Function.update s.agents s.created agent agent' = s.agents agent' := by
    intro agent' h
    exact Function.update_of_ne (Nat.ne_of_lt h) _ _
  have hfound : ∀ agent' id, s.agentMap id = some agent' →
      Function.update s.agents s.created agent agent' = s.agents agent' := by
    intro agent' id h
    exact hold agent' (I.entry id agent' h).1
  have hholds : ∀ ctx id, (s.channels ctx).Holds (Function.update s.agents s.created agent) id →
      (s.channels ctx).Holds s.agents id := by
    rintro ctx id (⟨agent', hcurrent, hplayer⟩ | hloop)
    . have hlt : agent' < s.created := by
        rcases hcurrent with ⟨-, hagent⟩ | hloop
        . exact (I.own ctx agent' (.inl hagent)).1
        . exact (I.own ctx agent' (.inr hloop)).1
      rw [hold agent' hlt] at hplayer
      exact .inl ⟨agent', hcurrent, hplayer⟩
    . exact .inr hloop
  constructor
  . intro ctx agent' h
    obtain ⟨hlt, hctx⟩ := I.own ctx agent' h
    exact ⟨Nat.lt_succ_of_lt hlt, (congrArg CocoAgent.ctx (hold agent' hlt)).trans hctx⟩
  . intro userId agent' h
    exact Nat.lt_succ_of_lt (I.user userId agent' h)
  . intro id agent' h
    obtain ⟨hlt, hid, hplayer, hroutes⟩ := I.entry id agent' h
    unfold State.channelOf
    simp only [hold agent' hlt]
    exact ⟨Nat.lt_succ_of_lt hlt, hid, hplayer, hroutes⟩
  . intro id ctx ctx' hid h h'
    exact I.unique id ctx ctx' hid (hholds ctx id h) (hholds ctx' id h')
  . intro agent' request id h
    obtain ⟨hlt, hid, hplayer, hroutes⟩ := I.registering agent' request id h
    unfold State.channelOf
    simp only [hold agent' hlt]
    exact ⟨Nat.lt_succ_of_lt hlt, hid, hplayer, hroutes⟩
  . intro agent' h
    obtain ⟨hlt, hnone⟩ := I.kicking agent' h
    refine ⟨Nat.lt_succ_of_lt hlt, ?_⟩
    rintro id ⟨agent'', hentry, hctx⟩
    simp only [hold agent' hlt, hfound agent'' id hentry] at hctx
    exact hnone id ⟨agent'', hentry, hctx⟩
  . exact I.closed
  . intro id ctx hlatest hopen hkicked
    obtain ⟨agent', hentry, hctx⟩ := I.latest id ctx hlatest hopen hkicked
    exact ⟨agent', hentry, (congrArg CocoAgent.ctx (hfound agent' id hentry)).trans hctx⟩

theorem Inv.userMap (I : Inv s) (userId : Int32) (h : agent < s.created)
    : Inv { s with userMap := Function.update s.userMap userId (some agent) } := by
  refine ⟨I.own, ?_, I.entry, I.unique, I.registering, I.kicking, I.closed, I.latest⟩
  intro userId' agent' huser
  simp only [Function.update_apply] at huser
  split at huser
  . exact Option.some.inj huser ▸ h
  . exact I.user userId' agent' huser

theorem Inv.registerUserAgent (I : Inv s) (hstep : registerUserAgent s ctx = some s') : Inv s' := by
  unfold Gate.registerUserAgent at hstep
  split at hstep
  case h_2 => cases hstep
  case h_1 userId hsent =>
    cases hstep
    have I' := (I.newAgent ⟨0, ctx, userId, false⟩).userMap userId (Nat.lt_succ_self _)
    have hno : ∀ agent id, ¬ (s.channels ctx).Routes agent id := by
      rintro agent id ((⟨hloop, -⟩ | hloop) | hloop) <;> simp [hsent] at hloop
    refine I'.setChannel ctx ?_ ?_ ?_ ?_ ?_ ?_
    . rintro agent (hagent | hloop)
      . exact I'.own ctx agent (.inl hagent)
      . obtain rfl : s.created = agent := by simpa using hloop
        simp
    . intro id agent h hctx
      exact absurd (I'.routes h hctx) (hno agent id)
    . intro agent request id h hctx
      rcases I'.registering_routes h hctx with hroutes | hloop
      . exact absurd hroutes (hno agent id)
      . simp [hsent] at hloop
    . rintro id hid (⟨agent, ⟨hloop, -⟩ | hloop, hplayer⟩ | hloop)
      . simp at hloop
      . obtain rfl : s.created = agent := by simpa using hloop
        simp only [Function.update_self] at hplayer
        exact absurd hplayer.symm hid
      . simp at hloop
    . simp
    . intro hopen
      exact hopen

theorem Inv.setAttribute (I : Inv s) (hstep : setAttribute s ctx = some s') : Inv s' := by
  unfold Gate.setAttribute at hstep
  split at hstep
  case h_2 => cases hstep
  case h_1 _ isOpen agent hchannel =>
    cases hstep
    have hroutes : ∀ agent' id, (s.channels ctx).Routes agent' id → agent = agent' := by
      intro agent' id h
      simpa [hchannel, Channel.Routes, Channel.Current] using h
    refine I.setChannel ctx ?_ ?_ ?_ ?_ ?_ ?_
    . intro agent' h
      obtain rfl : agent = agent' := by simpa using h
      exact I.own ctx agent (.inr (by rw [hchannel]))
    . intro id agent' h hctx
      obtain rfl := hroutes agent' id (I.routes h hctx)
      exact .inl (.inl ⟨rfl, rfl⟩)
    . intro agent' request id h hctx
      rcases I.registering_routes h hctx with hrouted | hloop
      . obtain rfl := hroutes agent' id hrouted
        exact .inl (.inl (.inl ⟨rfl, rfl⟩))
      . simp [hchannel] at hloop
    . intro id _ h
      simpa [hchannel, Channel.Holds, Channel.Current] using h
    . simp
    . intro hopen
      rw [hchannel]
      exact hopen

theorem Inv.close (I : Inv s) (hstep : close s ctx = some s') : Inv s' := by
  cases hstep
  refine I.setChannel ctx ?_ ?_ ?_ ?_ ?_ ?_
  . exact I.own ctx
  . intro id agent h hctx
    exact I.routes h hctx
  . intro agent request id h hctx
    exact I.registering_routes h hctx
  . intro id _ h
    exact h
  . intro _
    rfl
  . intro h
    cases h

theorem Inv.channelInactive (I : Inv s) (hstep : channelInactive s ctx = some s') : Inv s' := by
  unfold Gate.channelInactive at hstep
  split at hstep
  case h_3 => cases hstep
  case h_1 hchannel =>
    cases hstep
    have hno : ∀ agent id, ¬ (s.channels ctx).Routes agent id := by
      simp [hchannel, Channel.Routes, Channel.Current]
    refine I.setChannel ctx ?_ ?_ ?_ ?_ ?_ ?_
    . intro agent h
      simp [hchannel] at h
    . intro id agent h hctx
      exact absurd (I.routes h hctx) (hno agent id)
    . intro _ _ _ _ _
      exact .inr rfl
    . intro id _ h
      simp [Channel.Holds, Channel.Current] at h
    . intro _
      rw [hchannel]
    . intro hopen
      exact hopen
  case h_2 agent hchannel =>
    cases hstep
    have hroutes : ∀ agent' id, (s.channels ctx).Routes agent' id → agent = agent' := by
      intro agent' id h
      simpa [hchannel, Channel.Routes, Channel.Current] using h
    refine I.setChannel ctx ?_ ?_ ?_ ?_ ?_ ?_
    . intro agent' h
      exact I.own ctx agent' (.inl (by simpa using h))
    . intro id agent' h hctx
      obtain rfl := hroutes agent' id (I.routes h hctx)
      exact .inr (congrArg Loop.removing (I.entry id agent h).2.2.1)
    . intro agent' request id h hctx
      rcases I.registering_routes h hctx with hrouted | hloop
      . obtain rfl := hroutes agent' id hrouted
        exact .inl (.inr (congrArg Loop.removing (I.registering agent request id h).2.2.1))
      . simp [hchannel] at hloop
    . intro id _ h
      have hid : (s.agents agent).playerId = id := by
        simpa [Channel.Holds, Channel.Current] using h
      exact .inl ⟨agent, .inl (by simp [hchannel]), hid⟩
    . intro _
      rw [hchannel]
    . intro hopen
      exact hopen

theorem Inv.erase (I : Inv s) (id : Int64) (kicked : List Nat) (hkicked : s.kicked ⊆ kicked)
    (hlatest : ∀ ctx, s.Found id ctx → (s.channels ctx).isOpen = true → ctx ∈ kicked)
    : Inv { s with agentMap := Function.update s.agentMap id none, kicked } := by
  have hentry : ∀ id' agent, Function.update s.agentMap id none id' = some agent →
      id' ≠ id ∧ s.agentMap id' = some agent := by
    intro id' agent h
    rw [Function.update_apply] at h
    split at h
    case isTrue => cases h
    case isFalse hne => exact ⟨hne, h⟩
  refine ⟨I.own, I.user, ?_, I.unique, I.registering, ?_, I.closed, ?_⟩
  . intro id' agent h
    exact I.entry id' agent (hentry id' agent h).2
  . intro agent h
    refine ⟨(I.kicking agent h).1, ?_⟩
    rintro id' ⟨agent', hagent', hctx⟩
    exact (I.kicking agent h).2 id' ⟨agent', (hentry id' agent' hagent').2, hctx⟩
  . intro id' ctx h hopen hnot
    have hfound := I.latest id' ctx h hopen fun hmem => hnot (hkicked hmem)
    by_cases hid : id' = id
    . subst hid
      exact absurd (hlatest ctx hfound hopen) hnot
    . obtain ⟨agent, hagent, hctx⟩ := hfound
      exact ⟨agent, (Function.update_of_ne hid _ _).trans hagent, hctx⟩

theorem Inv.found_holds (I : Inv s) (h : s.Found id ctx)
    : id ≠ 0 ∧ (s.channels ctx).Holds s.agents id := by
  obtain ⟨agent, hagent, rfl⟩ := h
  obtain ⟨-, hid, hplayer, hroutes⟩ := I.entry id agent hagent
  rcases hroutes with hcurrent | hloop
  . exact ⟨hid, .inl ⟨agent, hcurrent, hplayer⟩⟩
  . exact ⟨hid, .inr hloop⟩

theorem Inv.found_unique {id' : Int64} (I : Inv s) (h : s.Found id ctx) (h' : s.Found id' ctx)
    : id = id' :=
  (I.found_holds h).2.unique (I.found_holds h').2

theorem Inv.removeAgent (I : Inv s) (hstep : removeAgent s ctx = some s') : Inv s' := by
  unfold Gate.removeAgent at hstep
  split at hstep
  case h_2 => cases hstep
  case h_1 id hremoving =>
    cases hstep
    have hclosed := I.closed ctx (.inr ⟨id, hremoving⟩)
    -- The player has been found at this connection, if at any, and it is closed.
    have I' := I.erase id s.kicked (List.Subset.refl _) (by
      intro ctx' hfound hopen
      obtain ⟨hid, hholds⟩ := I.found_holds hfound
      obtain rfl := I.unique id ctx' ctx hid hholds (.inr hremoving)
      simp [hclosed] at hopen)
    refine I'.setChannel ctx ?_ ?_ ?_ ?_ ?_ ?_
    . intro agent h
      exact I.own ctx agent (.inl (by simpa using h))
    . intro id' agent h hctx
      rcases I'.routes h hctx with (⟨hloop, -⟩ | hloop) | hloop
      . simp [hremoving] at hloop
      . simp [hremoving] at hloop
      . obtain rfl : id = id' := by simpa [hremoving] using hloop
        simp at h
    . intro _ _ _ _ _
      exact .inr rfl
    . intro id _ h
      simp [Channel.Holds, Channel.Current] at h
    . intro _
      exact hclosed
    . intro hopen
      exact hopen

theorem Inv.validate (I : Inv s) (hid : id ≠ 0) (hlt : agent < s.created)
    (hcurrent : (s.channelOf agent).Current agent)
    (hplayer : (s.agents agent).playerId = 0 ∨ (s.agents agent).playerId = id)
    (hothers : ∀ ctx ≠ (s.agents agent).ctx, ¬ (s.channels ctx).Holds s.agents id)
    : Inv { s with
        agents := Function.update s.agents agent { s.agents agent with valid := true, playerId := id }
        link := .registering agent request id } := by
  set agents := Function.update s.agents agent
    { s.agents agent with valid := true, playerId := id } with hagents
  have hctx : ∀ agent', (agents agent').ctx = (s.agents agent').ctx := by
    intro agent'
    by_cases h : agent' = agent
    . simp [hagents, h]
    . simp [hagents, h]
  have hsame : ∀ agent' id', id' ≠ 0 → (s.agents agent').playerId = id' →
      (agents agent').playerId = id' := by
    intro agent' id' hid' h
    by_cases heq : agent' = agent
    . subst heq
      have hne : (s.agents agent').playerId ≠ 0 := h ▸ hid'
      simpa [hagents, hplayer.resolve_left hne] using h
    . simpa [hagents, heq] using h
  have hholds : ∀ ctx id', (s.channels ctx).Holds agents id' →
      (s.channels ctx).Holds s.agents id' ∨ ctx = (s.agents agent).ctx ∧ id' = id := by
    rintro ctx id' (⟨agent', hcurrent', h⟩ | hloop)
    . by_cases heq : agent' = agent
      . subst heq
        have hown : (s.agents agent').ctx = ctx := by
          rcases hcurrent' with ⟨-, hagent⟩ | hloop
          . exact (I.own ctx agent' (.inl hagent)).2
          . exact (I.own ctx agent' (.inr hloop)).2
        exact .inr ⟨hown.symm, by simpa [hagents] using h.symm⟩
      . exact .inl (.inl ⟨agent', hcurrent', by simpa [hagents, heq] using h⟩)
    . exact .inl (.inr hloop)
  refine ⟨?_, I.user, ?_, ?_, ?_, ?_, I.closed, ?_⟩
  . intro ctx agent' h
    rw [hctx]
    exact I.own ctx agent' h
  . intro id' agent' h
    obtain ⟨hlt', hid', hplayer', hroutes⟩ := I.entry id' agent' h
    refine ⟨hlt', hid', hsame agent' id' hid' hplayer', ?_⟩
    unfold State.channelOf
    rw [hctx]
    exact hroutes
  . intro id' ctx₁ ctx₂ hid' h₁ h₂
    rcases hholds ctx₁ id' h₁ with held₁ | ⟨rfl, rfl⟩
    . rcases hholds ctx₂ id' h₂ with held₂ | ⟨rfl, rfl⟩
      . exact I.unique id' ctx₁ ctx₂ hid' held₁ held₂
      . by_contra hne
        exact hothers ctx₁ hne held₁
    . rcases hholds ctx₂ id' h₂ with held₂ | ⟨rfl, -⟩
      . by_contra hne
        exact hothers ctx₂ (Ne.symm hne) held₂
      . rfl
  . intro agent' request' id' h
    cases h
    refine ⟨hlt, hid, by simp [hagents], .inl (.inl ?_)⟩
    unfold State.channelOf
    rw [hctx]
    exact hcurrent
  . intro agent' h
    cases h
  . intro id' ctx hlatest hopen hkicked
    obtain ⟨agent', hentry, h⟩ := I.latest id' ctx hlatest hopen hkicked
    exact ⟨agent', hentry, (hctx agent').trans h⟩

theorem Inv.actionLoginResult (I : Inv s) (hok : Orderly s (.actionLoginResult request id))
    (hstep : actionLoginResult s request id = some s')
    : Inv s' := by
  obtain ⟨hid, hok⟩ := hok
  unfold Gate.actionLoginResult at hstep
  split at hstep
  case h_2 => cases hstep
  case h_1 _ ctx userId _ hrequest =>
    split at hstep
    case isTrue => cases hstep
    case isFalse =>
      cases huser : s.userMap userId with
      | none =>
        simp only [huser] at hstep
        cases hstep
        exact I.logs _ _ _ _
      | some agent =>
        simp only [huser] at hstep
        cases hstep
        obtain ⟨hcurrent, hplayer, hothers⟩ := hok ctx userId agent hrequest huser
        have hlt := I.user userId agent huser
        exact (I.logs _ (s.answered ++ [request]) (s.accepted ++ [(request, id)])
          (s.validated ++ [⟨(s.agents agent).ctx, request, id⟩])).validate hid hlt hcurrent hplayer
            hothers

theorem Inv.registerAgent (I : Inv s) (hok : Orderly s .registerAgent)
    (hstep : registerAgent s = some s')
    : Inv s' := by
  unfold Gate.registerAgent at hstep
  split at hstep
  case h_2 => cases hstep
  case h_1 agent request id hlink =>
    cases hstep
    obtain ⟨hlt, hid, hplayer, hroutes⟩ := I.registering agent request id hlink
    have hroutes := hroutes.resolve_right (hok agent request id hlink)
    rw [hplayer]
    refine ⟨I.own, I.user, ?_, I.unique, ?_, ?_, I.closed, ?_⟩
    . intro id' agent' h
      simp only [Function.update_apply] at h
      split at h
      case isTrue heq =>
        obtain rfl := Option.some.inj h
        subst heq
        exact ⟨hlt, hid, hplayer, hroutes⟩
      case isFalse => exact I.entry id' agent' h
    . intro _ _ _ h
      cases h
    . intro _ h
      cases h
    . intro id' ctx hlatest hopen hkicked
      simp only [Function.update_apply] at hlatest
      split at hlatest
      case isTrue heq =>
        obtain rfl := Option.some.inj hlatest
        subst heq
        exact ⟨agent, Function.update_self .., rfl⟩
      case isFalse hne =>
        obtain ⟨agent', hentry, hctx⟩ := I.latest id' ctx hlatest hopen hkicked
        exact ⟨agent', (Function.update_of_ne hne _ _).trans hentry, hctx⟩

theorem Inv.kickAgent (I : Inv s) (hstep : kickAgent s id = some s') : Inv s' := by
  unfold Gate.kickAgent at hstep
  split at hstep
  case h_3 => cases hstep
  case h_1 =>
    cases hstep
    exact I
  case h_2 agent _ hagent =>
    cases hstep
    have I' := I.erase id (s.kicked ++ [(s.agents agent).ctx])
      (List.subset_append_left _ _) (by
        rintro ctx ⟨agent', hagent', rfl⟩ -
        obtain rfl := Option.some.inj (hagent.symm.trans hagent')
        simp)
    refine ⟨I'.own, I'.user, I'.entry, I'.unique, ?_, ?_, I'.closed, I'.latest⟩
    . intro _ _ _ h
      cases h
    . intro agent' h
      cases h
      refine ⟨(I.entry id agent hagent).1, ?_⟩
      rintro id' ⟨agent', hagent', hctx⟩
      -- A second entry of the connection would be of the player whose entry has just gone.
      simp only [Function.update_apply] at hagent'
      split at hagent'
      case isTrue => cases hagent'
      case isFalse hne =>
        exact hne (I.found_unique ⟨agent', hagent', hctx⟩ ⟨agent, hagent, rfl⟩)

theorem Inv.closeAgent (I : Inv s) (hstep : closeAgent s = some s') : Inv s' := by
  unfold Gate.closeAgent at hstep
  split at hstep
  case h_2 => cases hstep
  case h_1 agent hlink =>
    cases hstep
    have hnone := (I.kicking agent hlink).2
    have I' : Inv (s.setChannel (s.agents agent).ctx
        ⟨none, false, (s.channels (s.agents agent).ctx).loop⟩) := by
      refine I.setChannel _ ?_ ?_ ?_ ?_ ?_ ?_
      . intro agent' h
        exact I.own _ agent' (.inr (by simpa using h))
      . intro id agent' h hctx
        exact absurd ⟨agent', h, hctx⟩ (hnone id)
      . intro _ _ _ h
        simp [hlink] at h
      . rintro id - (⟨agent', ⟨-, hagent⟩ | hloop, hplayer⟩ | hloop)
        . cases hagent
        . exact .inl ⟨agent', .inr hloop, hplayer⟩
        . exact .inr hloop
      . intro _
        rfl
      . intro h
        cases h
    refine ⟨I'.own, I'.user, I'.entry, I'.unique, ?_, ?_, I'.closed, I'.latest⟩
    . intro _ _ _ h
      cases h
    . intro _ h
      cases h

theorem Inv.refuse (I : Inv s) (hstep : refuse s request = some s') : Inv s' := by
  unfold Gate.refuse at hstep
  split at hstep
  case isTrue =>
    cases hstep
    exact I.logs _ _ _ _
  case isFalse => cases hstep

theorem Inv.step (I : Inv s) (hok : Orderly s a) (hstep : step s a = some s') : Inv s' := by
  cases a with
  | sendRequest ctx userId => exact I.sendRequest hok hstep
  | registerUserAgent ctx => exact I.registerUserAgent hstep
  | setAttribute ctx => exact I.setAttribute hstep
  | close ctx => exact I.close hstep
  | channelInactive ctx => exact I.channelInactive hstep
  | removeAgent ctx => exact I.removeAgent hstep
  | refuse request => exact I.refuse hstep
  | actionLoginResult request id => exact I.actionLoginResult hok hstep
  | registerAgent => exact I.registerAgent hok hstep
  | kickAgent id => exact I.kickAgent hstep
  | closeAgent => exact I.closeAgent hstep

theorem Inv.routed (I : Inv s) : Routed s := by
  constructor
  . intro id agent h hinactive
    rcases (I.entry id agent h).2.2.2 with (⟨hloop, -⟩ | hloop) | hloop <;> simp [hinactive] at hloop
  . exact I.latest

/-- Every player is found as long as all steps of a run are orderly. -/
theorem routed_of_run {actions : List Action} (hrun : Run (stepOf step) Orderly start actions s)
    : Routed s := by
  have I := hrun.invariant Inv inv_start fun _ _ _ I hok hstep => I.step hok hstep
  exact I.routed

theorem routed_of_run_oneLogin
    : ∃ s, Run (stepOf step) Orderly start
          [.sendRequest 0 5, .registerUserAgent 0, .actionLoginResult 0 7, .setAttribute 0,
            .registerAgent, .close 0, .channelInactive 0, .removeAgent 0] s
        ∧ Routed s := by
  have hrun : Run (stepOf step) Orderly start ([] ++ [.sendRequest 0 5]) _ :=
    .next .start (by simp [Orderly, start]) rfl
  have hrun := hrun.next (a := Action.registerUserAgent 0) trivial rfl
  have hrun := hrun.next (a := Action.actionLoginResult 0 7) ?_ rfl
  . have hrun := hrun.next (a := Action.setAttribute 0) trivial rfl
    have hrun := hrun.next (a := Action.registerAgent) ?_ rfl
    . have hrun := hrun.next (a := Action.close 0) trivial rfl
      have hrun := hrun.next (a := Action.channelInactive 0) trivial rfl
      have hrun := hrun.next (a := Action.removeAgent 0) trivial rfl
      exact ⟨_, hrun, routed_of_run hrun⟩
    . rintro _ _ _ ⟨⟩ ⟨⟩
  . refine ⟨by decide, ?_⟩
    rintro _ _ _ ⟨⟩ ⟨⟩
    refine ⟨.inr rfl, .inl rfl, ?_⟩
    intro ctx hctx
    have hctx : ctx ≠ 0 := hctx
    simp [hctx, Channel.Holds, Channel.Current, State.setLoop, State.setChannel, start]

theorem routed_counterexample
    : ¬ ∀ actions s, Run (stepOf step) anyLabel start actions s → Routed s := by
  intro h
  let login (ctx : Nat) : List Action :=
    [.sendRequest ctx 5, .registerUserAgent ctx, .setAttribute ctx, .actionLoginResult ctx 7,
      .registerAgent]
  have hrouted := h (login 0 ++ login 1 ++ [.close 0, .channelInactive 0, .removeAgent 0]) _
    (Run.of_foldlM rfl)
  obtain ⟨agent, hagent, -⟩ := hrouted.latest 7 1 rfl rfl (by decide)
  cases hagent

end WzGame.Gate
