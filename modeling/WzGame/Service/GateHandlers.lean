import Mathlib.Logic.Function.Basic

/-!
This module contains the handlers of the gate server. Those of a connection run on the event loop of
that connection and those of the link to the center on the one of the link, and all of them share
the tables of `AgentManager`.
-/

namespace WzGame

namespace Gate

structure CocoAgent where
  playerId : Int64
  ctx : Nat
  userId : Int32
  valid : Bool

inductive Loop where
  | idle
  -- `channelRead` has sent the login request to the center.
  | sent (userId : Int32)
  -- `channelRead` has registered the new agent for the user.
  | registered (agent : Nat)
  -- `channelInactive` has read which player it is going to remove.
  | removing (playerId : Int64)
  | inactive

structure Channel where
  agent : Option Nat
  isOpen : Bool
  loop : Loop

inductive Link where
  | idle
  -- `actionLoginResult` has made the agent valid.
  | registering (agent request : Nat) (playerId : Int64)
  -- `kickAgent` has removed the agent.
  | kicking (agent : Nat)

structure Outcome where
  ctx : Nat
  request : Nat
  playerId : Int64
deriving DecidableEq

structure State where
  agents : Nat → CocoAgent
  created : Nat
  channels : Nat → Channel
  agentMap : Int64 → Option Nat
  userMap : Int32 → Option Nat
  link : Link
  requests : List (Nat × Int32)
  answered : List Nat
  -- What has happened so far: no handler reads it.
  accepted : List (Nat × Int64)
  validated : List Outcome
  written : List Outcome
  latest : Int64 → Option Nat
  kicked : List Nat

def start : State where
  agents _ := ⟨0, 0, 0, false⟩
  created := 0
  channels _ := ⟨none, true, .idle⟩
  agentMap _ := none
  userMap _ := none
  link := .idle
  requests := []
  answered := []
  accepted := []
  validated := []
  written := []
  latest _ := none
  kicked := []

def State.setChannel (s : State) (ctx : Nat) (channel : Channel) : State :=
  { s with channels := Function.update s.channels ctx channel }

theorem State.setChannel_channels {s : State} {ctx : Nat} {channel : Channel} (ctx' : Nat)
    : (s.setChannel ctx channel).channels ctx'
        = if ctx' = ctx then channel else s.channels ctx' := by
  simp [setChannel, Function.update_apply]

def State.setLoop (s : State) (ctx : Nat) (loop : Loop) : State :=
  s.setChannel ctx { s.channels ctx with loop }

def sendRequest (s : State) (ctx : Nat) (userId : Int32) : Option State :=
  match (s.channels ctx).loop with
  | .idle => some { s.setLoop ctx (.sent userId) with requests := s.requests ++ [(ctx, userId)] }
  | _ => none

def registerUserAgent (s : State) (ctx : Nat) : Option State :=
  match (s.channels ctx).loop with
  | .sent userId =>
    some { s.setLoop ctx (.registered s.created) with
      agents := Function.update s.agents s.created ⟨0, ctx, userId, false⟩
      created := s.created + 1
      userMap := Function.update s.userMap userId (some s.created) }
  | _ => none

def setAttribute (s : State) (ctx : Nat) : Option State :=
  match s.channels ctx with
  | ⟨_, isOpen, .registered agent⟩ =>
    some (s.setChannel ctx ⟨some agent, isOpen, .idle⟩)
  | _ => none

def close (s : State) (ctx : Nat) : Option State :=
  some (s.setChannel ctx { s.channels ctx with isOpen := false })

def channelInactive (s : State) (ctx : Nat) : Option State :=
  match s.channels ctx with
  | ⟨none, false, .idle⟩ => some (s.setLoop ctx .inactive)
  | ⟨some agent, false, .idle⟩ => some (s.setLoop ctx (.removing (s.agents agent).playerId))
  | _ => none

def removeAgent (s : State) (ctx : Nat) : Option State :=
  match (s.channels ctx).loop with
  | .removing id =>
    some { s.setLoop ctx .inactive with agentMap := Function.update s.agentMap id none }
  | _ => none

def Pending (s : State) (request : Nat) : Prop :=
  request < s.requests.length ∧ request ∉ s.answered

instance (s : State) (request : Nat) : Decidable (Pending s request) :=
  inferInstanceAs (Decidable (_ ∧ _))

def refuse (s : State) (request : Nat) : Option State :=
  if Pending s request then some { s with answered := s.answered ++ [request] } else none

def actionLoginResult (s : State) (request : Nat) (playerId : Int64) : Option State :=
  match s.link, s.requests[request]? with
  | .idle, some (_, userId) =>
    if request ∈ s.answered then
      none
    else
      let answered := s.answered ++ [request]
      let accepted := s.accepted ++ [(request, playerId)]
      match s.userMap userId with
      | none => some { s with answered, accepted }
      | some agent =>
        some { s with
          answered, accepted
          agents := Function.update s.agents agent { s.agents agent with valid := true, playerId }
          validated := s.validated ++ [⟨(s.agents agent).ctx, request, playerId⟩]
          link := .registering agent request playerId }
  | _, _ => none

def registerAgent (s : State) : Option State :=
  match s.link with
  | .registering agent request playerId =>
    let ctx := (s.agents agent).ctx
    some { s with
      agentMap := Function.update s.agentMap (s.agents agent).playerId (some agent)
      written := s.written ++ [⟨ctx, request, playerId⟩]
      latest := Function.update s.latest playerId (some ctx)
      link := .idle }
  | _ => none

def kickAgent (s : State) (id : Int64) : Option State :=
  match s.link, s.agentMap id with
  | .idle, none => some s
  | .idle, some agent =>
    some { s with
      agentMap := Function.update s.agentMap id none
      kicked := s.kicked ++ [(s.agents agent).ctx]
      link := .kicking agent }
  | _, _ => none

def closeAgent (s : State) : Option State :=
  match s.link with
  | .kicking agent =>
    let ctx := (s.agents agent).ctx
    some { s.setChannel ctx ⟨none, false, (s.channels ctx).loop⟩ with link := .idle }
  | _ => none

inductive Action where
  | sendRequest (ctx : Nat) (userId : Int32)
  | registerUserAgent (ctx : Nat)
  | setAttribute (ctx : Nat)
  | close (ctx : Nat)
  | channelInactive (ctx : Nat)
  | removeAgent (ctx : Nat)
  | refuse (request : Nat)
  | actionLoginResult (request : Nat) (playerId : Int64)
  | registerAgent
  | kickAgent (id : Int64)
  | closeAgent

def step (s : State) : Action → Option State
  | .sendRequest ctx userId => sendRequest s ctx userId
  | .registerUserAgent ctx => registerUserAgent s ctx
  | .setAttribute ctx => setAttribute s ctx
  | .close ctx => close s ctx
  | .channelInactive ctx => channelInactive s ctx
  | .removeAgent ctx => removeAgent s ctx
  | .refuse request => refuse s request
  | .actionLoginResult request playerId => actionLoginResult s request playerId
  | .registerAgent => registerAgent s
  | .kickAgent id => kickAgent s id
  | .closeAgent => closeAgent s

end Gate

end WzGame
