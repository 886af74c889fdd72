import WzGame.Util.Runs
import Mathlib.Data.UInt

/-!
This module contains the requests of a `NetClient` that have a callback, and how responses find them.
-/

namespace WzGame

open Runs

inductive ClientCall where
  | sent
  | blocked (permits : Nat)
  | returned
  | threw
deriving DecidableEq

structure TaskNode where
  seqId : Int32
  call : ClientCall
  responses : List (Int32 × ClientCall)
deriving DecidableEq

structure TaskNodes where
  ioSession : Option Nat
  nodeMap : Int32 → Option Nat
  nodes : List TaskNode

-- `threw` says that the callback throws, and `timeOut` that no permit has come for ten seconds.
inductive ClientAction where
  | sendRequest (seqId : Int32) (callback : Bool)
  | sendRequestSync (seqId : Int32)
  | sessionCreated (session : Nat) (seqId : Int32)
  | sessionInActive
  | messageReceived (reqId seqId : Int32) (threw : Bool)
  | acquire (n : Nat)
  | timeOut (n : Nat)

-- a callback that throws leaves a `SyncResponse` without its permit
def ClientCall.onResult (threw : Bool) : ClientCall → ClientCall
  | .blocked permits => .blocked (if threw then permits else permits + 1)
  | call => call

def TaskNode.onResult (node : TaskNode) (seqId : Int32) (threw : Bool) : TaskNode :=
  { node with call := node.call.onResult threw, responses := node.responses ++ [(seqId, node.call)] }

def TaskNode.Waiting (node : TaskNode) : Prop :=
  node.responses = [] ∧ node.call ≠ .returned ∧ node.call ≠ .threw

namespace TaskNodes

def REQUEST_FLAG : Int32 := 0x10000000

def isRequestMessage (reqId : Int32) : Bool := REQUEST_FLAG < reqId

def start : TaskNodes := ⟨none, fun _ => none, []⟩

-- the node is put before the packet is written, which throws without a session
def sendRequest (s : TaskNodes) (seqId : Int32) (call : ClientCall) : TaskNodes :=
  { s with
    nodeMap := Function.update s.nodeMap seqId (some s.nodes.length)
    nodes := s.nodes ++ [⟨seqId, if s.ioSession.isSome then call else .threw, []⟩] }

def messageReceived (s : TaskNodes) (reqId seqId : Int32) (threw : Bool) : TaskNodes :=
  if isRequestMessage reqId then
    s
  else
    match s.nodeMap seqId with
    | none => s
    | some n => { s with nodes := s.nodes.modify n fun node => node.onResult seqId threw }

def endCall (s : TaskNodes) (n : Nat) : TaskNodes :=
  { s with nodes := s.nodes.modify n fun node => { node with call := .returned } }

def step (s : TaskNodes) : ClientAction → Option TaskNodes
  | .sendRequest seqId callback => some (if callback then s.sendRequest seqId .sent else s)
  | .sendRequestSync seqId => some (s.sendRequest seqId (.blocked 0))
  | .sessionCreated session seqId => some ({ s with ioSession := some session }.sendRequest seqId .sent)
  | .sessionInActive => some s
  | .messageReceived reqId seqId threw => some (s.messageReceived reqId seqId threw)
  | .acquire n =>
    match (s.nodes[n]?).map TaskNode.call with
    | some (.blocked (_ + 1)) => some (s.endCall n)
    | _ => none
  | .timeOut n =>
    match (s.nodes[n]?).map TaskNode.call with
    | some (.blocked 0) => some (s.endCall n)
    | _ => none

/--
Each callback has run at most once, for the response to its own request and before the call was over, and
`nodeMap` holds the requests that wait for their response.
-/
structure Disciplined (s : TaskNodes) : Prop where
  once : ∀ node ∈ s.nodes, node.responses.length ≤ 1
  own : ∀ node ∈ s.nodes, ∀ r ∈ node.responses, r.1 = node.seqId
  inTime : ∀ node ∈ s.nodes, ∀ r ∈ node.responses, r.2 ≠ .returned ∧ r.2 ≠ .threw
  waiting : ∀ (seqId : Int32) (n : Nat), s.nodeMap seqId = some n
    ↔ ∃ node, s.nodes[n]? = some node ∧ node.seqId = seqId ∧ node.Waiting

def sendable (s : TaskNodes) (seqId : Int32) : Bool := s.ioSession.isSome && (s.nodeMap seqId).isNone

-- no node is put in the place of another one or left by a request that throws, and none is done with
def harmless (s : TaskNodes) : ClientAction → Bool
  | .sendRequest seqId callback => !callback || s.sendable seqId
  | .sendRequestSync seqId => s.sendable seqId
  | .sessionCreated _ seqId => (s.nodeMap seqId).isNone
  | .messageReceived reqId seqId _ => isRequestMessage reqId || (s.nodeMap seqId).isNone
  | .timeOut _ => false
  | _ => true

def Harmless (s : TaskNodes) (a : ClientAction) : Prop := s.harmless a = true

variable {s s' : TaskNodes} {a : ClientAction} {seqId : Int32} {n : Nat} {node : TaskNode} {call : ClientCall}

theorem mem_sendRequest (h : node ∈ (s.sendRequest seqId call).nodes)
    : node ∈ s.nodes ∨ node = ⟨seqId, if s.ioSession.isSome then call else .threw, []⟩ := by
  simpa [sendRequest] using h

structure Inv (s : TaskNodes) : Prop where
  idle : ∀ node ∈ s.nodes, node.responses = [] ∧ (node.call = .sent ∨ node.call = .blocked 0)
  nodeMap : ∀ (seqId : Int32) (n : Nat), s.nodeMap seqId = some n
    ↔ ∃ node, s.nodes[n]? = some node ∧ node.seqId = seqId

theorem inv_start : start.Inv where
  idle := nofun
  nodeMap := by simp [start]

theorem Inv.waiting (I : s.Inv) (h : node ∈ s.nodes) : node.Waiting := by
  obtain ⟨hresponses, hcall | hcall⟩ := I.idle node h
  . exact ⟨hresponses, by simp [hcall], by simp [hcall]⟩
  . exact ⟨hresponses, by simp [hcall], by simp [hcall]⟩

theorem Inv.disciplined (I : s.Inv) : s.Disciplined where
  once := by
    intro node hnode
    rw [(I.idle node hnode).1]
    exact Nat.zero_le 1
  own := by
    intro node hnode r hr
    rw [(I.idle node hnode).1] at hr
    contradiction
  inTime := by
    intro node hnode r hr
    rw [(I.idle node hnode).1] at hr
    contradiction
  waiting := by
    intro seqId n
    rw [I.nodeMap]
    constructor
    . rintro ⟨node, hnode, hseqId⟩
      exact ⟨node, hnode, hseqId, I.waiting (List.mem_of_getElem? hnode)⟩
    . rintro ⟨node, hnode, hseqId, -⟩
      exact ⟨node, hnode, hseqId⟩

theorem Inv.sendRequest (I : s.Inv) (hsession : s.ioSession.isSome = true) (hfree : s.nodeMap seqId = none)
    (hcall : call = .sent ∨ call = .blocked 0) : (s.sendRequest seqId call).Inv where
  idle := by
    intro node hnode
    rcases mem_sendRequest hnode with hold | rfl
    . exact I.idle node hold
    . rw [if_pos hsession]
      exact ⟨rfl, hcall⟩
  nodeMap := by
    intro seqId' n
    simp only [TaskNodes.sendRequest]
    by_cases hn : n = s.nodes.length
    . subst hn
      rw [List.getElem?_concat_length]
      by_cases hseqId : seqId' = seqId
      . simp [hseqId]
      . rw [Function.update_of_ne hseqId, I.nodeMap]
        simp [Ne.symm hseqId]
    . have hlookup : (s.nodes ++ [(⟨seqId, if s.ioSession.isSome then call else .threw, []⟩ : TaskNode)])[n]?
          = s.nodes[n]? := by
        by_cases hlt : n < s.nodes.length
        . rw [List.getElem?_append_left hlt]
        . rw [List.getElem?_eq_none (by simp; omega), List.getElem?_eq_none (by omega)]
      rw [hlookup, ← I.nodeMap]
      by_cases hseqId : seqId' = seqId
      . subst hseqId
        rw [Function.update_self, hfree]
        simp [Ne.symm hn]
      . rw [Function.update_of_ne hseqId]

theorem sendable_iff : s.sendable seqId = true ↔ s.ioSession.isSome = true ∧ s.nodeMap seqId = none := by
  simp [sendable]

theorem Inv.withSession (I : s.Inv) (session : Nat) : ({ s with ioSession := some session } : TaskNodes).Inv :=
  ⟨I.idle, I.nodeMap⟩

theorem messageReceived_of_free {reqId : Int32} {threw : Bool}
    (h : isRequestMessage reqId = true ∨ s.nodeMap seqId = none) : s.messageReceived reqId seqId threw = s := by
  unfold messageReceived
  rcases h with hrequest | hnone
  . rw [if_pos hrequest]
  . rw [hnone]
    split <;> rfl

theorem messageReceived_of_some {reqId : Int32} {threw : Bool} (hrequest : isRequestMessage reqId = false)
    (h : s.nodeMap seqId = some n)
    : s.messageReceived reqId seqId threw
      = { s with nodes := s.nodes.modify n fun node => node.onResult seqId threw } := by
  unfold messageReceived
  rw [h, hrequest]
  rfl

theorem step_acquire (h : s.step (.acquire n) = some s')
    : ∃ node permits, s.nodes[n]? = some node ∧ node.call = .blocked (permits + 1) ∧ s' = s.endCall n := by
  simp only [step] at h
  split at h
  . next permits hcall =>
    obtain ⟨node, hnode, hcall⟩ := Option.map_eq_some_iff.mp hcall
    exact ⟨node, permits, hnode, hcall, (Option.some.inj h).symm⟩
  . contradiction

theorem step_timeOut (h : s.step (.timeOut n) = some s')
    : ∃ node, s.nodes[n]? = some node ∧ node.call = .blocked 0 ∧ s' = s.endCall n := by
  simp only [step] at h
  split at h
  . next hcall =>
    obtain ⟨node, hnode, hcall⟩ := Option.map_eq_some_iff.mp hcall
    exact ⟨node, hnode, hcall, (Option.some.inj h).symm⟩
  . contradiction

theorem messageReceived_cases (s : TaskNodes) (reqId seqId : Int32) (threw : Bool)
    : (isRequestMessage reqId = true ∨ s.nodeMap seqId = none) ∧ s.messageReceived reqId seqId threw = s
      ∨ isRequestMessage reqId = false ∧ ∃ n, s.nodeMap seqId = some n
        ∧ s.messageReceived reqId seqId threw
          = { s with nodes := s.nodes.modify n fun node => node.onResult seqId threw } := by
  cases hrequest : isRequestMessage reqId with
  | true => exact .inl ⟨.inl rfl, messageReceived_of_free (.inl hrequest)⟩
  | false =>
    cases hmap : s.nodeMap seqId with
    | none => exact .inl ⟨.inr rfl, messageReceived_of_free (.inr hmap)⟩
    | some n => exact .inr ⟨rfl, n, rfl, messageReceived_of_some hrequest hmap⟩

theorem step_cases (h : s.step a = some s')
    : s' = s
      ∨ (∃ session seqId call, s' = ({ s with ioSession := session } : TaskNodes).sendRequest seqId call)
      ∨ (∃ reqId seqId threw n, a = .messageReceived reqId seqId threw ∧ isRequestMessage reqId = false
        ∧ s.nodeMap seqId = some n
        ∧ s' = { s with nodes := s.nodes.modify n fun node => node.onResult seqId threw })
      ∨ ∃ n, s' = s.endCall n := by
  cases a with
  | sendRequest seqId callback =>
    obtain rfl := Option.some.inj h
    cases callback with
    | false => exact .inl rfl
    | true => exact .inr (.inl ⟨s.ioSession, seqId, .sent, rfl⟩)
  | sendRequestSync seqId => exact .inr (.inl ⟨s.ioSession, seqId, .blocked 0, (Option.some.inj h).symm⟩)
  | sessionCreated session seqId =>
    exact .inr (.inl ⟨some session, seqId, .sent, (Option.some.inj h).symm⟩)
  | sessionInActive => exact .inl (Option.some.inj h).symm
  | messageReceived reqId seqId threw =>
    obtain rfl := Option.some.inj h
    rcases s.messageReceived_cases reqId seqId threw with ⟨-, heq⟩ | ⟨hrequest, n, hmap, heq⟩
    . exact .inl heq
    . exact .inr (.inr (.inl ⟨reqId, seqId, threw, n, rfl, hrequest, hmap, heq⟩))
  | acquire n =>
    obtain ⟨-, -, -, -, heq⟩ := step_acquire h
    exact .inr (.inr (.inr ⟨n, heq⟩))
  | timeOut n =>
    obtain ⟨-, -, -, heq⟩ := step_timeOut h
    exact .inr (.inr (.inr ⟨n, heq⟩))

theorem Inv.step (I : s.Inv) (hok : s.Harmless a) (h : s.step a = some s') : s'.Inv := by
  cases a with
  | sendRequest seqId callback =>
    obtain rfl := Option.some.inj h
    cases callback with
    | false => exact I
    | true =>
      obtain ⟨hsession, hfree⟩ := sendable_iff.mp (show s.sendable seqId = true from hok)
      exact I.sendRequest hsession hfree (.inl rfl)
  | sendRequestSync seqId =>
    obtain rfl := Option.some.inj h
    obtain ⟨hsession, hfree⟩ := sendable_iff.mp hok
    exact I.sendRequest hsession hfree (.inr rfl)
  | sessionCreated session seqId =>
    obtain rfl := Option.some.inj h
    exact (I.withSession session).sendRequest rfl (Option.isNone_iff_eq_none.mp hok) (.inl rfl)
  | sessionInActive =>
    obtain rfl := Option.some.inj h
    exact I
  | messageReceived reqId seqId threw =>
    obtain rfl := Option.some.inj h
    have hfree : isRequestMessage reqId = true ∨ s.nodeMap seqId = none := by
      simpa [Harmless, harmless] using hok
    rw [messageReceived_of_free hfree]
    exact I
  | acquire n =>
    obtain ⟨node, permits, hnode, hcall, -⟩ := step_acquire h
    rcases (I.idle node (List.mem_of_getElem? hnode)).2 with hsent | hblocked
    . rw [hcall] at hsent
      contradiction
    . rw [hcall] at hblocked
      simp at hblocked
  | timeOut n => contradiction

theorem Disciplined.sendRequest (D : (s.sendRequest seqId call).Disciplined) (I : s.Inv)
    : s.ioSession.isSome = true ∧ s.nodeMap seqId = none := by
  constructor
  . obtain ⟨node, hnode, -, hwaiting⟩ := (D.waiting seqId s.nodes.length).mp (Function.update_self _ _ _)
    simp only [TaskNodes.sendRequest, List.getElem?_concat_length] at hnode
    obtain rfl := Option.some.inj hnode
    by_contra hsession
    exact hwaiting.2.2 (if_neg hsession)
  . cases hold : s.nodeMap seqId with
    | none => rfl
    | some n =>
      obtain ⟨node, hnode, hseqId⟩ := (I.nodeMap seqId n).mp hold
      have hlt : n < s.nodes.length := (List.getElem?_eq_some_iff.mp hnode).1
      have hlookup : (s.sendRequest seqId call).nodes[n]? = some node := by
        rw [TaskNodes.sendRequest, List.getElem?_append_left hlt, hnode]
      have hmap := (D.waiting seqId n).mpr ⟨node, hlookup, hseqId, I.waiting (List.mem_of_getElem? hnode)⟩
      have hnew : (s.sendRequest seqId call).nodeMap seqId = some s.nodes.length := Function.update_self _ _ _
      rw [hnew] at hmap
      have := Option.some.inj hmap
      omega

theorem Disciplined.waits (D : s.Disciplined) (hmap : s.nodeMap seqId = some n)
    (hnode : s.nodes[n]? = some node) : node.Waiting := by
  obtain ⟨node', hnode', -, hwaiting⟩ := (D.waiting seqId n).mp hmap
  rw [hnode] at hnode'
  obtain rfl := Option.some.inj hnode'
  exact hwaiting

theorem Inv.harmless (I : s.Inv) (h : s.step a = some s') (D : s'.Disciplined) : s.Harmless a := by
  cases a with
  | sendRequest seqId callback =>
    obtain rfl := Option.some.inj h
    cases callback with
    | false => rfl
    | true => exact sendable_iff.mpr (D.sendRequest I)
  | sendRequestSync seqId =>
    obtain rfl := Option.some.inj h
    exact sendable_iff.mpr (D.sendRequest I)
  | sessionCreated session seqId =>
    obtain rfl := Option.some.inj h
    exact Option.isNone_iff_eq_none.mpr (D.sendRequest (I.withSession session)).2
  | sessionInActive => rfl
  | messageReceived reqId seqId threw =>
    obtain rfl := Option.some.inj h
    rcases s.messageReceived_cases reqId seqId threw with ⟨hfree, -⟩ | ⟨-, n, hmap, heq⟩
    . simpa [Harmless, TaskNodes.harmless] using hfree
    . rw [heq] at D
      obtain ⟨node, hnode, -⟩ := (I.nodeMap seqId n).mp hmap
      have hnode' : (s.nodes.modify n fun node => node.onResult seqId threw)[n]?
          = some (node.onResult seqId threw) := by simp [hnode]
      have hwaiting := (D.waits hmap hnode').1
      simp [TaskNode.onResult] at hwaiting
  | acquire n => rfl
  | timeOut n =>
    obtain ⟨node, hnode, -, rfl⟩ := step_timeOut h
    have hmap := (I.nodeMap node.seqId n).mpr ⟨node, hnode, rfl⟩
    have hnode' : (s.endCall n).nodes[n]? = some { node with call := .returned } := by
      simp [endCall, hnode]
    exact absurd rfl (D.waits (s := s.endCall n) hmap hnode').2.1

/--
The runs that are disciplined in every state are those in which no node is put in the place of another one
or left by a request that throws, and none is done with: no node is ever removed.
-/
theorem disciplined_iff {as : List ClientAction}
    : Run (stepOf step) (fun s _ => s.Disciplined) start as s ∧ s.Disciplined
      ↔ Run (stepOf step) Harmless start as s := by
  refine holds_iff Inv Disciplined ⟨inv_start, inv_start.disciplined⟩
    (fun _ _ _ I _ hok hstep => I.step hok hstep) fun s a s' I _ hstep => ?_
  exact ⟨I.harmless hstep, fun hok => (I.step hok hstep).disciplined⟩

def FindsWaiting (s : TaskNodes) : ClientAction → Prop
  | .messageReceived reqId seqId _ => isRequestMessage reqId = false
    → ∀ (n : Nat) node, s.nodeMap seqId = some n → s.nodes[n]? = some node → node.Waiting
  | _ => True

structure Called (s : TaskNodes) : Prop where
  once : ∀ node ∈ s.nodes, node.responses.length ≤ 1
  inTime : ∀ node ∈ s.nodes, ∀ r ∈ node.responses, r.2 ≠ .returned ∧ r.2 ≠ .threw

structure Keyed (s : TaskNodes) : Prop where
  nodeMap : ∀ (seqId : Int32) (n : Nat), s.nodeMap seqId = some n
    → ∃ node, s.nodes[n]? = some node ∧ node.seqId = seqId
  own : ∀ node ∈ s.nodes, ∀ r ∈ node.responses, r.1 = node.seqId

theorem keyed_start : start.Keyed := ⟨nofun, nofun⟩

theorem Keyed.sendRequest (K : s.Keyed) : (s.sendRequest seqId call).Keyed where
  nodeMap := by
    intro seqId' n hmap
    simp only [TaskNodes.sendRequest] at hmap ⊢
    by_cases hseqId : seqId' = seqId
    . subst hseqId
      rw [Function.update_self] at hmap
      obtain rfl := Option.some.inj hmap
      exact ⟨_, List.getElem?_concat_length, rfl⟩
    . rw [Function.update_of_ne hseqId] at hmap
      obtain ⟨node, hnode, hkey⟩ := K.nodeMap seqId' n hmap
      refine ⟨node, ?_, hkey⟩
      rw [List.getElem?_append_left (List.getElem?_eq_some_iff.mp hnode).1, hnode]
  own := by
    intro node hnode r hr
    rcases mem_sendRequest hnode with hold | rfl
    . exact K.own node hold r hr
    . contradiction

theorem mem_modify {f : TaskNode → TaskNode} (h : node ∈ s.nodes.modify n f)
    : node ∈ s.nodes ∨ ∃ old, s.nodes[n]? = some old ∧ node = f old := by
  obtain ⟨i, hi⟩ := List.getElem?_of_mem h
  rw [List.getElem?_modify] at hi
  obtain ⟨old, hold, heq⟩ := Option.map_eq_some_iff.mp hi
  split at heq
  . next hn => exact .inr ⟨old, hn ▸ hold, heq.symm⟩
  . exact .inl (heq ▸ List.mem_of_getElem? hold)

theorem Keyed.modify {f : TaskNode → TaskNode} (K : s.Keyed)
    (hf : ∀ node, s.nodes[n]? = some node → (f node).seqId = node.seqId
      ∧ ∀ r ∈ (f node).responses, r ∈ node.responses ∨ r.1 = node.seqId)
    : ({ s with nodes := s.nodes.modify n f } : TaskNodes).Keyed where
  nodeMap := by
    intro seqId m hmap
    obtain ⟨node, hnode, hkey⟩ := K.nodeMap seqId m hmap
    dsimp only
    rw [List.getElem?_modify, hnode]
    by_cases hnm : n = m
    . subst hnm
      exact ⟨f node, by simp, ((hf node hnode).1).trans hkey⟩
    . exact ⟨node, by simp [hnm], hkey⟩
  own := by
    intro node hnode r hr
    rcases mem_modify hnode with hmem | ⟨old, hold, rfl⟩
    . exact K.own node hmem r hr
    . rw [(hf old hold).1]
      rcases (hf old hold).2 r hr with hmem | heq
      . exact K.own old (List.mem_of_getElem? hold) r hmem
      . exact heq

theorem Keyed.step (K : s.Keyed) (h : s.step a = some s') : s'.Keyed := by
  rcases step_cases h with rfl | ⟨session, seqId, call, rfl⟩ | ⟨_, seqId, threw, n, -, -, hmap, rfl⟩ | ⟨n, rfl⟩
  . exact K
  . exact Keyed.sendRequest (s := { s with ioSession := session }) ⟨K.nodeMap, K.own⟩
  . obtain ⟨node', hnode', hkey⟩ := K.nodeMap seqId n hmap
    refine K.modify fun node hnode => ⟨rfl, fun r hr => ?_⟩
    rw [hnode] at hnode'
    obtain rfl := Option.some.inj hnode'
    rcases List.mem_append.mp hr with hold | hnew
    . exact .inl hold
    . obtain rfl := List.mem_singleton.mp hnew
      exact .inr hkey.symm
  . exact K.modify fun node _ => ⟨rfl, fun r hr => .inl hr⟩

theorem own_of_run {as : List ClientAction} (hrun : Run (stepOf step) anyLabel start as s)
    : ∀ node ∈ s.nodes, ∀ r ∈ node.responses, r.1 = node.seqId :=
  (hrun.invariant Keyed keyed_start fun _ _ _ K _ hstep => K.step hstep).own

theorem called_start : start.Called := ⟨nofun, nofun⟩

theorem Called.sendRequest (C : s.Called) : (s.sendRequest seqId call).Called where
  once := by
    intro node hnode
    rcases mem_sendRequest hnode with hold | rfl
    . exact C.once node hold
    . exact Nat.zero_le 1
  inTime := by
    intro node hnode r hr
    rcases mem_sendRequest hnode with hold | rfl
    . exact C.inTime node hold r hr
    . contradiction

theorem Called.endCall (C : s.Called) : (s.endCall n).Called where
  once := by
    intro node hnode
    rcases mem_modify hnode with hmem | ⟨old, hold, rfl⟩
    . exact C.once node hmem
    . exact C.once old (List.mem_of_getElem? hold)
  inTime := by
    intro node hnode r hr
    rcases mem_modify hnode with hmem | ⟨old, hold, rfl⟩
    . exact C.inTime node hmem r hr
    . exact C.inTime old (List.mem_of_getElem? hold) r hr

theorem Called.onResult {threw : Bool} (C : s.Called) (h : ∀ node, s.nodes[n]? = some node → node.Waiting)
    : ({ s with nodes := s.nodes.modify n fun node => node.onResult seqId threw } : TaskNodes).Called where
  once := by
    intro node hnode
    rcases mem_modify hnode with hmem | ⟨old, hold, rfl⟩
    . exact C.once node hmem
    . simp [TaskNode.onResult, (h old hold).1]
  inTime := by
    intro node hnode r hr
    rcases mem_modify hnode with hmem | ⟨old, hold, rfl⟩
    . exact C.inTime node hmem r hr
    . simp only [TaskNode.onResult, (h old hold).1, List.nil_append, List.mem_singleton] at hr
      rw [hr]
      exact (h old hold).2

theorem Called.step (C : s.Called) (hok : s.FindsWaiting a) (h : s.step a = some s') : s'.Called := by
  rcases step_cases h with rfl | ⟨session, seqId, call, rfl⟩ | ⟨_, seqId, threw, n, rfl, hrequest, hmap, rfl⟩
    | ⟨n, rfl⟩
  . exact C
  . exact Called.sendRequest (s := { s with ioSession := session }) ⟨C.once, C.inTime⟩
  . exact C.onResult fun node hnode => hok hrequest n node hmap hnode
  . exact C.endCall

theorem Called.findsWaiting (h : s.step a = some s') (C : s'.Called) : s.FindsWaiting a := by
  cases a with
  | messageReceived reqId seqId threw =>
    intro hrequest n node hmap hnode
    obtain rfl := Option.some.inj h
    rw [messageReceived_of_some hrequest hmap] at C
    have hmem : node.onResult seqId threw ∈ s.nodes.modify n fun node => node.onResult seqId threw :=
      List.mem_of_getElem? (i := n) (by simp [hnode])
    have honce := C.once _ hmem
    rw [TaskNode.onResult, List.length_append, List.length_singleton] at honce
    exact ⟨List.length_eq_zero_iff.mp (by omega), C.inTime _ hmem (seqId, node.call) (by simp [TaskNode.onResult])⟩
  | _ => trivial

theorem called_iff {as : List ClientAction}
    : Run (stepOf step) (fun s _ => s.Called) start as s ∧ s.Called
      ↔ Run (stepOf step) FindsWaiting start as s := by
  refine holds_iff (fun _ => True) Called ⟨trivial, called_start⟩ (fun _ _ _ _ _ _ _ => trivial)
    fun s a s' _ C hstep => ?_
  exact ⟨fun C' => C'.findsWaiting hstep, fun hok => C.step hok hstep⟩

def answeredLate : List ClientAction :=
  [.sessionCreated 1 1, .sendRequestSync 2, .timeOut 1, .messageReceived 5 2 false,
    .messageReceived 5 2 false]

theorem disciplined_counterexample
    : ∃ s, Run (stepOf step) anyLabel start answeredLate s
        ∧ s.nodes[1]? = some ⟨2, .returned, [(2, .returned), (2, .returned)]⟩
        ∧ s.nodeMap 2 = some 1 ∧ ¬ s.Disciplined := by
  obtain ⟨s, hrun, hnode, hmap⟩ : ∃ s, Run (stepOf step) anyLabel start answeredLate s
      ∧ s.nodes[1]? = some ⟨2, .returned, [(2, .returned), (2, .returned)]⟩ ∧ s.nodeMap 2 = some 1 :=
    Run.exists_of_foldlM (by decide)
  refine ⟨s, hrun, hnode, hmap, fun D => ?_⟩
  have honce := D.once _ (List.mem_of_getElem? hnode)
  simp at honce

end TaskNodes

end WzGame
