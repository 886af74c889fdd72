import WzGame.Network.CenterModule
import WzGame.Network.CenterSessions

/-!
This module contains which servers the center directs its clients and requests to, and when these are
servers that are still connected.
-/

namespace WzGame

open Runs

namespace CenterDispatch

structure State where
  center : Center
  inactive : List Nat
  tokenMap : CenterModule.TokenMap

inductive Action where
  | channelActive (remoteAddress : Option String)
  | channelInactive (number : Nat)
  | registerServer (number : Nat) (req : List String)
  | dispatchGate (order : Iteration) (request : List String)

def start (startTime : Int64) : State := ⟨.start startTime, [], fun _ => none⟩

-- the address of a session; `null` is written out
def address (session : ServerSession) : String × Int :=
  (session.remoteAddress.getD "null", session.localPort.toInt)

def dispatchGate (s : State) (order : Iteration) (request : List String)
    : CenterModule.TokenMap × Option (List String) :=
  let session := (s.center.getMinLoadSession order .gate).bind fun number => s.center.sessions[number]?
  CenterModule.actionDispatchGate (session.map address) request s.tokenMap

def step (s : State) : Action → Option State
  | .channelActive remoteAddress => some { s with center := s.center.channelActive remoteAddress }
  | .channelInactive number =>
    if number < s.center.sessions.length then
      some { s with
        center := s.center.channelInactive number
        inactive := s.inactive ++ [number] }
    else
      none
  | .registerServer number req => some { s with center := (s.center.actionRegisterServer number req).1 }
  | .dispatchGate order request => some { s with tokenMap := (dispatchGate s order request).1 }

structure NoDead (s : State) : Prop where
  minLoad : ∀ order appId number, s.center.getMinLoadSession order appId = some number
    → number ∉ s.inactive
  session : ∀ appId serverId number, s.center.manager.getServerSession appId serverId = some number
    → number ∉ s.inactive
  dispatched : ∀ order request answer, (dispatchGate s order request).2 = some answer
    → ∃ number ∉ s.inactive, ∃ session, s.center.sessions[number]? = some session
      ∧ answer = [(address session).1 ++ ":" ++ toString (address session).2]

def StaysUp (s : State) : Action → Prop
  | .channelInactive number => ∀ id ∈ AppId.values, ∀ entry ∈ s.center.manager.sessionMap id,
      entry.2 ≠ number
  | .registerServer number _ => number ∉ s.inactive
  | _ => True

instance {s : State} {a : Action} : Decidable (StaysUp s a) :=
  match a with
  | .channelInactive _ => inferInstanceAs (Decidable (∀ _ ∈ _, ∀ _ ∈ _, _))
  | .registerServer _ _ => inferInstanceAs (Decidable (¬ _))
  | .channelActive _ | .dispatchGate _ _ => inferInstanceAs (Decidable True)

variable {s s' : State} {startTime : Int64} {order : Iteration} {request answer : List String}

def Up (s : State) : Prop :=
  ∀ id, ∀ entry ∈ s.center.manager.sessionMap id, entry.2 ∉ s.inactive

theorem up_start : Up (start startTime) := nofun

theorem Up.step (U : Up s) {a : Action} (hok : StaysUp s a) (h : step s a = some s') : Up s' := by
  cases a with
  | channelActive remoteAddress =>
    obtain rfl := Option.some.inj h
    exact U
  | channelInactive number =>
    simp only [CenterDispatch.step] at h
    split at h
    . obtain rfl := Option.some.inj h
      intro id entry hentry hinactive
      rcases List.mem_append.mp hinactive with hold | hlast
      . exact U id entry hentry hold
      . exact hok id AppId.mem_values entry hentry (List.mem_singleton.mp hlast)
    . contradiction
  | registerServer number req =>
    obtain rfl := Option.some.inj h
    intro id entry hentry
    rcases s.center.actionRegisterServer_cases number req
      with ⟨session, hfail⟩ | ⟨id', session, session', manager, -, -, hregister, hanswer⟩
    . rw [hfail] at hentry
      exact U id entry hentry
    . rw [hanswer] at hentry
      rcases ServerManager.mem_registerServer hregister hentry with hold | rfl
      . exact U id entry hold
      . exact hok
  | dispatchGate order request =>
    obtain rfl := Option.some.inj h
    exact U

theorem exists_of_dispatchGate (h : (dispatchGate s order request).2 = some answer)
    : ∃ number session, s.center.getMinLoadSession order .gate = some number
        ∧ s.center.sessions[number]? = some session
        ∧ answer = [(address session).1 ++ ":" ++ toString (address session).2] := by
  unfold dispatchGate CenterModule.actionDispatchGate at h
  simp only at h
  split at h
  . next gateIp gatePort userId token hgate hdispatched =>
    obtain ⟨session, hsession, haddress⟩ := Option.map_eq_some_iff.mp hgate
    obtain ⟨number, hnumber, hsession⟩ := Option.bind_eq_some_iff.mp hsession
    obtain rfl := Option.some.inj h
    refine ⟨number, session, hnumber, hsession, ?_⟩
    rw [haddress]
  . contradiction

theorem Up.noDead (U : Up s) : NoDead s where
  minLoad := by
    intro order appId number h
    obtain ⟨serverId, hentry⟩ := ServerManager.getMinLoadSession_mem h
    exact U appId _ hentry
  session := by
    intro appId serverId number h
    exact U appId _ (ServerManager.mem_of_getServerSession h)
  dispatched := by
    intro order request answer h
    obtain ⟨number, session, hnumber, hsession, hanswer⟩ := exists_of_dispatchGate h
    obtain ⟨serverId, hentry⟩ := ServerManager.getMinLoadSession_mem hnumber
    exact ⟨number, U .gate _ hentry, session, hsession, hanswer⟩

/-- As long as the registered servers stay connected, no client is directed to a server that is down. -/
theorem noDead_of_run {as : List Action} (hrun : Run (stepOf step) StaysUp (start startTime) as s)
    : NoDead s :=
  (hrun.invariant Up up_start fun _ _ _ U hok hstep => U.step hok hstep).noDead

def register (number : Nat) (port : String) : Action :=
  .registerServer number ["5", "0", "0", "10.0.0.1", port]

def takeOver : List Action :=
  [.channelActive none, register 0 "9091", .channelActive none,
    .registerServer 1 ["5", "1", "7", "10.0.0.1", "9091"], .channelInactive 0,
    .dispatchGate .insertionOrder ["5:c4ca"]]

theorem noDead_of_run_takeOver
    : ∃ s, Run (stepOf step) StaysUp (start 7) takeOver s ∧ NoDead s := by
  obtain ⟨s, hrun, -⟩ : ∃ s, Run (stepOf step) StaysUp (start 7) takeOver s ∧ True :=
    Run.exists_of_decide (by decide)
  exact ⟨s, hrun, noDead_of_run hrun⟩

def gateDown : List Action :=
  [.channelActive none, register 0 "9091", .channelActive none, register 1 "9092", .channelInactive 0]

theorem noDead_counterexample
    : ∃ s, Run (stepOf step) anyLabel (start 7) gateDown s ∧ s.inactive = [0]
        ∧ s.center.manager.getServerSession .gate 2 = some 1
        ∧ (dispatchGate s .insertionOrder ["5:c4ca"]).2 = some ["10.0.0.1:9091"] ∧ ¬ NoDead s := by
  obtain ⟨s, hrun, hinactive, hup, hanswer, hchosen⟩ : ∃ s, Run (stepOf step) anyLabel (start 7) gateDown s
      ∧ s.inactive = [0] ∧ s.center.manager.getServerSession .gate 2 = some 1
      ∧ (dispatchGate s .insertionOrder ["5:c4ca"]).2 = some ["10.0.0.1:9091"]
      ∧ s.center.getMinLoadSession .insertionOrder .gate = some 0 := Run.exists_of_foldlM (by decide)
  refine ⟨s, hrun, hinactive, hup, hanswer, fun N => ?_⟩
  exact N.minLoad .insertionOrder .gate 0 hchosen (hinactive ▸ List.mem_singleton_self 0)

end CenterDispatch

end WzGame
