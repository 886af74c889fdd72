import WzGame.Network.NetClient

/-!
This module contains what the center does when servers connect to it, register themselves and are
disconnected.
-/

namespace WzGame

open MapObject

structure Center where
  startTime : Int64
  IDGEN : Int32
  sessions : List ServerSession
  manager : ServerManager

namespace Center

def start (startTime : Int64) : Center := ⟨startTime, 100000, [], .empty⟩

def channelActive (c : Center) (remoteAddress : Option String) : Center :=
  { c with
    IDGEN := c.IDGEN + 1
    sessions := c.sessions ++ [⟨remoteAddress, 0, c.IDGEN, none, 0⟩] }

def handleSessionInActive (c : Center) (_number : Nat) : Center := c

-- `ServerHandler.channelInactive`
def channelInactive (c : Center) (number : Nat) : Center := c.handleSessionInActive number

def setSession (c : Center) (number : Nat) (session : ServerSession) : Center :=
  { c with sessions := c.sessions.set number session }

-- the answer is `none` after an exception and if there is no such application
def actionRegisterServer (c : Center) (number : Nat) (req : List String)
    : Center × Option (List String) :=
  match c.sessions[number]?, (req[0]?.bind fun s => parseInt s.toList).bind AppId.getByValue with
  | some session, some appId =>
    let session := { session with appId := some appId }
    match c.manager.registerServer c.startTime appId number session req with
    | none => (c.setSession number session, none)
    | some (manager, session) =>
      ({ c.setSession number session with manager },
        some (NetClient.answer session.serverId c.startTime))
  | _, _ => (c, none)

def appId (c : Center) (number : Nat) : Option AppId := c.sessions[number]?.bind ServerSession.appId

def loadFactor (c : Center) (number : Nat) : Int32 :=
  (c.sessions[number]?.map ServerSession.loadFactor).getD 0

def removeServerSession (c : Center) (order : Iteration) (number : Nat) : Center :=
  { c with manager := c.manager.removeServerSession order (c.appId number) number }

def getMinLoadSession (c : Center) (order : Iteration) (appId : AppId) : Option Nat :=
  c.manager.getMinLoadSession order c.loadFactor appId

variable {c : Center} {number x : Nat} {req : List String} {session : ServerSession}

theorem appId_setSession_of_ne (h : x ≠ number)
    : (c.setSession number session).appId x = c.appId x := by
  rw [appId, setSession, List.getElem?_set_ne h.symm]
  rfl

theorem appId_setSession (h : number < c.sessions.length)
    : (c.setSession number session).appId number = session.appId := by
  rw [appId, setSession, List.getElem?_set_self h, Option.bind_some]

theorem exists_setSession (c : Center) (number : Nat)
    : ∃ session, c = c.setSession number session := by
  by_cases h : number < c.sessions.length
  . refine ⟨c.sessions[number], ?_⟩
    rw [setSession, List.set_getElem_self]
  . refine ⟨⟨none, 0, 0, none, 0⟩, ?_⟩
    rw [setSession, List.set_eq_of_length_le (Nat.not_lt.mp h)]

theorem actionRegisterServer_cases (c : Center) (number : Nat) (req : List String)
    : (∃ session, c.actionRegisterServer number req = (c.setSession number session, none))
      ∨ ∃ id session session' manager, c.sessions[number]? = some session
        ∧ (req[0]?.bind fun s => parseInt s.toList).bind AppId.getByValue = some id
        ∧ c.manager.registerServer c.startTime id number { session with appId := some id } req
          = some (manager, session')
        ∧ c.actionRegisterServer number req = ({ c.setSession number session' with manager },
          some (NetClient.answer session'.serverId c.startTime)) := by
  rw [actionRegisterServer]
  split
  . next session id hsession hid =>
    simp only
    split
    . exact .inl ⟨_, rfl⟩
    . next manager session' hregister =>
      exact .inr ⟨id, session, session', manager, hsession, hid, hregister, rfl⟩
  . obtain ⟨session, hsession⟩ := c.exists_setSession number
    exact .inl ⟨session, congrArg (·, none) hsession⟩

end Center

end WzGame
