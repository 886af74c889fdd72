import WzGame.Network.ServerManager

/-!
This module contains how a server registers itself at the center.
-/

namespace WzGame

open MapObject

-- `registParam` is empty if it is `null`.
structure NetClient where
  appId : AppId
  registParam : List String
  appDynamicId : Int32
  connectServerStartTime : Int64
deriving DecidableEq

namespace NetClient

def create (appId : AppId) (registParam : List String) : NetClient := ⟨appId, registParam, 0, 0⟩

def sessionCreated (c : NetClient) : List String :=
  [toString c.appId.getId, toString c.appDynamicId.toInt, toString c.connectServerStartTime.toInt]
    ++ c.registParam

def answer (appDynamicId : Int32) (connectServerStartTime : Int64) : List String :=
  [toString appDynamicId.toInt, toString connectServerStartTime.toInt]

-- the callback of the answer, where `none` is an exception
def onResult (c : NetClient) (req : List String) : Option NetClient := do
  let appDynamicId ← parseInt (← req[0]?).toList
  let connectServerStartTime ← parseLong (← req[1]?).toList
  some { c with
    appDynamicId := .ofInt appDynamicId
    connectServerStartTime := .ofInt connectServerStartTime }

variable {c : NetClient} {m m' : ServerManager} {appDynamicId : Int32} {time : Int64} {id : AppId}
  {number : Nat} {session session' : ServerSession}

theorem parseInt_toInt : parseInt appDynamicId.toInt.repr.toList = some appDynamicId.toInt :=
  parseInt_repr ⟨appDynamicId.le_toInt, appDynamicId.toInt_lt⟩

theorem parseLong_toInt : parseLong time.toInt.repr.toList = some time.toInt :=
  parseLong_repr ⟨time.le_toInt, time.toInt_lt⟩

theorem onResult_answer
    : c.onResult (answer appDynamicId time)
        = some { c with appDynamicId, connectServerStartTime := time } := by
  simp [onResult, answer, parseInt_toInt, parseLong_toInt]

theorem getByValue_sessionCreated
    : (c.sessionCreated[0]?.bind fun s => parseInt s.toList).bind AppId.getByValue = some c.appId := by
  have hrange : -2 ^ 31 ≤ c.appId.getId ∧ c.appId.getId < 2 ^ 31 := by
    cases c.appId <;> decide
  have hfirst : c.sessionCreated[0]? = some c.appId.getId.repr := rfl
  rw [hfirst, Option.bind_some, parseInt_repr hrange, Option.bind_some, AppId.getByValue_getId]

theorem appId_setAddress {registParam : List String}
    (h : ServerManager.setAddress id session registParam = some session')
    : session'.appId = session.appId := by
  unfold ServerManager.setAddress at h
  split at h
  . obtain ⟨host, -, h⟩ := Option.bind_eq_some_iff.mp h
    obtain ⟨text, -, h⟩ := Option.bind_eq_some_iff.mp h
    obtain ⟨port, -, h⟩ := Option.bind_eq_some_iff.mp h
    obtain rfl := Option.some.inj h
    rfl
  . obtain rfl := Option.some.inj h
    rfl

theorem registerServer_sessionCreated
    (h : m.registerServer time id number session c.sessionCreated = some (m', session'))
    : session'.appId = session.appId
      ∧ (c.connectServerStartTime = time ∧ session'.serverId = c.appDynamicId
          ∧ m' = m.putSession id session'.serverId number
        ∨ c.connectServerStartTime ≠ time
          ∧ session'.serverId = ServerManager.dynamicIdAt (m.idGenMap id)
          ∧ m' = (m.geneAppDynamicId id).1.putSession id session'.serverId number) := by
  have hid : c.sessionCreated[1]? = some c.appDynamicId.toInt.repr := rfl
  have htime : c.sessionCreated[2]? = some c.connectServerStartTime.toInt.repr := rfl
  simp only [ServerManager.registerServer, hid, htime, parseInt_toInt, parseLong_toInt,
    Option.bind_eq_bind, Option.bind_some] at h
  obtain ⟨session₁, haddress, h⟩ := Option.bind_eq_some_iff.mp h
  obtain ⟨rfl, rfl⟩ := Prod.mk.inj (Option.some.inj h)
  constructor
  . show session₁.appId = session.appId
    exact appId_setAddress haddress
  . by_cases hsame : c.connectServerStartTime = time
    . have hold : m.dynamicIdFor time id c.appDynamicId.toInt c.connectServerStartTime.toInt
          = (m, c.appDynamicId) := by
        rw [ServerManager.dynamicIdFor, if_pos (congrArg Int64.toInt hsame), Int32.ofInt_toInt]
      rw [hold]
      exact .inl ⟨hsame, rfl, rfl⟩
    . have hnew : m.dynamicIdFor time id c.appDynamicId.toInt c.connectServerStartTime.toInt
          = m.geneAppDynamicId id := by
        rw [ServerManager.dynamicIdFor, if_neg (mt Int64.toInt_inj.mp hsame)]
      rw [hnew]
      exact .inr ⟨hsame, rfl, rfl⟩

end NetClient

end WzGame
