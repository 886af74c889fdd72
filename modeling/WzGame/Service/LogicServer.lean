import WzGame.Chr.PlayerManager
import WzGame.Db.Cache.DbCacheContents
import WzGame.Db.DataManagerLoadRuns
import WzGame.Service.LogicHandler

/-!
This module contains the logic server: users log in, which loads their players and adds them to the
`PlayerManager`, and the players that are there are saved from time to time.
-/

namespace WzGame

open PlayerSaver PlayerLoader

namespace LogicServer

section state

variable [DataUtil]

structure State where
  manager : DataManager (DbCache Nat) (MulSearch Nat)
  counts : EntityCreator.EntityCountMap
  players : EntityStorage RyCharacter
  -- the players for which `loadChar` is going to be called
  logins : List Int64
  -- has the running call-back of `loadChar` thrown an exception, when it is at its end?
  threw : Option Bool
  -- the characters that `saveAllCharacter` has still to go through
  characters : List RyCharacter
  -- the calls of `saveModule` that `savePlayer` has still to make
  modules : List (RyCharacter × DBAction)

def start (manager : DataManager (DbCache Nat) (MulSearch Nat)) (counts : EntityCreator.EntityCountMap)
    : State where
  manager := manager
  counts := counts
  players := .empty
  logins := []
  threw := none
  characters := []
  modules := []

variable (s : State)

def unlocked : Bool := s.manager.shared.loads.completions.isEmpty

def saveAllCharacter : Option State :=
  match s.characters, s.modules, s.manager.shared.saves.check with
  | [], [], .idle => some { s with characters := s.players.getAllEntities }
  | _, _, _ => none

def savePlayer (ch : RyCharacter) : List (RyCharacter × DBAction) :=
  [(ch, .player), (ch, .hero), (ch, .equip), (ch, .formation)]

def saveRyCharacter (currentTimeMillis : Int64) : Option State :=
  match s.characters, s.modules, s.manager.shared.saves.check with
  | ch :: characters, [], .idle =>
    some { s with
      characters := characters
      modules :=
        if currentTimeMillis - ch.lastSaveTime ≥ LogicApp.saveInternal then savePlayer ch else [] }
  | _, _, _ => none

-- an exception ends `saveAllCharacter`
def updateModuleData : Option State := do
  let shared ← s.manager.shared.updateModuleData
  match shared.saves.check with
  | .idle => return { s with manager.shared := shared, characters := [], modules := [] }
  | _ => return { s with manager.shared := shared }

def callbackReturns : Option State := do
  let threw ← s.threw
  let manager ← s.manager.callbackReturns threw
  return { s with manager := manager, threw := none }

variable [SqlServer]

def actionPlayerLogin (serverId : BitVec 32) (req : LogicHandler.LoginReq) : State :=
  let (playerId, ⟨db, counts⟩) :=
    LogicHandler.actionPlayerLogin serverId ⟨s.manager.shared.db, s.counts⟩ req
  { s with
    manager.shared.db := db
    counts := counts
    logins := s.logins ++ playerId.toList }

def loadChar (n : Nat) : Option State := do
  let playerId ← s.logins[n]?
  if unlocked s then
    let manager ← s.manager.loadChar playerId.toInt true
    return { s with manager := manager, logins := s.logins.eraseIdx n }
  else
    none

variable [Gson Int32] [Gson Int64] [Gson (Option Formation)]

def onResult (serverId : BitVec 32) (currentTimeMillis : Int64) (currentSecond : BitVec 32)
    : Option State :=
  match s.manager.shared.loads.completions, s.threw with
  | c :: _, none =>
    if c.running then
      match c.charData with
      | none => some { s with threw := some false }
      | some charData =>
        match loadFromCharData currentTimeMillis (s.manager.shared.objs charData) with
        | none => some { s with threw := some true }
        | some ch =>
          match ch.checkInit currentSecond serverId s.counts with
          | (none, counts) => some { s with counts := counts, threw := some true }
          | (some ch, counts) =>
            some { s with
              counts := counts
              players := s.players.addEntity ch
              threw := some false }
    else
      none
  | _, _ => none

def saveModule : Option State :=
  match s.modules with
  | [] => none
  | (ch, action) :: modules => do
    let manager ← s.manager.saveModule ch.entityId.toInt action (some (geneModuleData ch action))
    return { s with manager := manager, modules := modules }

def actors (a : WzGame.Action) : Option State :=
  match a with
  | .loadModule _ _ | .setData _ | .callback | .deleteKey | .setDirty | .saveNextDirty
  | .saveUpdates _ _ | .saveDeletes _ _ | .endSave _ =>
    (s.manager.step a).map fun manager => { s with manager := manager }
  | .startCallbacks _ =>
    if unlocked s then (s.manager.step a).map fun manager => { s with manager := manager } else none
  | .tick =>
    match s.characters, s.modules with
    | [], [] => (s.manager.step a).map fun manager => { s with manager := manager }
    | _, _ => none
  | _ => none

end state

inductive Action where
  | actionPlayerLogin (req : LogicHandler.LoginReq)
  | loadChar (n : Nat)
  | onResult (currentTimeMillis : Int64) (currentSecond : BitVec 32)
  | callbackReturns
  | saveAllCharacter
  | saveRyCharacter (currentTimeMillis : Int64)
  | saveModule
  | updateModuleData
  | actors (a : WzGame.Action)

section step

variable [DataUtil] [SqlServer] [Gson Int32] [Gson Int64] [Gson (Option Formation)]

def step (serverId : BitVec 32) (s : State) : Action → Option State
  | .actionPlayerLogin req => some (actionPlayerLogin s serverId req)
  | .loadChar n => loadChar s n
  | .onResult currentTimeMillis currentSecond => onResult s serverId currentTimeMillis currentSecond
  | .callbackReturns => callbackReturns s
  | .saveAllCharacter => saveAllCharacter s
  | .saveRyCharacter currentTimeMillis => saveRyCharacter s currentTimeMillis
  | .saveModule => saveModule s
  | .updateModuleData => updateModuleData s
  | .actors a => actors s a

end step

section property

variable [DataUtil]

def Accepts (s : State) (ch : RyCharacter) : Prop :=
  ∃ charData dataCache,
    s.manager.dataCache.query ch.entityId.toInt = some (some charData, dataCache)
      ∧ (s.manager.shared.objs charData).charId = ch.entityId.toInt

def SavesAccepted (s : State) : Prop :=
  (∀ ch ∈ s.players.entities, Accepts s ch) ∧ ∀ call ∈ s.modules, Accepts s call.1

def Online (s : State) (playerId : Int) : Prop :=
  ∃ ch ∈ s.players.entities, ch.entityId.toInt = playerId

def LoggingIn (s : State) (playerId : Int) : Prop :=
  ∃ task ∈ s.manager.shared.loads.tasks, task.charId = playerId
    ∧ ∃ charData, task.phase = .installed (some charData)

def SparesPlayers (s : State) : Action → Prop
  | .loadChar n => ∀ id, s.logins[n]? = some id → ¬ s.manager.Joins id.toInt →
    ∀ playerId, Online s playerId ∨ LoggingIn s playerId →
      ¬ s.manager.dataCache.Evicts id.toInt playerId
  | _ => True

end property

end LogicServer

end WzGame
