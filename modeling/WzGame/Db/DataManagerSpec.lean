import WzGame.Db.DataManager
import WzGame.Db.Cache.KeyQueues
import WzGame.Db.Cache.LruMap

/-!
This module contains what the steps of a `DataManager` do, said in terms of a map with least recently
used eviction and of a queue of calls for each player.
-/

namespace WzGame

namespace DataManager

variable [DataUtil] [SqlServer]

abbrev Spec := DataManager (LruMap Int Nat) (KeyQueues Nat)

inductive Step (maxSize maxClean : Int) (t : Spec) : Action → Spec → Prop where
  | join {charId : Int} {callBack : Bool} :
      t.shared.loads.unlocked = true → t.queryCache.queue charId ≠ []
        → Step maxSize maxClean t (.loadChar charId callBack) { t with
          queryCache :=
            t.queryCache.addKey charId (if callBack then some t.shared.loads.calls.length else none)
          shared.loads := t.shared.loads.join charId callBack }
  | startLoad {charId : Int} {callBack held : Bool} {dataCache : LruMap Int Nat} :
      t.shared.loads.unlocked = true → t.queryCache.queue charId = []
        → (held = true ↔ t.dataCache.Held charId)
        → LruMap.Step maxSize maxClean t.dataCache (.occupy charId, .bool true) dataCache
        → Step maxSize maxClean t (.loadChar charId callBack)
          ⟨dataCache,
            t.queryCache.addKey charId (if callBack then some t.shared.loads.calls.length else none),
            { t.shared with
              loads := t.shared.loads.start charId callBack held
              objs := Function.update t.shared.objs t.shared.loads.tasks.length (.init charId) }⟩
  | refuse {charId : Int} {callBack : Bool} :
      t.shared.loads.unlocked = true → t.queryCache.queue charId = []
        → LruMap.Step maxSize maxClean t.dataCache (.occupy charId, .bool false) t.dataCache
        → Step maxSize maxClean t (.loadChar charId callBack) { t with
          queryCache := (t.queryCache.addKey charId
            (if callBack then some t.shared.loads.calls.length else none)).deleteKey charId
          shared.loads := t.shared.loads.refuse charId callBack }
  | loadModule {load : Nat} {outcome : QueryOutcome} {shared : Shared} :
      t.shared.loadModule load outcome = some shared
        → Step maxSize maxClean t (.loadModule load outcome) { t with shared := shared }
  | setData {load : Nat} {task : LoadTask} {charData out : Option Nat}
      {dataCache : LruMap Int Nat} :
      t.shared.loads.tasks[load]? = some task → Loads.loaded load task.phase = some charData
        → LruMap.Step maxSize maxClean t.dataCache (.setData task.charId charData, .data out)
          dataCache
        → Step maxSize maxClean t (.setData load) { t with
          dataCache := dataCache
          shared.loads := t.shared.loads.install load task out }
  | startCallbacks {load : Nat} {task : LoadTask} {charData : Option Nat} :
      t.shared.loads.tasks[load]? = some task → task.phase = .installed charData
        → t.shared.loads.mayComplete task.charId = true
        → Step maxSize maxClean t (.startCallbacks load) { t with
          shared.loads := t.shared.loads.startCallbacks load task charData
            (t.queryCache.search task.charId) }
  | callback {c : Completion} {cs : List Completion} {subIter call : Nat} :
      t.shared.loads.completions = c :: cs → c.subIter = some subIter → c.running = false
        → t.queryCache.data subIter = some call
        → Step maxSize maxClean t .callback { t with
          shared.loads := t.shared.loads.onResult c cs call }
  | noCallback {c : Completion} {cs : List Completion} {subIter : Nat} :
      t.shared.loads.completions = c :: cs → c.subIter = some subIter → c.running = false
        → t.queryCache.data subIter = none
        → Step maxSize maxClean t .callback { t with
          shared.loads := t.shared.loads.nextCallback c cs (t.queryCache.sameNext subIter) }
  | returns {c : Completion} {cs : List Completion} {subIter : Nat} :
      t.shared.loads.completions = c :: cs → c.subIter = some subIter → c.running = true
        → Step maxSize maxClean t (.callbackReturns false) { t with
          shared.loads := t.shared.loads.nextCallback c cs (t.queryCache.sameNext subIter) }
  | throws {c : Completion} {cs : List Completion} {subIter : Nat} :
      t.shared.loads.completions = c :: cs → c.subIter = some subIter → c.running = true
        → Step maxSize maxClean t (.callbackReturns true) { t with
          shared.loads := t.shared.loads.finish c cs }
  | deleteKey {c : Completion} {cs : List Completion} :
      t.shared.loads.completions = c :: cs → c.subIter = none → c.running = false
        → Step maxSize maxClean t .deleteKey { t with
          queryCache := t.queryCache.deleteKey c.charId
          shared.loads := t.shared.loads.finish c cs }
  | saveMiss {playerId : Int} {action : DBAction} {data : Option ModuleData} :
      t.shared.saves.check = .idle → t.dataCache.data playerId = none
        → Step maxSize maxClean t (.saveModule playerId action data) t
  | saveHit {playerId : Int} {action : DBAction} {data : Option ModuleData} {charData : Nat}
      {dataCache : LruMap Int Nat} :
      t.shared.saves.check = .idle
        → LruMap.Step maxSize maxClean t.dataCache (.query playerId, .data (some charData)) dataCache
        → Step maxSize maxClean t (.saveModule playerId action data) { t with
          dataCache := dataCache
          shared.saves.check := .queried playerId charData action data }
  | updateModuleData {shared : Shared} :
      t.shared.updateModuleData = some shared
        → Step maxSize maxClean t .updateModuleData { t with shared := shared }
  | setDirty {playerId : Int} {charData : Nat} {b : Bool} {dataCache : LruMap Int Nat} :
      t.shared.saves.check = .updated playerId charData
        → LruMap.Step maxSize maxClean t.dataCache (.setDirty playerId, .bool b) dataCache
        → Step maxSize maxClean t .setDirty { t with
          dataCache := dataCache
          shared.saves.check := .idle }
  | tick {saves : Saves} :
      t.shared.saves.tick = some saves
        → Step maxSize maxClean t .tick { t with shared.saves := saves }
  | saveNone {left : Nat} :
      t.shared.saves.check = .ticking (left + 1) → t.dataCache.queue = []
        → Step maxSize maxClean t .saveNextDirty { t with
          shared.saves.check := .idle }
  | saveNext {left charData : Nat} {dataCache : LruMap Int Nat} :
      t.shared.saves.check = .ticking (left + 1)
        → LruMap.Step maxSize maxClean t.dataCache
          (.getNextDirtyNodeAndClean, .data (some charData)) dataCache
        → Step maxSize maxClean t .saveNextDirty { t with
          dataCache := dataCache
          shared.saves := t.shared.saves.queueSave charData left }
  | saveUpdates {task : Nat} {succeeds : Bool} {shared : Shared} :
      t.shared.saveUpdates task succeeds = some shared
        → Step maxSize maxClean t (.saveUpdates task succeeds) { t with shared := shared }
  | saveDeletes {task : Nat} {succeeds : Bool} {shared : Shared} :
      t.shared.saveDeletes task succeeds = some shared
        → Step maxSize maxClean t (.saveDeletes task succeeds) { t with shared := shared }
  | endSave {task : Nat} {saves : Saves} :
      t.shared.saves.finish task = some saves
        → Step maxSize maxClean t (.endSave task) { t with shared.saves := saves }

end DataManager

end WzGame
