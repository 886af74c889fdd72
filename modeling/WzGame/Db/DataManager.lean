import WzGame.Db.Cache.DbCache
import WzGame.Db.Cache.MulSearch
import WzGame.Db.CharData

/-!
This module contains `DataManager` and the tasks that its calls leave to the actors, as steps between
which other threads may run. A `CharData` goes by the number of the load that creates it, and a
callback by the number of its `loadChar` call.
-/

namespace WzGame

structure Query where
  action : DBAction
  outcome : QueryOutcome
  rows : List MapObject

inductive LoadPhase where
  -- `loadAll` still has to load the modules `todo`.
  | loading (todo : List DBAction)
  -- `ret` is `false`.
  | failed
  -- `setData` has returned `charData`.
  | installed (charData : Option Nat)
  -- the callbacks are being called
  | calling
  | done

structure LoadTask where
  charId : Int
  phase : LoadPhase
  held : Bool
  queries : List Query

structure Completion where
  load : Nat
  charId : Int
  charData : Option Nat
  subIter : Option Nat
  running : Bool

structure SaveTask where
  charData : Nat
  todo : List DBAction
  inserted : Bool
  failed : Bool

inductive Check where
  | idle
  -- `saveModule` has queried the cache.
  | queried (playerId : Int) (charData : Nat) (action : DBAction) (data : Option ModuleData)
  -- `saveModule` has updated the data.
  | updated (playerId : Int) (charData : Nat)
  -- the tick may still take `left` dirty nodes
  | ticking (left : Nat)

structure Call where
  charId : Int
  callBack : Bool
  load : Option Nat

structure Invocation where
  call : Nat
  load : Option Nat
  charData : Option Nat

-- an update of a module that is past the `null` check, and whether a save has written it since
structure Update where
  charData : Nat
  action : DBAction
  written : Bool

structure Loads where
  tasks : List LoadTask
  completions : List Completion
  calls : List Call
  invoked : List Invocation
  lastLoad : Int → Option Nat

structure Saves where
  check : Check
  tasks : List SaveTask
  updates : List Update

/--
What the threads share besides the two caches. The field `wanted` only records the rows of the last
update of each module, or else the ones that have been stored from the start.
-/
structure Shared [DataUtil] where
  loads : Loads
  saves : Saves
  objs : Nat → CharData
  db : Database
  wanted : Int → DBAction → List MapObject

structure DataManager [DataUtil] (C S : Type) where
  dataCache : C
  queryCache : S
  shared : Shared

-- `(int) id`, by which the actors are chosen
def dispatchId (id : Int) : Nat := (id.bmod (2 ^ 32)).natAbs

def loadActor (id : Int) : Nat := dispatchId id % 2

def dbActor (id : Int) : Nat := dispatchId id % 4

namespace Loads

def empty : Loads := ⟨[], [], [], [], fun _ => none⟩

def setTask (s : Loads) (load : Nat) (task : LoadTask) : Loads :=
  { s with tasks := s.tasks.set load task }

def unlocked (s : Loads) : Bool :=
  match s.completions with
  | [] => true
  | c :: _ => c.running

def mayComplete (s : Loads) (charId : Int) : Bool :=
  match s.completions with
  | [] => true
  | c :: _ => c.running && loadActor c.charId = loadActor charId

def addCall (s : Loads) (charId : Int) (callBack : Bool) (load : Option Nat) : Loads :=
  { s with calls := s.calls ++ [⟨charId, callBack, load⟩] }

def join (s : Loads) (charId : Int) (callBack : Bool) : Loads :=
  s.addCall charId callBack (s.lastLoad charId)

-- the callback is called with `null` right away
def refuse (s : Loads) (charId : Int) (callBack : Bool) : Loads :=
  { s.addCall charId callBack none with
    invoked :=
      if callBack then s.invoked ++ [⟨s.calls.length, none, none⟩] else s.invoked }

def start (s : Loads) (charId : Int) (callBack held : Bool) : Loads :=
  { s.addCall charId callBack (some s.tasks.length) with
    tasks := s.tasks ++ [⟨charId, .loading CharData.entries, held, []⟩]
    lastLoad := Function.update s.lastLoad charId (some s.tasks.length) }

def loaded (load : Nat) : LoadPhase → Option (Option Nat)
  | .loading [] => some (some load)
  | .failed => some none
  | _ => none

def install (s : Loads) (load : Nat) (task : LoadTask) (charData : Option Nat) : Loads :=
  s.setTask load { task with phase := .installed charData }

def startCallbacks (s : Loads) (load : Nat) (task : LoadTask) (charData subIter : Option Nat)
    : Loads :=
  { s.setTask load { task with phase := .calling } with
    completions := ⟨load, task.charId, charData, subIter, false⟩ :: s.completions }

-- `callback.onResult(charData, ...)`
def onResult (s : Loads) (c : Completion) (cs : List Completion) (call : Nat) : Loads :=
  { s with
    completions := { c with running := true } :: cs
    invoked := s.invoked ++ [⟨call, some c.load, c.charData⟩] }

def nextCallback (s : Loads) (c : Completion) (cs : List Completion) (subIter : Option Nat)
    : Loads :=
  { s with completions := { c with subIter := subIter, running := false } :: cs }

-- the task of a completion ends, by itself or with an exception
def finish (s : Loads) (c : Completion) (cs : List Completion) : Loads :=
  { s with
    tasks := s.tasks.modify c.load fun task => { task with phase := .done }
    completions := cs }

end Loads

namespace Saves

def empty : Saves := ⟨.idle, [], []⟩

def saveCharPerSec : Nat := 10

def tick (s : Saves) : Option Saves :=
  match s.check with
  | .idle => some { s with check := .ticking saveCharPerSec }
  | _ => none

def queueSave (s : Saves) (charData left : Nat) : Saves :=
  { s with
    check := if left = 0 then .idle else .ticking left
    tasks := s.tasks ++ [⟨charData, CharData.entries, false, false⟩] }

def moduleLocked (s : Saves) (charData : Nat) (action : DBAction) : Bool :=
  s.tasks.any fun task =>
    task.inserted && task.charData = charData && task.todo.head? = some action

def setTask (s : Saves) (i : Nat) (task : SaveTask) : Saves :=
  { s with tasks := s.tasks.set i task }

def markWritten (s : Saves) (charData : Nat) (action : DBAction) : Saves :=
  { s with
    updates := s.updates.map fun u =>
      if u.charData = charData ∧ u.action = action then { u with written := true } else u }

def finish (s : Saves) (i : Nat) : Option Saves :=
  match s.tasks[i]? with
  | some ⟨_, [], _, _⟩ => some { s with tasks := s.tasks.eraseIdx i }
  | _ => none

end Saves

namespace Shared

variable [DataUtil]

def suppliedRows (charId : Int) (action : DBAction) (data : Option ModuleData)
    : Option (List MapObject) := do
  let _ ← CharData.tables action
  let data ← data
  data (toString charId)

-- `charData.updateModuleData(action, data)`, after which an exception leaves `saveModule`.
def updateModuleData (s : Shared) : Option Shared :=
  match s.saves.check with
  | .queried playerId charData action data =>
    if s.saves.moduleLocked charData action then
      none
    else
      let (obj, threw) := (s.objs charData).updateModuleData action data
      let check := if threw then Check.idle else .updated playerId charData
      match suppliedRows obj.charId action data with
      | none => some { s with
          objs := Function.update s.objs charData obj
          saves := { s.saves with check := check } }
      | some rows => some { s with
          objs := Function.update s.objs charData obj
          saves := { s.saves with
            check := check
            updates := s.saves.updates ++ [⟨charData, action, false⟩] }
          wanted := Function.update s.wanted obj.charId
            (Function.update (s.wanted obj.charId) action rows) }
  | _ => none

def mayRun (s : Shared) (i : Nat) (task : SaveTask) : Bool :=
  (s.saves.tasks.take i).all fun task' =>
    dbActor (s.objs task'.charData).charId ≠ dbActor (s.objs task.charData).charId

variable [SqlServer]

def loadModule (s : Shared) (load : Nat) (outcome : QueryOutcome) : Option Shared := do
  let task ← s.loads.tasks[load]?
  match task.phase with
  | .loading (action :: todo) =>
    let mod ← (s.objs load).modules action
    let query : Query := ⟨action, outcome, CharData.storedRows s.db task.charId action⟩
    let queries := task.queries ++ [query]
    match mod.load s.db outcome with
    | none => return { s with
        loads := s.loads.setTask load { task with phase := .failed, queries := queries } }
    | some mod => return { s with
        loads := s.loads.setTask load { task with phase := .loading todo, queries := queries }
        objs := Function.update s.objs load ((s.objs load).setRecords action mod.records) }
  | _ => none

def saveUpdates (s : Shared) (i : Nat) (succeeds : Bool) : Option Shared := do
  let task ← s.saves.tasks[i]?
  match task with
  | ⟨charData, action :: todo, false, _⟩ =>
    let mod ← (s.objs charData).modules action
    if s.mayRun i task then
      match DbRecord.saveUpdates mod.records mod.table_name mod.key_list succeeds s.db with
      -- `saveAll` catches the exception and goes on with the next module
      | none => return { s with
          saves := s.saves.setTask i { task with todo := todo, failed := true } }
      | some db => return { s with
          saves := s.saves.setTask i { task with inserted := true }
          db := db }
    else
      none
  | _ => none

def saveDeletes (s : Shared) (i : Nat) (succeeds : Bool) : Option Shared := do
  let task ← s.saves.tasks[i]?
  match task with
  | ⟨charData, action :: todo, true, _⟩ =>
    let mod ← (s.objs charData).modules action
    match DbRecord.saveDeletes mod.records mod.table_name mod.key_list succeeds s.db with
    | none => return { s with
        saves := s.saves.setTask i { task with todo := todo, inserted := false, failed := true } }
    | some (db, records) => return { s with
        saves := (s.saves.setTask i { task with todo := todo, inserted := false }).markWritten
          charData action
        objs := Function.update s.objs charData ((s.objs charData).setRecords action records)
        db := db }
  | _ => none

end Shared

inductive Action where
  | loadChar (charId : Int) (callBack : Bool)
  | loadModule (load : Nat) (outcome : QueryOutcome)
  | setData (load : Nat)
  | startCallbacks (load : Nat)
  | callback
  | callbackReturns (threw : Bool)
  | deleteKey
  | saveModule (playerId : Int) (action : DBAction) (data : Option ModuleData)
  | updateModuleData
  | setDirty
  | tick
  | saveNextDirty
  | saveUpdates (task : Nat) (succeeds : Bool)
  | saveDeletes (task : Nat) (succeeds : Bool)
  | endSave (task : Nat)

namespace DataManager

variable [DataUtil]

-- a conversion to `int`
def toInt (n : Int) : Int := n.bmod (2 ^ 32)

def init [SqlServer] (maxNum cleanSize : Int) (db : Database)
    : Option (Bool × DataManager (DbCache Nat) (MulSearch Nat)) := do
  let shared : Shared := ⟨.empty, .empty, fun _ => .init 0, db, CharData.storedRows db⟩
  -- 1. init data cache
  let nodeSize := toInt (maxNum + 100)
  let hashSize := (toInt (nodeSize * 3)).tdiv 4
  let (ok, dataCache) ← DbCache.new.init hashSize nodeSize cleanSize
  if ok then
    -- 2. init query cache
    let (ok, queryCache) := MulSearch.new.init hashSize
    -- 3. ready
    return (ok, ⟨dataCache, queryCache, shared⟩)
  else
    return (false, ⟨dataCache, .new, shared⟩)

section

variable (s : DataManager (DbCache Nat) (MulSearch Nat))

def loadChar (charId : Int) (callBack : Bool)
    : Option (DataManager (DbCache Nat) (MulSearch Nat)) := do
  if s.shared.loads.unlocked then
    let iterator ← s.queryCache.search charId
    let (added, queryCache) ←
      s.queryCache.addKey charId (if callBack then some s.shared.loads.calls.length else none)
    if added then
      match iterator with
      | none =>
        let held ← s.dataCache.hashFind charId
        let (occupied, dataCache) ← s.dataCache.occupy charId
        if occupied then
          return ⟨dataCache, queryCache, { s.shared with
            loads := s.shared.loads.start charId callBack held.isSome
            objs := Function.update s.shared.objs s.shared.loads.tasks.length (.init charId) }⟩
        else
          let (_, queryCache) ← queryCache.deleteKey charId
          return ⟨dataCache, queryCache, { s.shared with
            loads := s.shared.loads.refuse charId callBack }⟩
      | some _ =>
        -- do nothing
        return ⟨s.dataCache, queryCache, { s.shared with
          loads := s.shared.loads.join charId callBack }⟩
    else
      return ⟨s.dataCache, queryCache, { s.shared with
        loads := s.shared.loads.refuse charId callBack }⟩
  else
    none

def setData (load : Nat) : Option (DataManager (DbCache Nat) (MulSearch Nat)) := do
  let task ← s.shared.loads.tasks[load]?
  let charData ← Loads.loaded load task.phase
  let (charData, dataCache) ← s.dataCache.setData task.charId charData
  return { s with
    dataCache := dataCache
    shared.loads := s.shared.loads.install load task charData }

def startCallbacks (load : Nat) : Option (DataManager (DbCache Nat) (MulSearch Nat)) := do
  let task ← s.shared.loads.tasks[load]?
  match task.phase with
  | .installed charData =>
    if s.shared.loads.mayComplete task.charId then
      let subIter ← s.queryCache.search task.charId
      return { s with shared.loads := s.shared.loads.startCallbacks load task charData subIter }
    else
      none
  | _ => none

def callback : Option (DataManager (DbCache Nat) (MulSearch Nat)) :=
  match s.shared.loads.completions with
  | c :: cs =>
    match c.subIter, c.running with
    | some subIter, false =>
      match s.queryCache.heap.data subIter with
      | some call => some { s with shared.loads := s.shared.loads.onResult c cs call }
      | none =>
        some { s with
          shared.loads := s.shared.loads.nextCallback c cs (s.queryCache.heap.sameNext subIter) }
    | _, _ => none
  | [] => none

def callbackReturns (threw : Bool) : Option (DataManager (DbCache Nat) (MulSearch Nat)) :=
  match s.shared.loads.completions with
  | c :: cs =>
    match c.subIter, c.running with
    | some subIter, true =>
      if threw then
        some { s with shared.loads := s.shared.loads.finish c cs }
      else
        some { s with
          shared.loads := s.shared.loads.nextCallback c cs (s.queryCache.heap.sameNext subIter) }
    | _, _ => none
  | [] => none

def deleteKey : Option (DataManager (DbCache Nat) (MulSearch Nat)) :=
  match s.shared.loads.completions with
  | c :: cs =>
    match c.subIter, c.running with
    | none, false => do
      let (_, queryCache) ← s.queryCache.deleteKey c.charId
      return { s with
        queryCache := queryCache
        shared.loads := s.shared.loads.finish c cs }
    | _, _ => none
  | [] => none

def saveModule (playerId : Int) (action : DBAction) (data : Option ModuleData)
    : Option (DataManager (DbCache Nat) (MulSearch Nat)) :=
  match s.shared.saves.check with
  | .idle => do
    let (charData, dataCache) ← s.dataCache.query playerId
    match charData with
    | none => return { s with dataCache := dataCache }
    | some charData =>
      return { s with
        dataCache := dataCache
        shared.saves.check := .queried playerId charData action data }
  | _ => none

def setDirty : Option (DataManager (DbCache Nat) (MulSearch Nat)) :=
  match s.shared.saves.check with
  | .updated playerId _ => do
    let (_, dataCache) ← s.dataCache.setDirty playerId
    return { s with
      dataCache := dataCache
      shared.saves.check := .idle }
  | _ => none

def saveNextDirty : Option (DataManager (DbCache Nat) (MulSearch Nat)) :=
  match s.shared.saves.check with
  | .ticking (left + 1) => do
    let (data, dataCache) ← s.dataCache.getNextDirtyNodeAndClean
    match data with
    | none => return { s with
        dataCache := dataCache
        shared.saves.check := .idle }
    | some charData => return { s with
        dataCache := dataCache
        shared.saves := s.shared.saves.queueSave charData left }
  | _ => none

end

-- `none` is a step that no thread can take.
def step [SqlServer] (s : DataManager (DbCache Nat) (MulSearch Nat))
    : Action → Option (DataManager (DbCache Nat) (MulSearch Nat))
  | .loadChar charId callBack => s.loadChar charId callBack
  | .loadModule load outcome =>
    (s.shared.loadModule load outcome).map fun shared => { s with shared := shared }
  | .setData load => s.setData load
  | .startCallbacks load => s.startCallbacks load
  | .callback => s.callback
  | .callbackReturns threw => s.callbackReturns threw
  | .deleteKey => s.deleteKey
  | .saveModule playerId action data => s.saveModule playerId action data
  | .updateModuleData =>
    s.shared.updateModuleData.map fun shared => { s with shared := shared }
  | .setDirty => s.setDirty
  | .tick => s.shared.saves.tick.map fun saves => { s with shared.saves := saves }
  | .saveNextDirty => s.saveNextDirty
  | .saveUpdates task succeeds =>
    (s.shared.saveUpdates task succeeds).map fun shared => { s with shared := shared }
  | .saveDeletes task succeeds =>
    (s.shared.saveDeletes task succeeds).map fun shared => { s with shared := shared }
  | .endSave task =>
    (s.shared.saves.finish task).map fun saves => { s with shared.saves := saves }

end DataManager

end WzGame
