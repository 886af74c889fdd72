import WzGame.Database.DBUtil

/-!
This module contains the records of a module, the diff that brings in new rows, and how the records
are saved.
-/

namespace WzGame

inductive DataStat where
  | valid
  | new
  | delete
deriving DecidableEq

class DataUtil where
  Crc : Type
  decEqCrc : DecidableEq Crc
  crc32 : MapObject → Crc

instance [DataUtil] : DecidableEq DataUtil.Crc := DataUtil.decEqCrc

structure DbRecord [DataUtil] where
  key : DataUtil.Crc
  stat : DataStat
  data : MapObject

namespace DbRecord

-- `none` is a `NullPointerException`.
def sameRecord (data1 data2 : MapObject) : List String → Option Bool
  | [] => some true
  | key :: keys =>
    let l1 := data1.getLong key (-1)
    let l2 := data2.getLong key (-1)
    if l1 = -1 ∧ l2 = -1 then
      let v1 := data1.get key
      let v2 := data2.get key
      if v1 = .null then
        none
      else if v1 = v2 then
        sameRecord data1 data2 keys
      else
        some false
    else if l1 ≠ l2 then
      some false
    else
      sameRecord data1 data2 keys

variable [DataUtil]

-- `new DbRecord(data)`
def ofData (data : MapObject) : DbRecord := ⟨DataUtil.crc32 data, .valid, data⟩

def merge (keys : List String) (record : DbRecord) : List DbRecord → Option (Option (List DbRecord))
  | [] => some none
  | inirecord :: records =>
    match sameRecord record.data inirecord.data keys with
    | none => none
    | some true =>
      if inirecord.key ≠ record.key then
        some (some (⟨record.key, .new, record.data⟩ :: records))
      else
        some (some (inirecord :: records))
    | some false => (merge keys record records).map (Option.map (inirecord :: ·))

-- The first loop of `update`. An exception leaves the records as they are by then.
def mergeAll (keys : List String) (records moduleOnlys : List DbRecord)
    : List DbRecord → Except (List DbRecord) (List DbRecord × List DbRecord)
  | [] => .ok (records, moduleOnlys)
  | record :: moduleRecords =>
    match merge keys record records with
    | none => .error records
    | some (some records) => mergeAll keys records moduleOnlys moduleRecords
    | some none => mergeAll keys records (moduleOnlys ++ [record]) moduleRecords

def anySame (keys : List String) (inirecord : DbRecord) : List DbRecord → Option Bool
  | [] => some false
  | record :: moduleRecords =>
    match sameRecord record.data inirecord.data keys with
    | none => none
    | some true => some true
    | some false => anySame keys inirecord moduleRecords

def markDeletes (keys : List String) (moduleRecords : List DbRecord)
    : List DbRecord → Except (List DbRecord) (List DbRecord)
  | [] => .ok []
  | inirecord :: records =>
    match anySame keys inirecord moduleRecords with
    | none => .error (inirecord :: records)
    | some found =>
      let inirecord := if found then inirecord else { inirecord with stat := .delete }
      match markDeletes keys moduleRecords records with
      | .error records => .error (inirecord :: records)
      | .ok records => .ok (inirecord :: records)

def update (records : List DbRecord) (moduleDatas : Option (List MapObject)) (keys : List String)
    (desableDelete : Bool) : Except (List DbRecord) (List DbRecord) :=
  match moduleDatas with
  | none => .ok records
  | some moduleDatas => do
    let moduleRecords := moduleDatas.map ofData
    -- 1. get all in moduleData not in records
    let (records, moduleOnlys) ← mergeAll keys records [] moduleRecords
    -- 2. get all in records not in moduleData, set delete
    let records ← if desableDelete then .ok records else markDeletes keys moduleRecords records
    -- 3. add all in moduleData not in records
    return records ++ moduleOnlys.map fun record => { record with stat := .new }

def view (records : List DbRecord) : List MapObject :=
  (records.filter fun record => record.stat ≠ .delete).map data

def updates (records : List DbRecord) : List MapObject :=
  (records.filter fun record => record.stat = .new).map data

def deletes (records : List DbRecord) : List MapObject :=
  (records.filter fun record => record.stat = .delete).map data

def saved (records : List DbRecord) : List DbRecord :=
  (records.filter fun record => record.stat ≠ .delete).map fun record =>
    { record with stat := .valid }

variable [SqlServer]

-- the first half of `save`; `none` when the batch throws
def saveUpdates (records : List DbRecord) (table : String) (keys : List String) (succeeds : Bool)
    (db : Database) : Option Database :=
  if updates records = [] then
    some db
  else
    DBUtil.batchInsertOrUpdate db table keys (updates records) succeeds

-- the second half of `save`; `none` when the batch throws
def saveDeletes (records : List DbRecord) (table : String) (keys : List String) (succeeds : Bool)
    (db : Database) : Option (Database × List DbRecord) :=
  if deletes records = [] then
    some (db, saved records)
  else
    (DBUtil.batchDelete db table keys (deletes records) succeeds).map fun db => (db, saved records)

/--
The database after `save`, and the records when it returns normally. The first batch is committed
before the second one starts.
-/
def save (records : List DbRecord) (table : String) (keys : List String)
    (updatesSucceed deletesSucceed : Bool) (db : Database) : Database × Option (List DbRecord) :=
  if records = [] then
    (db, some records)
  else
    match saveUpdates records table keys updatesSucceed db with
    | none => (db, none)
    | some db =>
      match saveDeletes records table keys deletesSucceed db with
      | none => (db, none)
      | some (db, records) => (db, some records)

end DbRecord

end WzGame
