import WzGame.Db.Data.DbRecord

/-!
This module contains a module of a character: its rows of one table, held as records.
-/

namespace WzGame

structure CommonModule [DataUtil] where
  records : List DbRecord
  char_id : Int
  table_name : String
  charid_col : String
  key_list : List String
  disAbleDelete : Bool

-- A `MapObject` that holds arrays of rows. The rows themselves are not `null`.
abbrev ModuleData := String → Option (List MapObject)

namespace CommonModule

variable [DataUtil]

-- `new CommonModule(...)`
def new (char_id : Int) (table_name charid_col : String) (key_list : List String)
    (disableDelete : Bool) : CommonModule :=
  ⟨[], char_id, table_name, charid_col, key_list, disableDelete⟩

-- an exception leaves the records as they are by then, and the flag says whether there was one
def update (mod : CommonModule) (moduleData : ModuleData) : CommonModule × Bool :=
  match DbRecord.update mod.records (moduleData (toString mod.char_id)) mod.key_list
      mod.disAbleDelete with
  | .ok records => ({ mod with records := records }, false)
  | .error records => ({ mod with records := records }, true)

def getData (mod : CommonModule) : List MapObject := DbRecord.view mod.records

variable [SqlServer]

-- `none` when the query throws something else than an `SQLException`.
def load (mod : CommonModule) (db : Database) (outcome : QueryOutcome) : Option CommonModule := do
  let dataList ←
    DataQueryResult.load db mod.table_name mod.charid_col (.long mod.char_id) outcome
  return { mod with records := mod.records ++ dataList.map DbRecord.ofData }

def save (mod : CommonModule) (updatesSucceed deletesSucceed : Bool) (db : Database)
    : Database × Option CommonModule :=
  match DbRecord.save mod.records mod.table_name mod.key_list updatesSucceed deletesSucceed db with
  | (db, none) => (db, none)
  | (db, some records) => (db, some { mod with records := records })

inductive Op where
  | load (outcome : QueryOutcome)
  | update (rows : Option (List MapObject))
  | save (updatesSucceed deletesSucceed : Bool)

-- what a call does to the module and the database, whether it returns normally or throws
def exec (s : CommonModule × Database) : Op → CommonModule × Database
  | .load outcome => ((s.1.load s.2 outcome).getD s.1, s.2)
  | .update rows => ((s.1.update fun _ => rows).1, s.2)
  | .save updatesSucceed deletesSucceed =>
    match s.1.save updatesSucceed deletesSucceed s.2 with
    | (db, some mod) => (mod, db)
    | (db, none) => (s.1, db)

end CommonModule

end WzGame
