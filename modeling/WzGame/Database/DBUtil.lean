import WzGame.Util.MapObject

/-!
This module contains the statements that `DBUtil` sends to the SQL server, and how it reports their
failures.
-/

namespace WzGame

/--
How the SQL server compares the values of a column. Nothing equals `NULL`, and every other value
equals itself.
-/
class SqlServer where
  Key : Type
  decEqKey : DecidableEq Key
  columnKey : Value → Option Key
  columnKey_eq_none : ∀ v, columnKey v = none ↔ v = .null

instance [SqlServer] : DecidableEq SqlServer.Key := SqlServer.decEqKey

abbrev Database := String → List MapObject

namespace DBUtil

variable [SqlServer]

def sqlEq (v w : Value) : Bool :=
  match SqlServer.columnKey v, SqlServer.columnKey w with
  | some a, some b => a = b
  | _, _ => false

def whereFields (fields : List String) (data row : MapObject) : Bool :=
  fields.all fun field => field ∉ data || sqlEq (row.get field) (data.get field)

def insertOrUpdate (primarykey : List String) (rows : List MapObject) (data : MapObject)
    : List MapObject :=
  if rows.any (whereFields primarykey data) then
    rows.map fun row => if whereFields primarykey data row then data ∪ row else row
  else
    rows ++ [data]

def batchInsertOrUpdate (db : Database) (table : String) (primarykey : List String)
    (datalist : List MapObject) (succeeds : Bool) : Option Database :=
  if datalist = [] then
    some db
  else if succeeds then
    some (Function.update db table (datalist.foldl (insertOrUpdate primarykey) (db table)))
  else
    none

def deleteRow (primarykey : List String) (rows : List MapObject) (data : MapObject)
    : List MapObject :=
  if data.size = 0 then
    rows
  else
    rows.filter fun row => !primarykey.all fun key => sqlEq (row.get key) (data.get key)

def batchDelete (db : Database) (table : String) (primarykey : List String)
    (deletelist : List MapObject) (succeeds : Bool) : Option Database :=
  if succeeds then
    if primarykey = [] then
      some db
    else
      some (Function.update db table (deletelist.foldl (deleteRow primarykey) (db table)))
  else
    none

end DBUtil

/--
How an `INSERT` ends. An `SQLException` may also come after the row is stored, when the generated
keys are read.
-/
inductive InsertOutcome where
  | success
  | sqlException (stored : Bool)
deriving DecidableEq

-- the database afterwards, and whether there was an `SQLException`
def DBUtil.executeInsert (db : Database) (table : String) (data : MapObject)
    (outcome : InsertOutcome) : Database × Bool :=
  let inserted := Function.update db table (db table ++ [data])
  match outcome with
  | .success => (inserted, false)
  | .sqlException true => (inserted, true)
  | .sqlException false => (db, true)

-- how a query ends: an `SQLException` may come after some rows have been read
inductive QueryOutcome where
  | success
  | sqlException (read : Nat)
  | exception
deriving DecidableEq

structure DataQueryResult where
  handlerData : Option String
  data : List MapObject

namespace DataQueryResult

def new : DataQueryResult := ⟨none, []⟩

def onResult (result : DataQueryResult) (rows : List MapObject) : DataQueryResult :=
  { result with data := rows }

-- `setData(e)` of the super class
def onError (result : DataQueryResult) (e : String) : DataQueryResult :=
  { result with handlerData := some e }

def getData (result : DataQueryResult) : List MapObject := result.data

-- `DBUtil.execute` with a `SELECT`: an `SQLException` is handed to the handler and swallowed.
def execute (rows : List MapObject) (outcome : QueryOutcome) (handler : DataQueryResult)
    : Option DataQueryResult :=
  match outcome with
  | .success => some (handler.onResult rows)
  | .sqlException read => some ((handler.onResult (rows.take read)).onError "SQLException")
  | .exception => none

def load [SqlServer] (db : Database) (table : String) (col : String) (value : Value)
    (outcome : QueryOutcome) : Option (List MapObject) := do
  let rows := (db table).filter fun row => DBUtil.sqlEq (row.get col) value
  let result ← execute rows outcome new
  return result.getData

-- `some none` is `null`, for no row as well as for a query that failed.
def loadSingleResult [SqlServer] (db : Database) (table : String) (col : String) (value : Value)
    (outcome : QueryOutcome) : Option (Option MapObject) := do
  let list ← load db table col value outcome
  return list.head?

end DataQueryResult

end WzGame
