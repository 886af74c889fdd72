import WzGame.Database.WhereClause
import WzGame.Util.KeyedList

/-!
This module contains the batches of `DBUtil`: the statements they send for their rows, and the transaction they
send them in.
-/

namespace WzGame

namespace ColumnMap

variable {α β : Type}

def empty : ColumnMap α := ⟨[], List.nodup_nil⟩

def map (f : α → β) (m : ColumnMap α) : ColumnMap β where
  entries := m.entries.map fun e => (e.1, f e.2)
  nodup := by
    rw [List.map_map]
    exact m.nodup

def put (m : ColumnMap α) (key : String) (value : α) : ColumnMap α where
  entries := KeyedList.upsert Prod.fst m.entries (key, value)
  nodup := KeyedList.nodup_upsert m.nodup

end ColumnMap

-- an `Object` of a row: `null`, a `Collection` or anything else
inductive RowValue (ν : Type) where
  | null
  | scalar (v : ν)
  | collection (vs : List (RowValue ν))

namespace RowValue

variable {ν : Type}

def isCollection : RowValue ν → Bool
  | collection _ => true
  | _ => false

def toWhere : RowValue ν → WhereValue (RowValue ν)
  | collection vs => .collection vs
  | value => .scalar value

end RowValue

abbrev Row (ν : Type) := ColumnMap (RowValue ν)

namespace Row

variable {ν : Type}

-- `data.get(key)`, which is `null` as well if there is no such column.
def value (data : Row ν) (key : String) : RowValue ν := (data.get key).getD .null

def toWhere (data : Row ν) : ColumnMap (WhereValue (RowValue ν)) := data.map RowValue.toWhere

end Row

inductive Statement.Kind where
  | insert
  | update
  | delete
deriving DecidableEq

structure Statement (ν : Type) where
  kind : Statement.Kind
  data : Row ν
  text : String
  params : List (RowValue ν)

namespace DBUtil

variable {ν : Type}

def updateLoop (excludes : Option (List String))
    : Bool → List (String × RowValue ν) → String → List (RowValue ν) → String × List (RowValue ν)
  | _, [], builder, params => (builder, params)
  | first, (key, value) :: rest, builder, params =>
    if excludes.any fun excludes => key ∈ excludes then
      updateLoop excludes first rest builder params
    else
      updateLoop excludes false rest (builder ++ (if first then "SET " else ", ") ++ "`" ++ key ++ "` = ? ")
        (params ++ [value])

def getUpdateClause (data : Row ν) (builder : String) (params : List (RowValue ν))
    (excludes : Option (List String)) : String × List (RowValue ν) :=
  if 0 < data.size then updateLoop excludes true data.entries builder params else (builder, params)

def existsQuery (table : String) (where' : Row ν) (fields : Option (List String))
    : String × List (RowValue ν) :=
  let (builder, params) :=
    getWhereClause (some where'.toWhere) ("SELECT EXISTS(SELECT * FROM `" ++ table ++ "` ") [] fields
  (builder ++ " LIMIT 1) AS result", params)

def insertLoop (data : Row ν) : List String → String → String → List (RowValue ν)
    → String × String × List (RowValue ν)
  | [], sql, values, params => (sql, values, params)
  | key :: fields, sql, values, params =>
    let params := params ++ [data.value key]
    let delim := if params.length = 1 then "(" else ","
    insertLoop data fields (sql ++ delim ++ "`" ++ key ++ "`") (values ++ delim ++ "?") params

def insertInto (table : String) (data : Row ν) (excludes : Option (List String)) : Option (Statement ν) :=
  let fields := data.keySet.filter fun key => ¬ excludes.any fun excludes => key ∈ excludes
  if fields.length = 0 then
    none
  else
    let (sql, values, params) := insertLoop data fields ("INSERT INTO `" ++ table ++ "` ") " VALUES " []
    some ⟨.insert, data, sql ++ ")" ++ (values ++ ")"), params⟩

def update (table : String) (primarykey : Option (List String)) (data : Row ν)
    (excludes : Option (List String)) : Statement ν :=
  let (builder, params) := getUpdateClause data ("UPDATE `" ++ table ++ "` ") [] excludes
  let (builder, params) := getWhereClause (some data.toWhere) builder params primarykey
  ⟨.update, data, builder, params⟩

def deleteWhere (primarykey : List String) (excludes : Option (List String)) (data : Row ν) : Row ν :=
  primarykey.foldl
    (fun where' key =>
      if excludes.any fun excludes => key ∈ excludes then where' else where'.put key (data.value key))
    .empty

def delete (table : String) (primarykey : List String) (excludes : Option (List String)) (data : Row ν)
    : Statement ν :=
  let (sql, params) :=
    getWhereClause (some (deleteWhere primarykey excludes data).toWhere) ("DELETE FROM `" ++ table ++ "` ") [] none
  ⟨.delete, data, sql, params⟩

end DBUtil

-- the exceptions, of which all but `SQLException` are unchecked
inductive Thrown where
  | sqlException
  | illegalArgumentException (message : String)
  | uncheckedException
deriving DecidableEq

inductive Place where
  | getConnection
  | setAutoCommit
  | delete (idx : Nat)
  | exists' (idx : Nat)
  | save (idx : Nat)
  | commit
deriving DecidableEq

-- a step that throws, after its statement has been executed or without
structure Fault where
  thrown : Thrown
  executed : Bool
deriving DecidableEq

structure Environment (ν : Type) where
  fault : Place → Option Fault
  found : Nat → String × List (RowValue ν) → Bool

structure Connection (ν : Type) where
  autoCommit : Bool
  pending : List (Statement ν)
  committed : List (Statement ν)
  executed : List (Statement ν)

namespace Connection

variable {ν : Type}

def pooled : Connection ν := ⟨true, [], [], []⟩

def execute (conn : Connection ν) (statement : Statement ν) : Connection ν :=
  let conn := { conn with executed := conn.executed ++ [statement] }
  if conn.autoCommit then
    { conn with committed := conn.committed ++ [statement] }
  else
    { conn with pending := conn.pending ++ [statement] }

def commit (conn : Connection ν) : Connection ν :=
  { conn with committed := conn.committed ++ conn.pending, pending := [] }

def rollback (conn : Connection ν) : Connection ν := { conn with pending := [] }

def setAutoCommit (conn : Connection ν) (autoCommit : Bool) : Connection ν :=
  if autoCommit then { conn.commit with autoCommit } else { conn with autoCommit }

end Connection

-- code that works on a connection, and keeps what it has done when it throws
abbrev Jdbc (ν α : Type) := ExceptT Thrown (StateM (Connection ν)) α

namespace Jdbc

variable {ν : Type}

-- a call of the connection that has no effect when it throws
def call (env : Environment ν) (place : Place) (effect : Connection ν → Connection ν) : Jdbc ν Unit :=
  fun conn =>
    match env.fault place with
    | none => (.ok (), effect conn)
    | some fault => (.error fault.thrown, conn)

-- `execute(conn, db, sql, params)` and the closing of the statement.
def execute (env : Environment ν) (place : Place) (statement : Statement ν) : Jdbc ν Unit :=
  fun conn =>
    match env.fault place with
    | none => (.ok (), conn.execute statement)
    | some fault => (.error fault.thrown, if fault.executed then conn.execute statement else conn)

end Jdbc

namespace Batch

variable {ν : Type}

def exists' (env : Environment ν) (idx : Nat) (table : String) (where' : Row ν) (fields : Option (List String))
    : Jdbc ν Bool := do
  Jdbc.call env (.exists' idx) id
  return env.found idx (DBUtil.existsQuery table where' fields)

-- the loop over `deletelist`, whose elements are `none` when they are not maps
def deleteRows (env : Environment ν) (table : String) (primarykey : List String)
    (excludes : Option (List String)) : Nat → List (Option (Row ν)) → Jdbc ν Unit
  | _, [] => pure ()
  | _, none :: _ => throw .uncheckedException
  | idx, some data :: rest => do
    -- dangours operation
    if data.size ≠ 0 then
      Jdbc.execute env (.delete idx) (DBUtil.delete table primarykey excludes data)
    deleteRows env table primarykey excludes (idx + 1) rest

def saveRows (env : Environment ν) (table : String) (primarykey excludes : Option (List String))
    : Nat → List (Row ν) → Jdbc ν Unit
  | _, [] => pure ()
  | idx, data :: rest => do
    if ← exists' env idx table data primarykey then
      Jdbc.execute env (.save idx) (DBUtil.update table primarykey data excludes)
    else
      match DBUtil.insertInto table data excludes with
      | none => pure ()
      | some statement => Jdbc.execute env (.save idx) statement
    saveRows env table primarykey excludes (idx + 1) rest

def deletePart (env : Environment ν) (table : String) (primarykey excludes : Option (List String))
    (deletelist : Option (List (Option (Row ν)))) : Jdbc ν Unit :=
  match deletelist, primarykey with
  | some deletelist, some primarykey =>
    if 0 < primarykey.length then deleteRows env table primarykey excludes 0 deletelist else pure ()
  | _, _ => pure ()

def transaction (env : Environment ν) (body : Jdbc ν Unit) : Except Thrown Unit × Connection ν :=
  match env.fault .getConnection with
  -- `conn` is `null`, and the exceptions of its methods are ignored
  | some fault => (.error fault.thrown, .pooled)
  | none =>
    let (result, conn) := (do
      Jdbc.call env .setAutoCommit (·.setAutoCommit false)
      body
      Jdbc.call env .commit (·.commit) : Jdbc ν Unit) .pooled
    let conn :=
      match result with
      | .error .sqlException => conn.rollback
      | _ => conn
    (result, conn.setAutoCommit true)

def checkRows (datalist : Option (List (Option (Row ν)))) : Except Thrown (List (Row ν)) :=
  match datalist with
  | none => .error (.illegalArgumentException "data = null")
  | some datalist =>
    match datalist.mapM id with
    | none => .error (.illegalArgumentException "data components should be Map<String, Object>")
    | some rows => .ok rows

def batchInsertOrUpdate (env : Environment ν) (table : String) (primarykey : Option (List String))
    (datalist : Option (List (Option (Row ν)))) (excludes : Option (List String))
    : Except Thrown Unit × Connection ν :=
  match checkRows datalist with
  | .error thrown => (.error thrown, .pooled)
  | .ok rows =>
    if rows.length = 0 then
      (.ok (), .pooled)
    else
      transaction env (saveRows env table primarykey excludes 0 rows)

def batchDelete (env : Environment ν) (table : String) (primarykey excludes : Option (List String))
    (deletelist : Option (List (Option (Row ν)))) : Except Thrown Unit × Connection ν :=
  transaction env (deletePart env table primarykey excludes deletelist)

def batchDeleteAndSave (env : Environment ν) (table : String) (primarykey : Option (List String))
    (datalist : Option (List (Option (Row ν)))) (excludes : Option (List String))
    (deletelist : Option (List (Option (Row ν)))) : Except Thrown Unit × Connection ν :=
  match checkRows datalist with
  | .error thrown => (.error thrown, .pooled)
  | .ok rows =>
    transaction env do
      deletePart env table primarykey excludes deletelist
      saveRows env table primarykey excludes 0 rows

structure Step (ν : Type) where
  fault : Option Fault
  statement : Option (Statement ν)

-- the exception of the first step that fails, and the statements that have been executed until then
def course : List (Step ν) → Option Thrown × List (Statement ν)
  | [] => (none, [])
  | step :: steps =>
    match step.fault with
    | none => ((course steps).1, step.statement.toList ++ (course steps).2)
    | some fault => (some fault.thrown, if fault.executed then step.statement.toList else [])

def deleteSteps (env : Environment ν) (table : String) (primarykey : List String)
    (excludes : Option (List String)) : Nat → List (Option (Row ν)) → List (Step ν)
  | _, [] => []
  | idx, none :: rest =>
    ⟨some ⟨.uncheckedException, false⟩, none⟩ :: deleteSteps env table primarykey excludes (idx + 1) rest
  | idx, some data :: rest =>
    if data.size ≠ 0 then
      ⟨env.fault (.delete idx), some (DBUtil.delete table primarykey excludes data)⟩
        :: deleteSteps env table primarykey excludes (idx + 1) rest
    else
      deleteSteps env table primarykey excludes (idx + 1) rest

def saveStatement (env : Environment ν) (table : String) (primarykey excludes : Option (List String))
    (idx : Nat) (data : Row ν) : Option (Statement ν) :=
  if env.found idx (DBUtil.existsQuery table data primarykey) then
    some (DBUtil.update table primarykey data excludes)
  else
    DBUtil.insertInto table data excludes

def saveSteps (env : Environment ν) (table : String) (primarykey excludes : Option (List String))
    : Nat → List (Row ν) → List (Step ν)
  | _, [] => []
  | idx, data :: rest =>
    ⟨env.fault (.exists' idx), none⟩
      :: ((saveStatement env table primarykey excludes idx data).toList.map fun statement =>
            ⟨env.fault (.save idx), some statement⟩)
        ++ saveSteps env table primarykey excludes (idx + 1) rest

end Batch

end WzGame
