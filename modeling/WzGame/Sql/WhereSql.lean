import WzGame.Util.Slots

/-!
This module contains the statements of the package `sql.impl`, of which the text comes out of a builder and the
parameters out of lists.
-/

namespace WzGame

namespace Sql

inductive Param where
  | int (v : Int32)
  | long (v : Int64)
  | string (s : String)
  | bool (b : Bool)
deriving DecidableEq

inductive EWhereType where
  | equal
  | gt
  | lt
  | like
deriving DecidableEq

def EWhereType.signal : EWhereType → String
  | equal => "="
  | gt => ">"
  | lt => "<"
  | like => "like"

structure WhereCondition where
  key : String
  value : Param
  whereType : EWhereType

inductive Exception where
  | nullPointer
  | runtime (message : String)
deriving DecidableEq

-- a list or name that is `null` is `none`
structure AbstractWhereSql where
  builder : List Char := []
  tableName : Option String
  conditionList : Option (List WhereCondition) := none

def appended (s : Option String) : List Char := (s.getD "null").toList

def whereLoop : Nat → List WhereCondition → List Char
  | _, [] => []
  | i, condition :: conditionList =>
    (if i = 0 then " where " else " and ").toList ++ condition.key.toList ++ " ".toList
      ++ condition.whereType.signal.toList ++ " ? ".toList ++ whereLoop (i + 1) conditionList

def selectLoop : List String → List Char
  | [] => []
  | col :: selectCols => col.toList ++ (if selectCols ≠ [] then [','] else []) ++ selectLoop selectCols

def setLoop : List (String × Param) → List Char
  | [] => []
  | pair :: dataList => pair.1.toList ++ " = ? ".toList ++ (if dataList ≠ [] then [','] else []) ++ setLoop dataList

namespace AbstractWhereSql

def checkArgument (sql : AbstractWhereSql) : Except Exception Unit :=
  if sql.tableName = none then .error (.runtime "table name must have a non-null value") else .ok ()

def getWhereParams (sql : AbstractWhereSql) : Except Exception (List Param) :=
  match sql.conditionList with
  | none => .error .nullPointer
  | some conditionList => .ok (conditionList.map WhereCondition.value)

def getWhereClause (sql : AbstractWhereSql) : List Char :=
  match sql.conditionList with
  | none => []
  | some conditionList => whereLoop 0 conditionList

-- `where`, which leaves the list `null` as long as there are no conditions.
def addWhere (sql : AbstractWhereSql) (conditions : List WhereCondition) : AbstractWhereSql :=
  if conditions = [] then sql else { sql with conditionList := some (sql.conditionList.getD [] ++ conditions) }

end AbstractWhereSql

structure SelectSql extends AbstractWhereSql where
  selectCols : Option (List String) := none

namespace SelectSql

def select (sql : SelectSql) (keys : List String) : SelectSql := { sql with selectCols := some keys }

def addWhere (sql : SelectSql) (conditions : List WhereCondition) : SelectSql :=
  { sql with toAbstractWhereSql := sql.toAbstractWhereSql.addWhere conditions }

def selectClause : Option (List String) → List Char
  | none => "select * ".toList
  | some selectCols => "select ".toList ++ selectLoop selectCols

def text (sql : SelectSql) : List Char :=
  selectClause sql.selectCols ++ " from ".toList ++ appended sql.tableName ++ sql.getWhereClause

def build (sql : SelectSql) : Except Exception (List Char) × SelectSql :=
  match sql.checkArgument with
  | .error e => (.error e, sql)
  | .ok () =>
    let builder := sql.builder ++ sql.text
    (.ok builder, { sql with builder })

end SelectSql

structure UpdateSql extends AbstractWhereSql where
  dataList : Option (List (String × Param)) := none

namespace UpdateSql

def data (sql : UpdateSql) (key : String) (value : Param) : UpdateSql :=
  { sql with dataList := some (sql.dataList.getD [] ++ [(key, value)]) }

def addWhere (sql : UpdateSql) (conditions : List WhereCondition) : UpdateSql :=
  { sql with toAbstractWhereSql := sql.toAbstractWhereSql.addWhere conditions }

def text (sql : UpdateSql) (dataList : List (String × Param)) : List Char :=
  "update ".toList ++ appended sql.tableName ++ " set ".toList ++ setLoop dataList ++ sql.getWhereClause

-- without a list of columns the exception comes after the name of the table
def build (sql : UpdateSql) : Except Exception (List Char) × UpdateSql :=
  match sql.dataList with
  | none =>
    (.error .nullPointer, { sql with builder := sql.builder ++ "update ".toList ++ appended sql.tableName })
  | some dataList =>
    let builder := sql.builder ++ sql.text dataList
    (.ok builder, { sql with builder })

def getDataParams (sql : UpdateSql) : List Param := (sql.dataList.getD []).map Prod.snd

def getAllParams (sql : UpdateSql) : Except Exception (List Param) := do
  let list1 := sql.getDataParams
  let list2 ← sql.getWhereParams
  return list1 ++ list2

end UpdateSql

inductive Statement where
  | select (sql : SelectSql)
  | update (sql : UpdateSql)

namespace Statement

def base : Statement → AbstractWhereSql
  | select sql => sql.toAbstractWhereSql
  | update sql => sql.toAbstractWhereSql

def build : Statement → Except Exception (List Char) × Statement
  | select sql => sql.build.map id select
  | update sql => sql.build.map id update

def getParams : Statement → Except Exception (List Param)
  | select sql => sql.getWhereParams
  | update sql => sql.getAllParams

end Statement

inductive Call where
  | build
  | getParams
  | execute
deriving DecidableEq

structure Result where
  text : Option (List Char)
  params : Option (List Param)

-- an exception in `execute` is thrown on, since it is not an `SQLException`
def call (statement : Statement) : Call → Except Exception Result × Statement
  | .build =>
    let (text, statement) := statement.build
    (text.map fun text => ⟨some text, none⟩, statement)
  | .getParams => (statement.getParams.map fun params => ⟨none, some params⟩, statement)
  | .execute =>
    let (text, statement) := statement.build
    (do return ⟨some (← text), some (← statement.getParams)⟩, statement)

def run (statement : Statement) : List Call → List (Except Exception Result)
  | [] => []
  | c :: calls =>
    let (result, statement) := call statement c
    result :: run statement calls

inductive Prepared : Statement → Prop where
  | newSelect (tableName : Option String) : Prepared (.select { tableName })
  | newUpdate (tableName : Option String) : Prepared (.update { tableName })
  | select {sql : SelectSql} (h : Prepared (.select sql)) (keys : List String) : Prepared (.select (sql.select keys))
  | selectWhere {sql : SelectSql} (h : Prepared (.select sql)) (conditions : List WhereCondition)
    : Prepared (.select (sql.addWhere conditions))
  | data {sql : UpdateSql} (h : Prepared (.update sql)) (key : String) (value : Param)
    : Prepared (.update (sql.data key value))
  | updateWhere {sql : UpdateSql} (h : Prepared (.update sql)) (conditions : List WhereCondition)
    : Prepared (.update (sql.addWhere conditions))

end Sql

end WzGame
