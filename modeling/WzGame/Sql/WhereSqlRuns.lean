import WzGame.Sql.WhereSql

/-!
This module contains when the texts of a statement are the same at every call and go with its parameters.
-/

namespace WzGame

namespace Sql

open Slots

def WhereCondition.slot (condition : WhereCondition) : List Char :=
  condition.key.toList ++ " ".toList ++ condition.whereType.signal.toList ++ " ".toList

def conditionItems : Nat → List WhereCondition → List (Item Char)
  | _, [] => []
  | i, condition :: conditions =>
    ⟨(if i = 0 then " where " else " and ").toList, condition.slot, " ".toList⟩ :: conditionItems (i + 1) conditions

def dataSlot (key : String) : List Char := key.toList ++ " = ".toList

def dataItems : List (String × Param) → List (Item Char)
  | [] => []
  | pair :: dataList =>
    ⟨[], dataSlot pair.1, " ".toList ++ if dataList ≠ [] then [','] else []⟩ :: dataItems dataList

def SelectSql.head (sql : SelectSql) : List Char :=
  selectClause sql.selectCols ++ " from ".toList ++ appended sql.tableName

def UpdateSql.head (sql : UpdateSql) : List Char := "update ".toList ++ appended sql.tableName ++ " set ".toList

namespace Statement

def conditions (statement : Statement) : List WhereCondition := statement.base.conditionList.getD []

def head : Statement → List Char
  | select sql => sql.head
  | update sql => sql.head

def items (statement : Statement) : List (Item Char) :=
  match statement with
  | select _ => conditionItems 0 statement.conditions
  | update sql => dataItems (sql.dataList.getD []) ++ conditionItems 0 statement.conditions

def entries (statement : Statement) : List (List Char × Param) :=
  match statement with
  | select _ => statement.conditions.map fun condition => (condition.slot, condition.value)
  | update sql => (sql.dataList.getD []).map (fun pair => (dataSlot pair.1, pair.2))
    ++ statement.conditions.map fun condition => (condition.slot, condition.value)

def headNames : Statement → List String
  | select sql => sql.selectCols.getD [] ++ sql.tableName.toList
  | update sql => sql.tableName.toList

def keys (statement : Statement) : List String :=
  match statement with
  | select _ => statement.conditions.map WhereCondition.key
  | update sql => (sql.dataList.getD []).map Prod.fst ++ statement.conditions.map WhereCondition.key

def names (statement : Statement) : List String := statement.headNames ++ statement.keys

def HasColumns : Statement → Prop
  | select sql => sql.selectCols ≠ some []
  | update sql => sql.dataList.getD [] ≠ []

def Named (statement : Statement) : Prop := ∀ sql, statement = select sql → sql.tableName ≠ none

end Statement

def texts (results : List (Except Exception Result)) : List (List Char) :=
  results.filterMap fun result => result.toOption.bind Result.text

/--
No call throws, all texts are the same, each one has its question marks behind the columns and conditions with a
value, and the parameters are these values.
-/
structure Agrees (statement : Statement) (calls : List Call) : Prop where
  returns : ∀ result ∈ run statement calls, ∃ r, result = .ok r
  same : ∀ text ∈ texts (run statement calls), ∀ text' ∈ texts (run statement calls), text = text'
  inOrder : ∀ text ∈ texts (run statement calls), InOrder '?' text (statement.entries.map Prod.fst)
  params : statement.getParams = .ok (statement.entries.map Prod.snd)
  handed : ∀ r, .ok r ∈ run statement calls → ∀ values, r.params = some values →
    values = statement.entries.map Prod.snd

def builds (calls : List Call) : Nat := calls.countP (· ≠ .getParams)

-- the builder is empty, and a list that is not `null` has an element
structure Fresh (statement : Statement) : Prop where
  builder : statement.base.builder = []
  conditionList : statement.base.conditionList ≠ some []

theorem Fresh.addWhere {sql : AbstractWhereSql} (h : sql.conditionList ≠ some []) (conditions : List WhereCondition)
    : (sql.addWhere conditions).builder = sql.builder ∧ (sql.addWhere conditions).conditionList ≠ some [] := by
  rw [AbstractWhereSql.addWhere]
  split
  . exact ⟨rfl, h⟩
  . next hne => exact ⟨rfl, by simp [hne]⟩

theorem Prepared.fresh {statement : Statement} (h : Prepared statement) : Fresh statement := by
  induction h with
  | newSelect tableName => exact ⟨rfl, nofun⟩
  | newUpdate tableName => exact ⟨rfl, nofun⟩
  | select _ keys ih => exact ⟨ih.builder, ih.conditionList⟩
  | data _ key value ih => exact ⟨ih.builder, ih.conditionList⟩
  | selectWhere _ conditions ih =>
    obtain ⟨hbuilder, hlist⟩ := Fresh.addWhere ih.conditionList conditions
    exact ⟨hbuilder.trans ih.builder, hlist⟩
  | updateWhere _ conditions ih =>
    obtain ⟨hbuilder, hlist⟩ := Fresh.addWhere ih.conditionList conditions
    exact ⟨hbuilder.trans ih.builder, hlist⟩

section Text

theorem whereLoop_eq (i : Nat) (conditions : List WhereCondition) (head : List Char)
    : head ++ whereLoop i conditions = text '?' head (conditionItems i conditions) := by
  induction conditions generalizing i head with
  | nil => rw [whereLoop, conditionItems, text, List.flatMap_nil]
  | cons condition conditions ih =>
    have hmark : " ? ".toList = " ".toList ++ '?' :: " ".toList := by decide
    rw [whereLoop, conditionItems, text_cons, ← ih, WhereCondition.slot, hmark]
    simp only [List.append_assoc, List.cons_append]

theorem setLoop_eq (dataList : List (String × Param)) (head : List Char)
    : head ++ setLoop dataList = text '?' head (dataItems dataList) := by
  induction dataList generalizing head with
  | nil => rw [setLoop, dataItems, text, List.flatMap_nil]
  | cons pair dataList ih =>
    have hmark : " = ? ".toList = " = ".toList ++ '?' :: " ".toList := by decide
    rw [setLoop, dataItems, text_cons, ← ih, dataSlot, hmark]
    simp only [List.append_assoc, List.cons_append, List.nil_append]

theorem getWhereClause_eq (sql : AbstractWhereSql)
    : sql.getWhereClause = whereLoop 0 (sql.conditionList.getD []) := by
  rw [AbstractWhereSql.getWhereClause]
  split
  . next hnone => rw [hnone, Option.getD_none, whereLoop]
  . next hsome => rw [hsome, Option.getD_some]

theorem text_select (sql : SelectSql)
    : sql.text = text '?' (Statement.select sql).head (Statement.select sql).items := by
  rw [Statement.items, ← whereLoop_eq, SelectSql.text, Statement.head, SelectSql.head, getWhereClause_eq,
    Statement.conditions, Statement.base]

theorem text_update {sql : UpdateSql} {dataList : List (String × Param)} (h : sql.dataList = some dataList)
    : sql.text dataList = text '?' (Statement.update sql).head (Statement.update sql).items := by
  have hitems : (Statement.update sql).items = dataItems dataList ++ conditionItems 0 (sql.conditionList.getD []) := by
    rw [Statement.items, h, Option.getD_some, Statement.conditions, Statement.base]
  rw [hitems, text_append, ← setLoop_eq, ← whereLoop_eq, Statement.head, ← getWhereClause_eq]
  rfl

theorem map_slot_conditionItems (i : Nat) (conditions : List WhereCondition)
    : (conditionItems i conditions).map Item.slot = conditions.map WhereCondition.slot := by
  induction conditions generalizing i with
  | nil => rfl
  | cons condition conditions ih => rw [conditionItems, List.map_cons, List.map_cons, ih]

theorem map_slot_dataItems (dataList : List (String × Param))
    : (dataItems dataList).map Item.slot = dataList.map fun pair => dataSlot pair.1 := by
  induction dataList with
  | nil => rfl
  | cons pair dataList ih => rw [dataItems, List.map_cons, List.map_cons, ih]

theorem map_slot_items (statement : Statement)
    : statement.items.map Item.slot = statement.entries.map Prod.fst := by
  cases statement with
  | select sql =>
    rw [Statement.items, Statement.entries, map_slot_conditionItems, List.map_map]
    rfl
  | update sql =>
    rw [Statement.items, Statement.entries, List.map_append, map_slot_conditionItems, map_slot_dataItems,
      List.map_append, List.map_map, List.map_map]
    rfl

theorem notMem_conditionItems (i : Nat) (conditions : List WhereCondition)
    : ∀ item ∈ conditionItems i conditions, '?' ∉ item.lead ∧ '?' ∉ item.tail := by
  induction conditions generalizing i with
  | nil => nofun
  | cons condition conditions ih =>
    rw [conditionItems]
    have hspace : '?' ∉ " ".toList := by decide
    refine List.forall_mem_cons.mpr ⟨⟨?_, hspace⟩, ih (i + 1)⟩
    show '?' ∉ (if i = 0 then " where " else " and ").toList
    split <;> decide

theorem notMem_dataItems (dataList : List (String × Param))
    : ∀ item ∈ dataItems dataList, '?' ∉ item.lead ∧ '?' ∉ item.tail := by
  induction dataList with
  | nil => nofun
  | cons pair dataList ih =>
    rw [dataItems]
    refine List.forall_mem_cons.mpr ⟨⟨List.not_mem_nil, ?_⟩, ih⟩
    show '?' ∉ " ".toList ++ if dataList ≠ [] then [','] else []
    split <;> decide

theorem notMem_items (statement : Statement) : ∀ item ∈ statement.items, '?' ∉ item.lead ∧ '?' ∉ item.tail := by
  cases statement with
  | select sql => exact notMem_conditionItems 0 _
  | update sql => exact List.forall_mem_append.mpr ⟨notMem_dataItems _, notMem_conditionItems 0 _⟩

theorem mem_slot_iff (condition : WhereCondition) : '?' ∈ condition.slot ↔ '?' ∈ condition.key.toList := by
  have hsignal : '?' ∉ condition.whereType.signal.toList := by
    cases condition.whereType <;> decide
  have hspace : '?' ∉ " ".toList := by decide
  simp only [WhereCondition.slot, List.mem_append, hsignal, hspace, or_false]

theorem mem_dataSlot_iff (key : String) : '?' ∈ dataSlot key ↔ '?' ∈ key.toList := by
  have hequals : '?' ∉ " = ".toList := by decide
  simp only [dataSlot, List.mem_append, hequals, or_false]

theorem mem_appended_iff (s : Option String) : '?' ∈ appended s ↔ ∃ name ∈ s.toList, '?' ∈ name.toList := by
  cases s with
  | none => simp [appended]
  | some name => simp [appended]

theorem mem_selectLoop_iff (cols : List String) : '?' ∈ selectLoop cols ↔ ∃ name ∈ cols, '?' ∈ name.toList := by
  induction cols with
  | nil => simp [selectLoop]
  | cons col cols ih =>
    have hcomma : '?' ∉ if cols ≠ [] then [','] else [] := by split <;> decide
    simp only [selectLoop, List.mem_append, hcomma, or_false, ih, List.exists_mem_cons_iff]

theorem mem_selectClause_iff (cols : Option (List String))
    : '?' ∈ SelectSql.selectClause cols ↔ ∃ name ∈ cols.getD [], '?' ∈ name.toList := by
  cases cols with
  | none =>
    have hall : '?' ∉ SelectSql.selectClause none := by decide
    simpa using hall
  | some cols =>
    have hselect : '?' ∉ "select ".toList := by decide
    show '?' ∈ "select ".toList ++ selectLoop cols ↔ _
    rw [List.mem_append, or_iff_right hselect, mem_selectLoop_iff, Option.getD_some]

theorem mem_head_iff (statement : Statement)
    : '?' ∈ statement.head ↔ ∃ name ∈ statement.headNames, '?' ∈ name.toList := by
  cases statement with
  | select sql =>
    have hclause := mem_selectClause_iff sql.selectCols
    have hfrom : '?' ∉ " from ".toList := by decide
    simp only [Statement.head, SelectSql.head, Statement.headNames, List.mem_append, hclause, hfrom, or_false,
      mem_appended_iff, or_and_right, exists_or]
  | update sql =>
    have hupdate : '?' ∉ "update ".toList := by decide
    have hset : '?' ∉ " set ".toList := by decide
    rw [Statement.head, Statement.headNames, ← mem_appended_iff]
    unfold UpdateSql.head
    simp only [List.mem_append, hupdate, hset, or_false, false_or]

theorem forall_notMem_slot (statement : Statement)
    : (∀ item ∈ statement.items, '?' ∉ item.slot) ↔ ∀ key ∈ statement.keys, '?' ∉ key.toList := by
  have hslots : (∀ item ∈ statement.items, '?' ∉ item.slot)
      ↔ ∀ slot ∈ statement.items.map Item.slot, '?' ∉ slot := by simp
  rw [hslots, map_slot_items]
  cases statement with
  | select sql => simp [Statement.entries, Statement.keys, mem_slot_iff]
  | update sql =>
    simp only [Statement.entries, Statement.keys, List.map_append, List.map_map, List.forall_mem_append,
      List.forall_mem_map, Function.comp_apply, mem_slot_iff, mem_dataSlot_iff]

theorem inOrder_iff (statement : Statement)
    : InOrder '?' (text '?' statement.head statement.items) (statement.entries.map Prod.fst)
        ↔ ∀ name ∈ statement.names, '?' ∉ name.toList := by
  rw [← map_slot_items, inOrder_text_iff (notMem_items statement), mem_head_iff, forall_notMem_slot, Statement.names,
    List.forall_mem_append]
  simp

end Text

section Calls

variable {statement : Statement}

namespace Statement

def withBuilder (statement : Statement) (builder : List Char) : Statement :=
  match statement with
  | select sql => select { sql with builder }
  | update sql => update { sql with builder }

def block (statement : Statement) : List Char := text '?' statement.head statement.items

@[simp]
theorem block_withBuilder (builder : List Char) : (statement.withBuilder builder).block = statement.block := by
  cases statement <;> rfl

@[simp]
theorem getParams_withBuilder (builder : List Char)
    : (statement.withBuilder builder).getParams = statement.getParams := by
  cases statement <;> rfl

@[simp]
theorem builder_withBuilder (builder : List Char) : (statement.withBuilder builder).base.builder = builder := by
  cases statement <;> rfl

theorem Named.withBuilder (h : statement.Named) (builder : List Char) : (statement.withBuilder builder).Named := by
  cases statement with
  | select sql =>
    intro sql' heq
    rw [← Statement.select.inj heq]
    exact h sql rfl
  | update sql => exact nofun

theorem HasColumns.withBuilder (h : statement.HasColumns) (builder : List Char)
    : (statement.withBuilder builder).HasColumns := by
  cases statement <;> exact h

theorem build_eq (hnamed : statement.Named) (hcolumns : statement.HasColumns)
    : statement.build
        = (.ok (statement.base.builder ++ statement.block),
          statement.withBuilder (statement.base.builder ++ statement.block)) := by
  cases statement with
  | select sql =>
    have htable : sql.tableName ≠ none := hnamed sql rfl
    rw [build, SelectSql.build, AbstractWhereSql.checkArgument, if_neg htable]
    simp only [text_select]
    rfl
  | update sql =>
    obtain ⟨base, dataList⟩ := sql
    cases dataList with
    | none => exact absurd rfl hcolumns
    | some dataList =>
      rw [build, UpdateSql.build]
      simp only [@text_update ⟨base, some dataList⟩ dataList rfl]
      rfl

theorem build_error (hnamed : ¬ statement.Named) : ∃ e, statement.build = (.error e, statement) := by
  cases statement with
  | select sql =>
    have htable : sql.tableName = none := by
      by_contra htable
      exact hnamed fun _ heq => by rwa [← Statement.select.inj heq]
    rw [build, SelectSql.build, AbstractWhereSql.checkArgument, if_pos htable]
    exact ⟨_, rfl⟩
  | update sql => exact absurd (fun _ heq => Statement.noConfusion heq) hnamed

theorem getParams_eq
    : statement.getParams
        = if statement.base.conditionList = none then .error .nullPointer
          else .ok (statement.entries.map Prod.snd) := by
  have hwhere : ∀ sql : AbstractWhereSql, sql.getWhereParams
      = if sql.conditionList = none then .error .nullPointer
        else .ok ((sql.conditionList.getD []).map WhereCondition.value) := by
    intro sql
    rw [AbstractWhereSql.getWhereParams]
    cases sql.conditionList <;> rfl
  cases statement with
  | select sql =>
    rw [getParams, hwhere, entries, List.map_map]
    rfl
  | update sql =>
    rw [getParams, UpdateSql.getAllParams, hwhere, entries, List.map_append, List.map_map, List.map_map, base]
    split
    . rfl
    . rfl

end Statement

open WzGame.Sql.Statement

def blocks (statement : Statement) (n : Nat) : List (List Char) :=
  (List.range n).map fun k => statement.base.builder ++ (List.replicate (k + 1) statement.block).flatten

theorem blocks_succ (n : Nat)
    : blocks statement (n + 1)
        = (statement.base.builder ++ statement.block)
          :: blocks (statement.withBuilder (statement.base.builder ++ statement.block)) n := by
  rw [blocks, blocks, List.range_succ_eq_map, List.map_cons, List.map_map]
  simp [List.replicate_succ, Function.comp_def]

theorem builds_cons (c : Call) (calls : List Call)
    : builds (c :: calls) = builds calls + if c ≠ .getParams then 1 else 0 := by
  simp [builds, List.countP_cons]

theorem call_getParams {values : List Param} (hparams : statement.getParams = .ok values)
    : call statement .getParams = (.ok ⟨none, some values⟩, statement) := by
  rw [call, hparams]
  rfl

theorem call_eq {values : List Param} (hnamed : statement.Named) (hcolumns : statement.HasColumns)
    (hparams : statement.getParams = .ok values) {c : Call} (hc : c ≠ .getParams)
    : ∃ r : Result, r.text = some (statement.base.builder ++ statement.block)
        ∧ (∀ v, r.params = some v → v = values)
        ∧ call statement c
          = (.ok r, statement.withBuilder (statement.base.builder ++ statement.block)) := by
  cases c with
  | getParams => contradiction
  | build =>
    refine ⟨⟨_, none⟩, rfl, nofun, ?_⟩
    rw [call, build_eq hnamed hcolumns]
    rfl
  | execute =>
    refine ⟨⟨_, some values⟩, rfl, fun v hv => (Option.some.inj hv).symm, ?_⟩
    rw [call, build_eq hnamed hcolumns]
    simp only [getParams_withBuilder, hparams]
    rfl

theorem run_spec {values : List Param} (hnamed : statement.Named) (hcolumns : statement.HasColumns)
    (hparams : statement.getParams = .ok values) (calls : List Call)
    : (∀ result ∈ run statement calls, ∃ r, result = .ok r ∧ ∀ v, r.params = some v → v = values)
        ∧ texts (run statement calls) = blocks statement (builds calls) := by
  induction calls generalizing statement with
  | nil => exact ⟨nofun, rfl⟩
  | cons c calls ih =>
    by_cases hc : c = .getParams
    . obtain ⟨hresults, htexts⟩ := ih hnamed hcolumns hparams
      rw [hc, builds_cons, if_neg (by simp), run, call_getParams hparams]
      exact ⟨List.forall_mem_cons.mpr ⟨⟨_, rfl, fun v hv => (Option.some.inj hv).symm⟩, hresults⟩, htexts⟩
    . obtain ⟨r, htext, hvalues, hcall⟩ := call_eq hnamed hcolumns hparams hc
      obtain ⟨hresults, htexts⟩ := ih (hnamed.withBuilder (statement.base.builder ++ statement.block))
        (hcolumns.withBuilder _) ((getParams_withBuilder _).trans hparams)
      rw [builds_cons, if_pos hc, blocks_succ, run, hcall]
      refine ⟨List.forall_mem_cons.mpr ⟨⟨r, rfl, hvalues⟩, hresults⟩, ?_⟩
      rw [texts, List.filterMap_cons_some (by exact htext), ← htexts]
      rfl

theorem run_getParams {values : List Param} (hparams : statement.getParams = .ok values) {calls : List Call}
    (hcalls : builds calls = 0)
    : run statement calls = calls.map fun _ => .ok ⟨none, some values⟩ := by
  induction calls with
  | nil => rfl
  | cons c calls ih =>
    rw [builds_cons] at hcalls
    by_cases hc : c = .getParams
    . rw [hc, run, call_getParams hparams, List.map_cons, ← ih (by omega)]
    . simp [hc] at hcalls

theorem call_error {e : Exception} (hbuild : statement.build = (.error e, statement)) {c : Call} (hc : c ≠ .getParams)
    : call statement c = (.error e, statement) := by
  cases c with
  | getParams => contradiction
  | build => simp only [call, hbuild]; rfl
  | execute => simp only [call, hbuild]; rfl

theorem run_error (hnamed : ¬ statement.Named) {calls : List Call} (hcalls : builds calls ≠ 0)
    : ∃ e, .error e ∈ run statement calls := by
  obtain ⟨e, hbuild⟩ := build_error hnamed
  induction calls with
  | nil => exact absurd rfl hcalls
  | cons c calls ih =>
    rw [run]
    by_cases hc : c = .getParams
    . subst hc
      obtain ⟨e', he'⟩ := ih (by simpa [builds_cons] using hcalls)
      exact ⟨e', List.mem_cons_of_mem _ he'⟩
    . rw [call_error hbuild hc]
      exact ⟨e, List.mem_cons_self⟩

end Calls

theorem block_ne_nil (statement : Statement) : statement.block ≠ [] := by
  have hspace : ' ' ∈ statement.head := by
    cases statement with
    | select sql =>
      have hfrom : ' ' ∈ " from ".toList := by decide
      show ' ' ∈ SelectSql.selectClause sql.selectCols ++ " from ".toList ++ appended sql.tableName
      exact List.mem_append_left _ (List.mem_append_right _ hfrom)
    | update sql =>
      have hset : ' ' ∈ " set ".toList := by decide
      show ' ' ∈ "update ".toList ++ appended sql.tableName ++ " set ".toList
      exact List.mem_append_right _ hset
  exact List.ne_nil_of_mem (List.mem_append_left _ hspace)

theorem blocks_one {statement : Statement} (h : statement.base.builder = [])
    : blocks statement 1 = [statement.block] := by
  simp [blocks, h]

theorem exists_ne_of_blocks {statement : Statement} {n : Nat} (h : 2 ≤ n)
    : ∃ text ∈ blocks statement n, ∃ text' ∈ blocks statement n, text ≠ text' := by
  refine ⟨_, List.mem_map_of_mem (List.mem_range.mpr (show 0 < n by omega)), _,
    List.mem_map_of_mem (List.mem_range.mpr (show 1 < n by omega)), ?_⟩
  simp [block_ne_nil]

theorem Fresh.getParams_eq_ok_iff {statement : Statement} (h : Fresh statement)
    : statement.getParams = .ok (statement.entries.map Prod.snd) ↔ statement.conditions ≠ [] := by
  rw [Statement.getParams_eq, Statement.conditions]
  have hlist := h.conditionList
  cases hconditions : statement.base.conditionList with
  | none => simp
  | some conditions =>
    rw [hconditions] at hlist
    simpa using hlist

/-- The texts of a statement with columns agree with its parameters exactly if a condition has been given, and if
the text is built once at most, out of names that are there and have no question mark. -/
theorem agrees_iff {statement : Statement} (h : Prepared statement) (hcolumns : statement.HasColumns)
    (calls : List Call)
    : Agrees statement calls
        ↔ statement.conditions ≠ []
          ∧ (builds calls = 0
            ∨ builds calls = 1 ∧ statement.Named ∧ ∀ name ∈ statement.names, '?' ∉ name.toList) := by
  have hbuilder := h.fresh.builder
  rw [← h.fresh.getParams_eq_ok_iff]
  constructor
  . intro hagrees
    refine ⟨hagrees.params, ?_⟩
    by_cases hzero : builds calls = 0
    . exact .inl hzero
    by_cases hnamed : statement.Named
    . have htexts := (run_spec hnamed hcolumns hagrees.params calls).2
      have hone : builds calls = 1 := by
        by_contra hmore
        obtain ⟨text, htext, text', htext', hne⟩ := @exists_ne_of_blocks statement _ (show 2 ≤ builds calls by omega)
        rw [← htexts] at htext htext'
        exact hne (hagrees.same text htext text' htext')
      rw [hone, blocks_one hbuilder] at htexts
      exact .inr ⟨hone, hnamed, (inOrder_iff statement).mp (hagrees.inOrder statement.block (by simp [htexts]))⟩
    . obtain ⟨e, he⟩ := run_error hnamed hzero
      obtain ⟨r, hr⟩ := hagrees.returns _ he
      contradiction
  . rintro ⟨hparams, hzero | ⟨hone, hnamed, hnames⟩⟩
    . have hrun := run_getParams hparams hzero
      have htexts : texts (run statement calls) = [] := by
        rw [hrun, texts, List.filterMap_eq_nil_iff]
        intro result hresult
        obtain ⟨_, _, rfl⟩ := List.mem_map.mp hresult
        rfl
      constructor
      . intro result hresult
        rw [hrun] at hresult
        obtain ⟨_, _, rfl⟩ := List.mem_map.mp hresult
        exact ⟨_, rfl⟩
      . simp [htexts]
      . simp [htexts]
      . exact hparams
      . intro r hr v hv
        rw [hrun] at hr
        obtain ⟨_, _, heq⟩ := List.mem_map.mp hr
        rw [← Except.ok.inj heq] at hv
        exact (Option.some.inj hv).symm
    . obtain ⟨hresults, htexts⟩ := run_spec hnamed hcolumns hparams calls
      rw [hone, blocks_one hbuilder] at htexts
      constructor
      . intro result hresult
        obtain ⟨r, hr, -⟩ := hresults result hresult
        exact ⟨r, hr⟩
      . simp [htexts]
      . intro text htext
        rw [htexts, List.mem_singleton] at htext
        rw [htext]
        exact (inOrder_iff statement).mpr hnames
      . exact hparams
      . intro r hr v hv
        obtain ⟨r', hr', hvalues⟩ := hresults _ hr
        rw [Except.ok.inj hr'] at hv
        exact hvalues v hv

def accountQuery : Statement :=
  .select ((SelectSql.select { tableName := some "account" } ["id", "name"]).addWhere [⟨"platform", .int 7, .equal⟩])

theorem agrees_accountQuery : Agrees accountQuery [.getParams, .execute] := by
  have hprepared : Prepared accountQuery := .selectWhere (.select (.newSelect _) _) _
  refine (agrees_iff hprepared (by decide : some ["id", "name"] ≠ some []) _).mpr ⟨nofun, .inr ⟨rfl, ?_, by decide⟩⟩
  intro sql hsql
  rw [← Statement.select.inj hsql]
  exact nofun

theorem agrees_counterexample
    : ¬ ∀ (statement : Statement) (calls : List Call), Prepared statement → statement.HasColumns →
        Agrees statement calls := by
  intro hevery
  have hparams := (hevery (.select { tableName := some "account" }) [] (.newSelect _) nofun).params
  exact absurd hparams nofun

end Sql

end WzGame
