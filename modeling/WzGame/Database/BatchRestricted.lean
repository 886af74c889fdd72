import WzGame.Database.BatchAtomic

/-!
This module contains when the batches of `DBUtil` restrict every `UPDATE` and `DELETE` to the row it is for.
-/

namespace WzGame

namespace Row

variable {ν : Type}

theorem value_of_mem {data : Row ν} {e : String × RowValue ν} (he : e ∈ data.entries) : data.value e.1 = e.2 := by
  rw [value, ColumnMap.get, (KeyedList.lookup_eq_some data.nodup).mpr he, Option.getD_some]

end Row

namespace DBUtil

variable {ν : Type}

/-- The statement goes on behind its head with a clause that asks every column of the primary key for the value
of its row. -/
def RestrictedBehind (head : String × List (RowValue ν)) (primarykey : List String) (statement : Statement ν)
    : Prop :=
  ∃ conditions : List (Condition (RowValue ν)),
    (∀ c ∈ conditions, c.Complete)
      ∧ statement.text = head.1 ++ clauseText conditions
      ∧ statement.params = head.2 ++ conditions.flatMap Condition.params
      ∧ ∀ key ∈ primarykey, .equals key (statement.data.value key) ∈ conditions

def Restricted (table : String) (primarykey : List String) (excludes : Option (List String))
    (statement : Statement ν) : Prop :=
  match statement.kind with
  | .insert => True
  | .update =>
    RestrictedBehind (getUpdateClause statement.data ("UPDATE `" ++ table ++ "` ") [] excludes) primarykey
      statement
  | .delete => RestrictedBehind ("DELETE FROM `" ++ table ++ "` ", []) primarykey statement

def Updatable (primarykey : List String) (data : Row ν) : Prop :=
  ∀ key ∈ primarykey, key ∈ data.keySet ∧ (data.value key).isCollection = false ∧ '`' ∉ key.toList

def Deletable (primarykey : List String) (excludes : Option (List String)) (data : Row ν) : Prop :=
  ∀ key ∈ primarykey, (excludes.any fun excludes => key ∈ excludes) = false
    ∧ (data.value key).isCollection = false ∧ '`' ∉ key.toList

def whereEntries (entries : List (String × RowValue ν)) : List (String × WhereValue (RowValue ν)) :=
  entries.map fun e => (e.1, e.2.toWhere)

theorem toWhere_of_not_collection {value : RowValue ν} (h : value.isCollection = false)
    : value.toWhere = .scalar value := by
  cases value with
  | null => rfl
  | scalar v => rfl
  | collection vs => contradiction

theorem not_collection_of_values {value : RowValue ν} (h : value.toWhere.values = [value])
    : value.isCollection = false := by
  cases value with
  | null => rfl
  | scalar v => rfl
  | collection vs =>
    have hvs : vs = [.collection vs] := h
    have hsize := congrArg sizeOf hvs
    simp at hsize
    omega

theorem map_eq_of_flatMap_eq {α β γ : Type} {xs : List α} {ys : List β} {f : α → List γ} {g : β → List γ}
    (hlengths : (xs.map fun x => (f x).length) = ys.map fun y => (g y).length)
    (hflat : xs.flatMap f = ys.flatMap g)
    : xs.map f = ys.map g := by
  induction xs generalizing ys with
  | nil =>
    cases ys with
    | nil => rfl
    | cons y ys => contradiction
  | cons x xs ih =>
    cases ys with
    | nil => contradiction
    | cons y ys =>
      obtain ⟨hlength, hlengths⟩ := List.cons.inj hlengths
      rw [List.flatMap_cons, List.flatMap_cons] at hflat
      obtain ⟨hhead, htail⟩ := List.append_inj hflat hlength
      rw [List.map_cons, List.map_cons, hhead, ih hlengths htail]

theorem exists_entry {entries : List (String × WhereValue ν)} {conditions : List (Condition ν)}
    (hcolumns : entries.map Prod.fst = conditions.map Condition.column)
    (hparams : (entries.map fun e => e.2.values) = conditions.map Condition.params) {c : Condition ν}
    (hc : c ∈ conditions)
    : ∃ e ∈ entries, e.1 = c.column ∧ e.2.values = c.params := by
  obtain ⟨idx, hidx, rfl⟩ := List.mem_iff_getElem.mp hc
  have hlength : entries.length = conditions.length := by
    rw [← List.length_map Prod.fst, hcolumns, List.length_map]
  have hidx' : idx < entries.length := by omega
  refine ⟨entries[idx], List.getElem_mem hidx', ?_, ?_⟩
  . rw [← List.getElem_map Prod.fst, List.getElem_of_eq hcolumns, List.getElem_map]
    simpa using hidx'
  . rw [← List.getElem_map fun e : String × WhereValue ν => e.2.values, List.getElem_of_eq hparams,
      List.getElem_map]
    simpa using hidx'

section Behind

variable {head : String × List (RowValue ν)} {primarykey : List String} {statement : Statement ν}
  {entries : List (String × RowValue ν)}
  (hvalue : ∀ e ∈ entries, e.2 = statement.data.value e.1) (hkeys : ∀ e ∈ entries, e.1 ∈ primarykey)
  (htext : statement.text = head.1 ++ joinConditions true ((whereEntries entries).map entryText))
  (hparams : statement.params = head.2 ++ (whereEntries entries).flatMap fun e => e.2.values)

include hvalue hkeys htext hparams in
theorem columns_of_restrictedBehind (h : RestrictedBehind head primarykey statement)
    : ∀ key ∈ primarykey, key ∈ entries.map Prod.fst ∧ (statement.data.value key).isCollection = false
        ∧ '`' ∉ key.toList := by
  obtain ⟨conditions, hcomplete, htext', hparams', hall⟩ := h
  have hname : ∀ key ∈ primarykey, '`' ∉ key.toList := fun key hkey => (hcomplete _ (hall key hkey)).2
  have hjoined : (joinConditions true ((whereEntries entries).map entryText)).toList
      = (joinConditions true (conditions.map Condition.text)).toList := by
    rw [htext, clauseText] at htext'
    have hchars := congrArg String.toList htext'
    rw [String.toList_append, String.toList_append] at hchars
    exact List.append_cancel_left hchars
  have hflat : ((whereEntries entries).flatMap fun e => e.2.values) = conditions.flatMap Condition.params := by
    rw [hparams] at hparams'
    exact List.append_cancel_left hparams'
  have hnames : ∀ e ∈ whereEntries entries, e.2.values ≠ [] → '`' ∉ e.1.toList := by
    intro e he _
    obtain ⟨e', he', rfl⟩ := List.mem_map.mp he
    exact hname e'.1 (hkeys e' he')
  obtain ⟨-, hcolumns, hlengths⟩ := joinConditions_inj hnames hcomplete hjoined
  have hvalues := map_eq_of_flatMap_eq hlengths hflat
  intro key hkey
  obtain ⟨e, he, hcolumn, hsame⟩ := exists_entry hcolumns hvalues (hall key hkey)
  obtain ⟨e', he', rfl⟩ := List.mem_map.mp he
  obtain rfl : e'.1 = key := hcolumn
  refine ⟨List.mem_map_of_mem he', ?_, hname e'.1 hkey⟩
  rw [← hvalue e' he'] at hsame ⊢
  exact not_collection_of_values hsame

include hvalue hkeys htext hparams in
theorem restrictedBehind_of_columns
    (h : ∀ key ∈ primarykey, key ∈ entries.map Prod.fst ∧ (statement.data.value key).isCollection = false
      ∧ '`' ∉ key.toList)
    : RestrictedBehind head primarykey statement := by
  have hscalar : ∀ e ∈ entries, e.2.toWhere = .scalar (statement.data.value e.1) := by
    intro e he
    rw [hvalue e he]
    exact toWhere_of_not_collection (h e.1 (hkeys e he)).2.1
  have hvalues : ∀ e ∈ whereEntries entries, e.2.values ≠ [] := by
    intro e he
    obtain ⟨e', he', rfl⟩ := List.mem_map.mp he
    rw [hscalar e' he']
    exact List.cons_ne_nil _ _
  have hnames : ∀ e ∈ whereEntries entries, '`' ∉ e.1.toList := by
    intro e he
    obtain ⟨e', he', rfl⟩ := List.mem_map.mp he
    exact (h e'.1 (hkeys e' he')).2.2
  obtain ⟨htexts, hflat⟩ := conditionsOf_eq hvalues
  refine ⟨conditionsOf (whereEntries entries), conditionsOf_complete hnames, ?_, ?_, ?_⟩
  . rw [htext, clauseText, htexts]
  . rw [hparams, hflat]
  . intro key hkey
    obtain ⟨e, he, rfl⟩ := List.mem_map.mp (h key hkey).1
    refine List.mem_filterMap.mpr ⟨(e.1, e.2.toWhere), List.mem_map_of_mem he, ?_⟩
    rw [hscalar e he]
    rfl

include hvalue hkeys htext hparams in
theorem restrictedBehind_iff
    : RestrictedBehind head primarykey statement
        ↔ ∀ key ∈ primarykey, key ∈ entries.map Prod.fst ∧ (statement.data.value key).isCollection = false
            ∧ '`' ∉ key.toList :=
  ⟨columns_of_restrictedBehind hvalue hkeys htext hparams, restrictedBehind_of_columns hvalue hkeys htext hparams⟩

end Behind

theorem update_restricted_iff (table : String) (primarykey : List String) (excludes : Option (List String))
    (data : Row ν)
    : Restricted table primarykey excludes (update table (some primarykey) data excludes)
        ↔ Updatable primarykey data := by
  have hselected : selected (some data.toWhere) (some primarykey)
      = whereEntries (data.entries.filter fun e => e.1 ∈ primarykey) := by
    rw [selected, Row.toWhere, ColumnMap.map, List.filter_map, whereEntries]
    congr 2
    funext e
    simp
  have hclause := @getWhereClause_eq _ (some primarykey) (some data.toWhere)
    (getUpdateClause data ("UPDATE `" ++ table ++ "` ") [] excludes).1
    (getUpdateClause data ("UPDATE `" ++ table ++ "` ") [] excludes).2
  rw [hselected] at hclause
  refine (@restrictedBehind_iff _ _ primarykey (update table (some primarykey) data excludes)
    (data.entries.filter fun e => e.1 ∈ primarykey) ?_ ?_ (congrArg Prod.fst hclause)
    (congrArg Prod.snd hclause)).trans ?_
  . intro e he
    exact (Row.value_of_mem (List.mem_filter.mp he).1).symm
  . intro e he
    simpa using (List.mem_filter.mp he).2
  . refine forall₂_congr fun key hkey => and_congr_left' ?_
    rw [ColumnMap.keySet, List.mem_map, List.mem_map]
    constructor
    . rintro ⟨e, he, rfl⟩
      exact ⟨e, (List.mem_filter.mp he).1, rfl⟩
    . rintro ⟨e, he, rfl⟩
      exact ⟨e, List.mem_filter.mpr ⟨he, by simpa using hkey⟩, rfl⟩

theorem mem_deleteWhere_loop {primarykey : List String} {excludes : Option (List String)} {data where' : Row ν}
    (hwhere : ∀ e ∈ where'.entries, e.2 = data.value e.1) (e : String × RowValue ν)
    : e ∈ (primarykey.foldl (fun where' key =>
          if excludes.any fun excludes => key ∈ excludes then where' else where'.put key (data.value key))
          where').entries
        ↔ e ∈ where'.entries ∨ e.1 ∈ primarykey ∧ (excludes.any fun excludes => e.1 ∈ excludes) = false
            ∧ e.2 = data.value e.1 := by
  induction primarykey generalizing where' with
  | nil => simp
  | cons key rest ih =>
    rw [List.foldl_cons, List.mem_cons]
    split
    . next hexcluded =>
      rw [ih hwhere]
      refine or_congr_right (and_congr_left fun ⟨hincluded, _⟩ => ?_)
      have hne : e.1 ≠ key := by
        rintro rfl
        rw [hexcluded] at hincluded
        contradiction
      simp [hne]
    . next hincluded =>
      have hput : ∀ e ∈ (where'.put key (data.value key)).entries, e.2 = data.value e.1 := by
        intro e he
        rcases KeyedList.mem_upsert.mp he with ⟨he, -⟩ | rfl
        . exact hwhere e he
        . rfl
      rw [ih hput, ColumnMap.put, KeyedList.mem_upsert]
      constructor
      . rintro ((⟨he, -⟩ | rfl) | ⟨hkey, hrest⟩)
        . exact .inl he
        . exact .inr ⟨.inl rfl, by simpa using hincluded, rfl⟩
        . exact .inr ⟨.inr hkey, hrest⟩
      . rintro (he | ⟨rfl | hkey, hrest⟩)
        . by_cases heq : e.1 = key
          . refine .inl (.inr (Prod.ext heq ?_))
            rw [hwhere e he, heq]
          . exact .inl (.inl ⟨he, heq⟩)
        . exact .inl (.inr (Prod.ext rfl hrest.2))
        . exact .inr ⟨hkey, hrest⟩

theorem mem_deleteWhere (primarykey : List String) (excludes : Option (List String)) (data : Row ν)
    (e : String × RowValue ν)
    : e ∈ (deleteWhere primarykey excludes data).entries
        ↔ e.1 ∈ primarykey ∧ (excludes.any fun excludes => e.1 ∈ excludes) = false ∧ e.2 = data.value e.1 := by
  rw [deleteWhere, mem_deleteWhere_loop (by simp [ColumnMap.empty])]
  simp [ColumnMap.empty]

theorem delete_restricted_iff (table : String) (primarykey : List String) (excludes : Option (List String))
    (data : Row ν)
    : Restricted table primarykey excludes (delete table primarykey excludes data)
        ↔ Deletable primarykey excludes data := by
  have hselected : selected (some (deleteWhere primarykey excludes data).toWhere) none
      = whereEntries (deleteWhere primarykey excludes data).entries := by
    simp [selected, Row.toWhere, ColumnMap.map, whereEntries]
  have hclause := @getWhereClause_eq _ none (some (deleteWhere primarykey excludes data).toWhere)
    ("DELETE FROM `" ++ table ++ "` ") []
  rw [hselected] at hclause
  refine (@restrictedBehind_iff _ ("DELETE FROM `" ++ table ++ "` ", []) primarykey
    (delete table primarykey excludes data) (deleteWhere primarykey excludes data).entries ?_ ?_
    (congrArg Prod.fst hclause) (congrArg Prod.snd hclause)).trans ?_
  . intro e he
    exact ((mem_deleteWhere primarykey excludes data e).mp he).2.2
  . intro e he
    exact ((mem_deleteWhere primarykey excludes data e).mp he).1
  . refine forall₂_congr fun key hkey => and_congr_left' ?_
    rw [List.mem_map]
    constructor
    . rintro ⟨e, he, rfl⟩
      exact ((mem_deleteWhere primarykey excludes data e).mp he).2.1
    . intro hexcluded
      exact ⟨(key, data.value key), (mem_deleteWhere primarykey excludes data _).mpr ⟨hkey, hexcluded, rfl⟩, rfl⟩

end DBUtil

namespace Batch

variable {ν : Type}

theorem statements_append (xs ys : List (Step ν)) : statements (xs ++ ys) = statements xs ++ statements ys :=
  List.filterMap_append

theorem mem_statements {steps : List (Step ν)} {statement : Statement ν} (h : statement ∈ (course steps).2)
    : statement ∈ statements steps := by
  rcases course_cases steps with hall | ⟨before, step, after, fault, rfl, hbefore, hstep⟩
  . rw [hall] at h
    exact h
  . rw [course_fault hbefore hstep] at h
    rw [statements_append]
    rcases List.mem_append.mp h with h | h
    . exact List.mem_append_left _ h
    . refine List.mem_append_right _ (List.mem_filterMap.mpr ⟨step, List.mem_cons_self, ?_⟩)
      cases hexecuted : fault.executed with
      | false => simp [hexecuted] at h
      | true => simpa [hexecuted] using h

theorem course_of_no_fault {steps : List (Step ν)} (h : ∀ step ∈ steps, step.fault = none)
    : (course steps).2 = statements steps := by
  rcases course_cases steps with hall | ⟨before, step, after, fault, rfl, -, hstep⟩
  . rw [hall]
  . rw [h step (by simp)] at hstep
    contradiction

theorem checkRows_map_some (datalist : List (Row ν)) : checkRows (some (datalist.map some)) = .ok datalist := by
  have hrows : (datalist.map some).mapM id = some datalist := by
    induction datalist with
    | nil => rfl
    | cons data datalist ih => simp [ih]
  simp only [checkRows, hrows]

section Steps

variable {env : Environment ν} {table : String} {statement : Statement ν}

theorem statements_transactionSteps (body : List (Step ν))
    : statements (transactionSteps env body) = statements body := by
  simp [transactionSteps, statements]

theorem mem_deleteSteps {primarykey : List String} {excludes : Option (List String)} {idx : Nat}
    {deletelist : List (Row ν)}
    : statement ∈ statements (deleteSteps env table primarykey excludes idx (deletelist.map some))
        ↔ ∃ data ∈ deletelist, data.size ≠ 0 ∧ DBUtil.delete table primarykey excludes data = statement := by
  induction deletelist generalizing idx with
  | nil => simp [deleteSteps, statements]
  | cons data rest ih =>
    rw [List.map_cons, deleteSteps, List.exists_mem_cons_iff, ← @ih (idx + 1)]
    split
    . next hsize => simp [statements, hsize, eq_comm]
    . next hsize => simp [hsize]

theorem mem_saveSteps {primarykey excludes : Option (List String)} {idx : Nat} {datalist : List (Row ν)}
    (h : statement ∈ statements (saveSteps env table primarykey excludes idx datalist))
    : ∃ data ∈ datalist, ∃ idx, saveStatement env table primarykey excludes idx data = some statement := by
  induction datalist generalizing idx with
  | nil => simp [saveSteps, statements] at h
  | cons data rest ih =>
    rw [saveSteps, statements_append] at h
    rcases List.mem_append.mp h with h | h
    . refine ⟨data, List.mem_cons_self, idx, ?_⟩
      cases hsave : saveStatement env table primarykey excludes idx data with
      | none => simp [statements, hsave] at h
      | some statement' =>
        simp [statements, hsave] at h
        rw [h]
    . obtain ⟨data', hdata', hsave⟩ := ih h
      exact ⟨data', List.mem_cons_of_mem data hdata', hsave⟩

theorem update_mem_saveSteps {primarykey excludes : Option (List String)} {idx : Nat} {datalist : List (Row ν)}
    {data : Row ν} (h : data ∈ datalist)
    : DBUtil.update table primarykey data excludes
        ∈ statements (saveSteps quiet table primarykey excludes idx datalist) := by
  induction datalist generalizing idx with
  | nil => contradiction
  | cons data' rest ih =>
    rw [saveSteps, statements_append]
    rcases List.mem_cons.mp h with rfl | h
    . refine List.mem_append_left _ ?_
      simp [statements, saveStatement, quiet]
    . exact List.mem_append_right _ (ih h)

theorem deleteSteps_quiet {primarykey : List String} {excludes : Option (List String)} {idx : Nat}
    {deletelist : List (Row ν)}
    : ∀ step ∈ deleteSteps quiet table primarykey excludes idx (deletelist.map some), step.fault = none := by
  induction deletelist generalizing idx with
  | nil => simp [deleteSteps]
  | cons data rest ih =>
    rw [List.map_cons, deleteSteps]
    split
    . exact List.forall_mem_cons.mpr ⟨rfl, ih⟩
    . exact ih

theorem deletePartSteps_quiet {primarykey : List String} {excludes : Option (List String)}
    {deletelist : List (Row ν)}
    : ∀ step ∈ deletePartSteps quiet table (some primarykey) excludes (some (deletelist.map some)),
        step.fault = none := by
  rw [deletePartSteps]
  split
  . exact deleteSteps_quiet
  . exact List.forall_mem_nil _

theorem saveSteps_quiet {primarykey excludes : Option (List String)} {idx : Nat} {datalist : List (Row ν)}
    : ∀ step ∈ saveSteps quiet table primarykey excludes idx datalist, step.fault = none := by
  induction datalist generalizing idx with
  | nil => simp [saveSteps]
  | cons data rest ih =>
    rw [saveSteps]
    refine List.forall_mem_append.mpr ⟨List.forall_mem_cons.mpr ⟨rfl, ?_⟩, ih⟩
    intro step hstep
    obtain ⟨statement, -, rfl⟩ := List.mem_map.mp hstep
    rfl

theorem transactionSteps_quiet {body : List (Step ν)} (h : ∀ step ∈ body, step.fault = none)
    : ∀ step ∈ transactionSteps quiet body, step.fault = none := by
  refine List.forall_mem_cons.mpr ⟨rfl, List.forall_mem_cons.mpr ⟨rfl, ?_⟩⟩
  exact List.forall_mem_append.mpr ⟨h, List.forall_mem_singleton.mpr rfl⟩

theorem deletes_restricted_iff (env : Environment ν) (table : String) (primarykey : List String)
    (excludes : Option (List String)) (deletelist : List (Row ν))
    : (∀ statement ∈ statements
          (deletePartSteps env table (some primarykey) excludes (some (deletelist.map some))),
        DBUtil.Restricted table primarykey excludes statement)
        ↔ ∀ data ∈ deletelist, data.size ≠ 0 → DBUtil.Deletable primarykey excludes data := by
  rw [deletePartSteps]
  split
  . constructor
    . intro h data hdata hsize
      rw [← DBUtil.delete_restricted_iff table primarykey excludes data]
      exact h _ (mem_deleteSteps.mpr ⟨data, hdata, hsize, rfl⟩)
    . intro h statement hstatement
      obtain ⟨data, hdata, hsize, rfl⟩ := mem_deleteSteps.mp hstatement
      exact (DBUtil.delete_restricted_iff table primarykey excludes data).mpr (h data hdata hsize)
  . next hlength =>
    -- without a primary key there is nothing to ask for
    have hnil : primarykey = [] := List.length_eq_zero_iff.mp (by omega)
    simp [statements, DBUtil.Deletable, hnil]

theorem saves_restricted (env : Environment ν) {table : String} {primarykey : List String}
    {excludes : Option (List String)} {datalist : List (Row ν)}
    (h : ∀ data ∈ datalist, DBUtil.Updatable primarykey data)
    : ∀ statement ∈ statements (saveSteps env table (some primarykey) excludes 0 datalist),
        DBUtil.Restricted table primarykey excludes statement := by
  intro statement hstatement
  obtain ⟨data, hdata, idx, hsave⟩ := mem_saveSteps hstatement
  rw [saveStatement] at hsave
  split at hsave
  . obtain rfl := Option.some.inj hsave
    exact (DBUtil.update_restricted_iff table primarykey excludes data).mpr (h data hdata)
  . rw [DBUtil.insertInto] at hsave
    simp only [] at hsave
    split at hsave
    . contradiction
    . obtain rfl := Option.some.inj hsave
      trivial

theorem updatable_of_saves {table : String} {primarykey : List String} {excludes : Option (List String)}
    {datalist : List (Row ν)}
    (h : ∀ statement ∈ statements (saveSteps quiet table (some primarykey) excludes 0 datalist),
      DBUtil.Restricted table primarykey excludes statement)
    : ∀ data ∈ datalist, DBUtil.Updatable primarykey data := by
  intro data hdata
  rw [← DBUtil.update_restricted_iff table primarykey excludes data]
  exact h _ (update_mem_saveSteps hdata)

theorem forall_executed_iff {body : Environment ν → List (Step ν)} {good : Statement ν → Prop} {condition : Prop}
    (hquiet : ∀ step ∈ body quiet, step.fault = none)
    (hsound : condition → ∀ env, ∀ statement ∈ statements (body env), good statement)
    (hexact : (∀ statement ∈ statements (body quiet), good statement) → condition)
    : (∀ env, ∀ statement ∈ (closed (transactionSteps env (body env))).2.executed, good statement)
        ↔ condition := by
  constructor
  . intro h
    apply hexact
    intro statement hstatement
    apply h quiet statement
    rw [closed, course_of_no_fault (transactionSteps_quiet hquiet), statements_transactionSteps]
    exact hstatement
  . intro hcondition env statement hstatement
    apply hsound hcondition env statement
    rw [← statements_transactionSteps (body env)]
    exact mem_statements hstatement

end Steps

/-- Every `UPDATE` and every `DELETE` that a batch executes is restricted to its row exactly if no row to be saved
lacks a column of the primary key, and none is excluded when there are rows to be deleted. -/
theorem restricted_iff (table : String) (primarykey : List String) (excludes : Option (List String))
    (datalist deletelist : List (Row ν))
    : ((∀ (env : Environment ν), ∀ statement ∈
            (batchInsertOrUpdate env table (some primarykey) (some (datalist.map some)) excludes).2.executed,
          DBUtil.Restricted table primarykey excludes statement)
        ↔ ∀ data ∈ datalist, DBUtil.Updatable primarykey data)
      ∧ ((∀ (env : Environment ν), ∀ statement ∈
            (batchDelete env table (some primarykey) excludes (some (deletelist.map some))).2.executed,
          DBUtil.Restricted table primarykey excludes statement)
        ↔ ∀ data ∈ deletelist, data.size ≠ 0 → DBUtil.Deletable primarykey excludes data)
      ∧ ((∀ (env : Environment ν), ∀ statement ∈
            (batchDeleteAndSave env table (some primarykey) (some (datalist.map some)) excludes
              (some (deletelist.map some))).2.executed,
          DBUtil.Restricted table primarykey excludes statement)
        ↔ (∀ data ∈ deletelist, data.size ≠ 0 → DBUtil.Deletable primarykey excludes data)
          ∧ ∀ data ∈ datalist, DBUtil.Updatable primarykey data) := by
  simp only [batchInsertOrUpdate_eq, batchDelete_eq, batchDeleteAndSave_eq, batchInsertOrUpdateSteps,
    batchDeleteSteps, batchDeleteAndSaveSteps, checkRows_map_some]
  refine ⟨?_, ?_, ?_⟩
  . split
    . next hlength =>
      rw [List.length_eq_zero_iff.mp hlength]
      simp [closed, course]
    . exact forall_executed_iff saveSteps_quiet (fun h env => saves_restricted env h) updatable_of_saves
  . exact forall_executed_iff deletePartSteps_quiet
      (fun h env => (deletes_restricted_iff env table primarykey excludes deletelist).mpr h)
      (deletes_restricted_iff quiet table primarykey excludes deletelist).mp
  . refine @forall_executed_iff ν
      (fun env => deletePartSteps env table (some primarykey) excludes (some (deletelist.map some))
        ++ saveSteps env table (some primarykey) excludes 0 datalist) _ _ ?_ ?_ ?_
    . exact List.forall_mem_append.mpr ⟨deletePartSteps_quiet, saveSteps_quiet⟩
    . intro h env
      rw [statements_append]
      exact List.forall_mem_append.mpr
        ⟨(deletes_restricted_iff env table primarykey excludes deletelist).mpr h.1, saves_restricted env h.2⟩
    . intro h
      rw [statements_append] at h
      obtain ⟨hdelete, hsave⟩ := List.forall_mem_append.mp h
      exact ⟨(deletes_restricted_iff quiet table primarykey excludes deletelist).mp hdelete,
        updatable_of_saves hsave⟩

theorem restricted_counterexample
    : ¬ ∀ (env : Environment Nat) (table : String) (primarykey : List String) (datalist : List (Row Nat)),
        primarykey ≠ [] → ∀ statement ∈
          (batchInsertOrUpdate env table (some primarykey) (some (datalist.map some)) none).2.executed,
          DBUtil.Restricted table primarykey none statement := by
  intro hevery
  obtain ⟨conditions, -, -, hparams, hall⟩ := hevery quiet "items" ["id"] [ColumnMap.empty.put "level" (.scalar 7)]
    (List.cons_ne_nil _ _) _ List.mem_cons_self
  have hkey : RowValue.null ∈ conditions.flatMap Condition.params :=
    List.mem_flatMap.mpr ⟨_, hall "id" List.mem_cons_self, List.mem_cons_self⟩
  have hlevel : [RowValue.scalar 7] = [RowValue.scalar 7] ++ conditions.flatMap Condition.params := hparams
  rw [List.self_eq_append_right.mp hlevel] at hkey
  contradiction

end Batch

end WzGame
