import WzGame.Db.DataManager

/-!
This module contains what the steps of a `DataManager` do to the data of the characters.
-/

namespace WzGame

open DbRecord

namespace CharData

theorem mem_entries {action : DBAction} : action ∈ entries ↔ tables action ≠ none := by
  cases action <;> simp [entries, tables]

variable [DataUtil] {charData : CharData} {action : DBAction}

theorem modules_eq_some {table : String} {keys : List String}
    (h : tables action = some (table, keys))
    : charData.modules action = some { CommonModule.new charData.charId table "player_id" keys false
        with records := charData.records action } := by
  simp [modules, h]

theorem exists_tables {mod : CommonModule} (h : charData.modules action = some mod)
    : ∃ table keys, tables action = some (table, keys)
        ∧ mod = { CommonModule.new charData.charId table "player_id" keys false with
          records := charData.records action } := by
  obtain ⟨⟨table, keys⟩, htables, rfl⟩ := Option.map_eq_some_iff.mp h
  exact ⟨table, keys, htables, rfl⟩

theorem getModuleData_eq (haction : action ∈ entries)
    : charData.getModuleData action = some (view (charData.records action)) := by
  obtain ⟨⟨table, keys⟩, htables⟩ := Option.ne_none_iff_exists'.mp (mem_entries.mp haction)
  simp [getModuleData, modules_eq_some htables, CommonModule.getData]

@[simp]
theorem charId_setRecords (records : List DbRecord)
    : (charData.setRecords action records).charId = charData.charId := rfl

theorem records_setRecords (records : List DbRecord) (action' : DBAction)
    : (charData.setRecords action records).records action'
        = if action' = action then records else charData.records action' := by
  simp [setRecords, Function.update_apply]

theorem setRecords_self : charData.setRecords action (charData.records action) = charData := by
  simp [setRecords]

theorem updateModuleData_eq {table : String} {keys : List String}
    (h : tables action = some (table, keys)) (data : ModuleData)
    : charData.updateModuleData action (some data)
        = match update (charData.records action) (data (toString charData.charId)) keys false with
          | .ok records => (charData.setRecords action records, false)
          | .error records => (charData.setRecords action records, true) := by
  unfold updateModuleData
  simp only [modules_eq_some h, CommonModule.update, CommonModule.new]
  split <;> simp_all

theorem updateModuleData_self {data : Option ModuleData}
    (h : tables action = none ∨ data = none
      ∨ ∃ data', data = some data' ∧ data' (toString charData.charId) = none)
    : charData.updateModuleData action data = (charData, false) := by
  cases htables : tables action with
  | none => simp [updateModuleData, modules, htables]
  | some entry =>
    rcases h with h | rfl | ⟨data, rfl, hnone⟩
    . simp [h] at htables
    . simp [updateModuleData, modules_eq_some htables]
    . rw [updateModuleData_eq htables, hnone]
      simp [update, setRecords_self]

end CharData

namespace Shared

variable [DataUtil] {s s' : Shared}

omit [DataUtil] in
theorem suppliedRows_eq_none {charId : Int} {action : DBAction} {data : Option ModuleData}
    (h : suppliedRows charId action data = none)
    : CharData.tables action = none ∨ data = none
        ∨ ∃ data', data = some data' ∧ data' (toString charId) = none := by
  cases htables : CharData.tables action with
  | none => exact .inl rfl
  | some _ =>
    cases data with
    | none => exact .inr (.inl rfl)
    | some data =>
      have hnone : data (toString charId) = none := by
        simpa only [suppliedRows, htables, Option.bind_eq_bind, Option.bind_some] using h
      exact .inr (.inr ⟨data, rfl, hnone⟩)

omit [DataUtil] in
theorem suppliedRows_eq_some {charId : Int} {action : DBAction} {data : Option ModuleData}
    {rows : List MapObject} {table : String} {keys : List String}
    (htables : CharData.tables action = some (table, keys))
    (h : suppliedRows charId action data = some rows)
    : ∃ data', data = some data' ∧ data' (toString charId) = some rows := by
  unfold suppliedRows at h
  rw [htables] at h
  exact Option.bind_eq_some_iff.mp h

def updated (s : Shared) (d : Nat) (action : DBAction) (rows : List MapObject)
    (records : List DbRecord) (check : Check) : Shared :=
  { s with
    objs := Function.update s.objs d ((s.objs d).setRecords action records)
    saves := { s.saves with
      check := check
      updates := s.saves.updates ++ [⟨d, action, false⟩] }
    wanted := Function.update s.wanted (s.objs d).charId
      (Function.update (s.wanted (s.objs d).charId) action rows) }

theorem updateModuleData_cases (h : s.updateModuleData = some s')
    : ∃ p d action data, s.saves.check = .queried p d action data
        ∧ s.saves.moduleLocked d action = false
        ∧ (suppliedRows (s.objs d).charId action data = none
            ∧ s' = { s with saves.check := .updated p d }
          ∨ ∃ table keys rows, CharData.tables action = some (table, keys)
            ∧ suppliedRows (s.objs d).charId action data = some rows
            ∧ ((∃ records, update ((s.objs d).records action) (some rows) keys false = .ok records
                ∧ s' = s.updated d action rows records (.updated p d))
              ∨ ∃ records, update ((s.objs d).records action) (some rows) keys false = .error records
                ∧ s' = s.updated d action rows records .idle)) := by
  unfold updateModuleData at h
  split at h
  case h_2 => contradiction
  next p d action data hcheck =>
  split at h
  case isTrue => contradiction
  next hunlocked =>
  refine ⟨p, d, action, data, hcheck, by simpa using hunlocked, ?_⟩
  cases hrows : suppliedRows (s.objs d).charId action data with
  | none =>
    have hself := CharData.updateModuleData_self (suppliedRows_eq_none hrows)
    simp only [hself, hrows, Function.update_eq_self] at h
    exact .inl ⟨rfl, (Option.some.inj h).symm⟩
  | some rows =>
    obtain ⟨⟨table, keys⟩, htables, -⟩ := Option.bind_eq_some_iff.mp hrows
    obtain ⟨data, rfl, hdata⟩ := suppliedRows_eq_some htables hrows
    refine .inr ⟨table, keys, rows, htables, rfl, ?_⟩
    rw [CharData.updateModuleData_eq htables, hdata] at h
    cases hupdate : update ((s.objs d).records action) (some rows) keys false with
    | ok records =>
      simp only [hupdate, CharData.charId_setRecords, hrows] at h
      exact .inl ⟨records, rfl, (Option.some.inj h).symm⟩
    | error records =>
      simp only [hupdate, CharData.charId_setRecords, hrows] at h
      exact .inr ⟨records, rfl, (Option.some.inj h).symm⟩

variable [SqlServer]

theorem saveUpdates_cases {i : Nat} {succeeds : Bool} (h : s.saveUpdates i succeeds = some s')
    : ∃ d action todo failed table keys,
        s.saves.tasks[i]? = some ⟨d, action :: todo, false, failed⟩
        ∧ CharData.tables action = some (table, keys)
        ∧ s.mayRun i ⟨d, action :: todo, false, failed⟩ = true
        ∧ (DbRecord.saveUpdates ((s.objs d).records action) table keys succeeds s.db = none
            ∧ s' = { s with saves := s.saves.setTask i ⟨d, todo, false, true⟩ }
          ∨ ∃ db, DbRecord.saveUpdates ((s.objs d).records action) table keys succeeds s.db = some db
            ∧ s' = { s with saves := s.saves.setTask i ⟨d, action :: todo, true, failed⟩, db := db }) := by
  obtain ⟨task, htask, h⟩ := Option.bind_eq_some_iff.mp h
  split at h
  case h_2 => contradiction
  next d action todo failed =>
  obtain ⟨mod, hmod, h⟩ := Option.bind_eq_some_iff.mp h
  obtain ⟨table, keys, htables, rfl⟩ := CharData.exists_tables hmod
  split at h
  case isFalse => contradiction
  next hmay =>
  refine ⟨d, action, todo, failed, table, keys, htask, htables, hmay, ?_⟩
  split at h
  . next hfails => exact .inl ⟨hfails, (Option.some.inj h).symm⟩
  . next db hdb => exact .inr ⟨db, hdb, (Option.some.inj h).symm⟩

theorem saveDeletes_cases {i : Nat} {succeeds : Bool} (h : s.saveDeletes i succeeds = some s')
    : ∃ d action todo failed table keys,
        s.saves.tasks[i]? = some ⟨d, action :: todo, true, failed⟩
        ∧ CharData.tables action = some (table, keys)
        ∧ (DbRecord.saveDeletes ((s.objs d).records action) table keys succeeds s.db = none
            ∧ s' = { s with saves := s.saves.setTask i ⟨d, todo, false, true⟩ }
          ∨ ∃ db, DbRecord.saveDeletes ((s.objs d).records action) table keys succeeds s.db
              = some (db, saved ((s.objs d).records action))
            ∧ s' = { s with
                saves := (s.saves.setTask i ⟨d, todo, false, failed⟩).markWritten d action
                objs := Function.update s.objs d
                  ((s.objs d).setRecords action (saved ((s.objs d).records action)))
                db := db }) := by
  obtain ⟨task, htask, h⟩ := Option.bind_eq_some_iff.mp h
  split at h
  case h_2 => contradiction
  next d action todo failed =>
  obtain ⟨mod, hmod, h⟩ := Option.bind_eq_some_iff.mp h
  obtain ⟨table, keys, htables, rfl⟩ := CharData.exists_tables hmod
  refine ⟨d, action, todo, failed, table, keys, htask, htables, ?_⟩
  split at h
  . next hfails => exact .inl ⟨hfails, (Option.some.inj h).symm⟩
  . next db records hdb =>
    have hdb : DbRecord.saveDeletes ((s.objs d).records action) table keys succeeds s.db
        = some (db, records) := hdb
    obtain rfl : records = saved ((s.objs d).records action) := by
      unfold DbRecord.saveDeletes at hdb
      split at hdb
      . exact (Prod.mk.inj (Option.some.inj hdb)).2.symm
      . obtain ⟨db', -, hdb⟩ := Option.map_eq_some_iff.mp hdb
        exact (Prod.mk.inj hdb).2.symm
    exact .inr ⟨db, hdb, (Option.some.inj h).symm⟩

end Shared

end WzGame
