import WzGame.Db.DataManagerLoadRuns
import WzGame.Db.DataManagerSaves
import WzGame.Db.Cache.DbCacheContents

/-!
This module contains that an update which `saveModule` has made waits for a save until it is written,
unless its player is evicted in between.
-/

namespace WzGame

open Runs

namespace DbRecord

variable [DataUtil] [SqlServer] (records : List DbRecord) (table : String) (keys : List String)
  (db : Database)

theorem saveUpdates_ne_none : saveUpdates records table keys true db ≠ none := by
  unfold saveUpdates DBUtil.batchInsertOrUpdate
  split
  . simp
  . simp

theorem saveDeletes_ne_none : saveDeletes records table keys true db ≠ none := by
  unfold saveDeletes DBUtil.batchDelete
  split
  . simp
  . rw [if_pos rfl]
    split <;> simp

end DbRecord

namespace DataManager

section property

variable [DataUtil]

-- Where the `n`-th update is. The last place is a `saveModule` call that has not returned yet.
def Scheduled (s : DataManager (DbCache Nat) (MulSearch Nat)) (n : Nat) (u : Update) : Prop :=
  u.written = true ∨ s.dataCache.HoldsDirty u.charData
    ∨ (∃ task ∈ s.shared.saves.tasks, task.charData = u.charData)
    ∨ n + 1 = s.shared.saves.updates.length ∧ ∃ p, s.shared.saves.check = .updated p u.charData

def UpdatesKept (s : DataManager (DbCache Nat) (MulSearch Nat)) : Prop :=
  ∀ n u, s.shared.saves.updates[n]? = some u → s.Scheduled n u

def SqlSucceeds : Action → Prop
  | .loadModule _ outcome => outcome = .success
  | .saveUpdates _ succeeds | .saveDeletes _ succeeds => succeeds = true
  | _ => True

/--
The condition of a step: a new load does not evict the player of the `saveModule` call under way,
whose update throws no exception.
-/
def SparesSaved (s : DataManager (DbCache Nat) (MulSearch Nat)) : Action → Prop
  | .loadChar charId _ => ¬ s.Joins charId → ∀ p d, s.shared.saves.check.saving = some (p, d)
    → ¬ s.dataCache.Evicts charId p
  | .updateModuleData => ∀ p d action data, s.shared.saves.check = .queried p d action data
    → ((s.shared.objs d).updateModuleData action data).2 = false
  | _ => True

end property

section step

variable [DataUtil] [SqlServer] {maxSize maxClean : Int} {t t' : Spec} {a : Action}

theorem Step.updates_cases (hstep : Step maxSize maxClean t a t')
    : t'.shared.saves.updates = t.shared.saves.updates
        ∨ (∃ d action, Written t t' d action)
        ∨ a = .updateModuleData ∧ ∃ p d action data,
          t.shared.saves.check = .queried p d action data ∧ action ∈ CharData.entries
          ∧ t'.shared.saves.updates = t.shared.saves.updates ++ [⟨d, action, false⟩]
          ∧ (((t.shared.objs d).updateModuleData action data).2 = false
            → t'.shared.saves.check = .updated p d) := by
  cases hstep with
  | loadModule hload =>
    obtain ⟨task, action, todo, mod, -, -, -, ⟨-, rfl⟩ | ⟨mod', -, rfl⟩⟩ :=
      Shared.loadModule_cases hload
    . exact .inl rfl
    . exact .inl rfl
  | updateModuleData hupdate =>
    obtain ⟨p, d, action, data, hcheck, -, ⟨-, rfl⟩ | ⟨table, keys, rows, htables, hrows,
      ⟨records, -, rfl⟩ | ⟨records, herror, rfl⟩⟩⟩ := Shared.updateModuleData_cases hupdate
    . exact .inl rfl
    . have haction : action ∈ CharData.entries := CharData.mem_entries.mpr (by simp [htables])
      exact .inr (.inr ⟨rfl, p, d, action, data, hcheck, haction, rfl, fun _ => rfl⟩)
    . have haction : action ∈ CharData.entries := CharData.mem_entries.mpr (by simp [htables])
      refine .inr (.inr ⟨rfl, p, d, action, data, hcheck, haction, rfl, ?_⟩)
      intro hthrew
      obtain ⟨data, rfl, hdata⟩ := Shared.suppliedRows_eq_some htables hrows
      rw [CharData.updateModuleData_eq htables, hdata, herror] at hthrew
      contradiction
  | tick htick =>
    unfold Saves.tick at htick
    split at htick
    . obtain rfl := Option.some.inj htick
      exact .inl rfl
    . contradiction
  | saveUpdates hsave =>
    obtain ⟨d, action, todo, failed, table, keys, -, -, -, ⟨-, rfl⟩ | ⟨db, -, rfl⟩⟩ :=
      Shared.saveUpdates_cases hsave
    . exact .inl rfl
    . exact .inl rfl
  | saveDeletes hsave =>
    obtain ⟨d, action, todo, failed, table, keys, -, -, ⟨-, rfl⟩ | ⟨db, -, rfl⟩⟩ :=
      Shared.saveDeletes_cases hsave
    . exact .inl rfl
    . exact .inr (.inl ⟨d, action, by simp [CharData.records_setRecords], rfl⟩)
  | endSave hfinish =>
    unfold Saves.finish at hfinish
    split at hfinish
    . obtain rfl := Option.some.inj hfinish
      exact .inl rfl
    . contradiction
  | _ => exact .inl rfl

theorem Step.succeeded (hstep : Step maxSize maxClean t a t') (hsql : SqlSucceeds a)
    (h : ∀ task ∈ t.shared.saves.tasks, task.failed = false)
    : ∀ task ∈ t'.shared.saves.tasks, task.failed = false := by
  have hset : ∀ {i : Nat} {task₀ task₁ : SaveTask}, t.shared.saves.tasks[i]? = some task₀
      → task₁.failed = task₀.failed → ∀ task ∈ t.shared.saves.tasks.set i task₁, task.failed = false := by
    intro i task₀ task₁ htask₀ hsame task htask
    rcases List.mem_or_eq_of_mem_set htask with htask | rfl
    . exact h task htask
    . rw [hsame]
      exact h task₀ (List.mem_of_getElem? htask₀)
  cases hstep with
  | loadModule hload =>
    obtain ⟨task, action, todo, mod, -, -, -, ⟨-, rfl⟩ | ⟨mod', -, rfl⟩⟩ :=
      Shared.loadModule_cases hload
    . exact h
    . exact h
  | updateModuleData hupdate =>
    obtain ⟨p, d, action, data, -, -, ⟨-, rfl⟩ | ⟨table, keys, rows, -, -,
      ⟨records, -, rfl⟩ | ⟨records, -, rfl⟩⟩⟩ := Shared.updateModuleData_cases hupdate
    . exact h
    . exact h
    . exact h
  | tick htick =>
    unfold Saves.tick at htick
    split at htick
    . obtain rfl := Option.some.inj htick
      exact h
    . contradiction
  | saveNext _ _ =>
    intro task htask
    rcases List.mem_append.mp htask with htask | htask
    . exact h task htask
    . obtain rfl := List.mem_singleton.mp htask
      rfl
  | saveUpdates hsave =>
    obtain ⟨d, action, todo, failed, table, keys, htask, -, -, ⟨hnone, rfl⟩ | ⟨db, -, rfl⟩⟩ :=
      Shared.saveUpdates_cases hsave
    . obtain rfl := hsql
      exact absurd hnone (DbRecord.saveUpdates_ne_none _ _ _ _)
    . exact hset htask rfl
  | saveDeletes hsave =>
    obtain ⟨d, action, todo, failed, table, keys, htask, -, ⟨hnone, rfl⟩ | ⟨db, -, rfl⟩⟩ :=
      Shared.saveDeletes_cases hsave
    . obtain rfl := hsql
      exact absurd hnone (DbRecord.saveDeletes_ne_none _ _ _ _)
    . exact hset htask rfl
  | endSave hfinish =>
    unfold Saves.finish at hfinish
    split at hfinish
    . obtain rfl := Option.some.inj hfinish
      exact fun task htask => h task (List.mem_of_mem_eraseIdx htask)
    . contradiction
  | _ => exact h

theorem Step.check_updated (hstep : Step maxSize maxClean t a t') {p : Int} {d : Nat}
    (h : t.shared.saves.check = .updated p d)
    : t'.shared.saves.check = .updated p d ∨ a = .setDirty := by
  rcases hstep.check_cases with hcheck | ⟨_, _, _, _, hidle, -⟩ | ⟨_, _, _, _, -, hcheck, -⟩
    | ⟨_, _, rfl, -⟩ | ⟨hcheck, -⟩
  . exact .inl (hcheck.trans h)
  . rw [h] at hidle
    contradiction
  . rw [h] at hcheck
    contradiction
  . exact .inr rfl
  . rw [h] at hcheck
    contradiction

structure UpdatesInv (t : Spec) : Prop where
  saving : ∀ k d, t.shared.saves.check.saving = some (k, d) → t.dataCache.data k = some d
  succeeded : ∀ task ∈ t.shared.saves.tasks, task.failed = false
  updates : ∀ n u, t.shared.saves.updates[n]? = some u → u.action ∈ CharData.entries
    ∧ (u.written = true ∨ Kept t u.charData u.action
      ∨ n + 1 = t.shared.saves.updates.length ∧ ∃ p, t.shared.saves.check = .updated p u.charData)

theorem updatesInv_initial {db : Database} : UpdatesInv (.initial db) := by
  constructor
  case saving =>
    intro k d h
    contradiction
  case succeeded =>
    intro task h
    contradiction
  case updates =>
    intro n u h
    contradiction

def SparesUpdates (maxSize maxClean : Int) (t : Spec) : Action → Prop
  | .loadChar charId _ => t.queryCache.queue charId = []
    → ∀ p d, t.shared.saves.check.saving = some (p, d)
      → ¬ t.dataCache.Evicts maxSize maxClean charId p
  | .updateModuleData => ∀ p d action data, t.shared.saves.check = .queried p d action data
    → ((t.shared.objs d).updateModuleData action data).2 = false
  | _ => True

theorem Step.updatesInv (hstep : Step maxSize maxClean t a t') (V : UpdatesInv t)
    (hsql : SqlSucceeds a) (hspares : SparesUpdates maxSize maxClean t a)
    : UpdatesInv t' := by
  constructor
  case saving =>
    intro k d h
    have hdata : t.dataCache.data k = some d := by
      rcases hstep.saving_new h with h | h
      . exact V.saving k d h
      . exact h
    rcases hstep.data_kept hdata with h' | ⟨charId, callBack, rfl, hqueue, hevicts⟩
    . exact h'
    . have h : t.shared.saves.check.saving = some (k, d) := by
        cases hstep <;> exact h
      exact absurd hevicts (hspares hqueue k d h)
  case succeeded => exact hstep.succeeded hsql V.succeeded
  case updates =>
    intro n u' hu'
    have hwritten : ∀ {u d action}, t.shared.saves.updates[n]? = some u → Written t t' d action
        → u'.charData = u.charData ∧ u'.action = u.action ∧ (u.written = true → u'.written = true)
          ∧ (u.charData = d → u.action = action → u'.written = true) := by
      intro u d action hu hw
      rw [hw.2] at hu'
      simp only [Saves.markWritten, List.getElem?_map, hu, Option.map_some, Option.some.injEq] at hu'
      split at hu'
      . subst hu'
        simp
      . next hother =>
        subst hu'
        exact ⟨rfl, rfl, id, fun hd ha => absurd ⟨hd, ha⟩ hother⟩
    -- where the updates are that there were before
    have hold : ∀ {u}, t.shared.saves.updates[n]? = some u → u.written = true
        ∨ Kept t' u.charData u.action ∨ Written t t' u.charData u.action
        ∨ n + 1 = t.shared.saves.updates.length
          ∧ ∃ p, t.shared.saves.check = .updated p u.charData
            ∧ t'.shared.saves.check = .updated p u.charData := by
      intro u hu
      obtain ⟨haction, h | h | ⟨hlast, p, hcheck⟩⟩ := V.updates n u hu
      . exact .inl h
      . rcases hstep.kept haction h with h | h | ⟨i, task, -, htask, -, hfailed⟩
        . exact .inr (.inl h)
        . exact .inr (.inr (.inl h))
        . rw [V.succeeded task (List.mem_of_getElem? htask)] at hfailed
          contradiction
      . rcases hstep.check_updated hcheck with hcheck' | rfl
        . exact .inr (.inr (.inr ⟨hlast, p, hcheck, hcheck'⟩))
        . have hdata : t.dataCache.data p = some u.charData := V.saving _ _ (by rw [hcheck]; rfl)
          exact .inr (.inl (hstep.setDirty_kept hcheck hdata))
    rcases hstep.updates_cases with hsame | ⟨d, action, hw⟩
      | ⟨rfl, p, d, action, data, hcheck, haction, hupdates, hnext⟩
    . have hu : t.shared.saves.updates[n]? = some u' := hsame ▸ hu'
      refine ⟨(V.updates n u' hu).1, ?_⟩
      rcases hold hu with h | h | h | ⟨hlast, p, -, hcheck⟩
      . exact .inl h
      . exact .inr (.inl h)
      . exact .inl ((hwritten hu h).2.2.2 rfl rfl)
      . exact .inr (.inr ⟨by rw [hsame, hlast], p, hcheck⟩)
    . have hlength : t'.shared.saves.updates.length = t.shared.saves.updates.length := by
        rw [hw.2]
        exact List.length_map _
      obtain ⟨u, hu⟩ : ∃ u, t.shared.saves.updates[n]? = some u := by
        have hlt := Loads.Inv.lt_of_getElem? hu'
        rw [hlength] at hlt
        exact ⟨_, List.getElem?_eq_getElem hlt⟩
      obtain ⟨hd, ha, hstays, -⟩ := hwritten hu hw
      rw [hd, ha]
      refine ⟨(V.updates n u hu).1, ?_⟩
      rcases hold hu with h | h | h | ⟨hlast, p, -, hcheck⟩
      . exact .inl (hstays h)
      . exact .inr (.inl h)
      . exact .inl ((hwritten hu h).2.2.2 rfl rfl)
      . exact .inr (.inr ⟨by rw [hlength, hlast], p, hcheck⟩)
    . rw [hupdates] at hu' ⊢
      rw [List.getElem?_append] at hu'
      split at hu'
      . refine ⟨(V.updates n u' hu').1, ?_⟩
        rcases hold hu' with h | h | h | ⟨-, p', hcheck', -⟩
        . exact .inl h
        . exact .inr (.inl h)
        . exact .inl ((hwritten hu' h).2.2.2 rfl rfl)
        . rw [hcheck'] at hcheck
          contradiction
      . next hge =>
        have hlt := Loads.Inv.lt_of_getElem? hu'
        obtain rfl := List.mem_singleton.mp (List.mem_of_getElem? hu')
        refine ⟨haction, .inr (.inr ⟨?_, p, hnext (hspares p d action data hcheck)⟩)⟩
        rw [List.length_append, List.length_singleton]
        rw [List.length_singleton] at hlt
        omega

end step

section runs

variable [DataUtil] [SqlServer] {maxNum cleanSize : Int} {db : Database}
  {s s₀ : DataManager (DbCache Nat) (MulSearch Nat)} {as : List Action}

omit [SqlServer] in
theorem updatesKept_of_inv {maxSize maxClean : Int} {t : Spec} (hR : Refines maxSize maxClean s t)
    (V : UpdatesInv t)
    : s.UpdatesKept := by
  intro n u hu
  unfold Scheduled
  rw [hR.2.2] at hu ⊢
  rcases (V.updates n u hu).2 with h | (⟨k, hdirty, hdata⟩ | ⟨task, htask, hd, -⟩) | h
  . exact .inl h
  . exact .inr (.inl ((DbCache.holdsDirty_iff hR.1).mpr ⟨k, hdirty, hdata⟩))
  . exact .inr (.inr (.inl ⟨task, htask, hd⟩))
  . exact .inr (.inr (.inr h))

omit [SqlServer] in
theorem sparesUpdates_of_sparesSaved {maxSize maxClean : Int} {t : Spec} {a : Action}
    (hR : Refines maxSize maxClean s t) (hspares : s.SparesSaved a)
    : SparesUpdates maxSize maxClean t a := by
  have hshared := hR.2.2
  cases a with
  | loadChar charId callBack =>
    intro hqueue p d hsaving hevicts
    refine hspares ?_ p d (by rw [hshared]; exact hsaving) (DbCache.evicts_of_lruMap hR.1 hevicts)
    rw [joins_iff hR]
    exact fun hne => hne hqueue
  | updateModuleData =>
    intro p d action data hcheck
    rw [← hshared] at hcheck ⊢
    exact hspares p d action data hcheck
  | _ => trivial

/--
As long as all statements succeed, no update throws and the players that are being saved are spared,
every update is written or waits for a save.
-/
theorem updatesKept_of_run (hinit : init maxNum cleanSize db = some (true, s₀))
    (hrun : Run (stepOf step) (fun s a => SqlSucceeds a ∧ s.SparesSaved a) s₀ as s)
    : s.UpdatesKept := by
  obtain ⟨maxSize, hR⟩ := refines_init hinit
  obtain ⟨t, hR, V⟩ := hrun.invariant (fun s => ∃ t, Refines maxSize cleanSize s t ∧ UpdatesInv t)
    ⟨_, hR, updatesInv_initial⟩ (by
      rintro s a s' ⟨t, hR, V⟩ ⟨hsql, hspares⟩ hstep
      obtain ⟨t', hstep', hR'⟩ := simulates maxSize cleanSize _ _ _ _ hR trivial hstep
      exact ⟨t', hR', hstep'.updatesInv V hsql (sparesUpdates_of_sparesSaved hR hspares)⟩)
  exact updatesKept_of_inv hR V

end runs

section check

variable [DataUtil]

-- the update of the `saveModule` call under way throws an exception
def updateThrows (s : Shared) : Bool :=
  match s.saves.check with
  | .queried _ d action data => ((s.objs d).updateModuleData action data).2
  | _ => false

def savesApart (s : DataManager (DbCache Nat) (MulSearch Nat)) : Action → Bool
  | .loadChar _ _ => s.shared.saves.check.saving.isNone
  | .updateModuleData => !updateThrows s.shared
  | .loadModule _ outcome => outcome = .success
  | .saveUpdates _ succeeds | .saveDeletes _ succeeds => succeeds
  | _ => true

theorem updateThrows_eq {s : Shared} {p : Int} {d : Nat} {action : DBAction}
    {data : Option ModuleData} (h : s.saves.check = .queried p d action data)
    : updateThrows s = ((s.objs d).updateModuleData action data).2 := by
  simp [updateThrows, h]

theorem sparesSaved_of_savesApart {s : DataManager (DbCache Nat) (MulSearch Nat)} {a : Action}
    (h : savesApart s a = true)
    : SqlSucceeds a ∧ s.SparesSaved a := by
  cases a with
  | loadChar charId callBack =>
    refine ⟨trivial, ?_⟩
    intro _ p d hsaving
    simp [savesApart, hsaving] at h
  | updateModuleData =>
    refine ⟨trivial, ?_⟩
    intro p d action data hcheck
    simpa [savesApart, updateThrows_eq hcheck] using h
  | loadModule load outcome => exact ⟨by simpa [savesApart, SqlSucceeds] using h, trivial⟩
  | saveUpdates task succeeds => exact ⟨h, trivial⟩
  | saveDeletes task succeeds => exact ⟨h, trivial⟩
  | _ => exact ⟨trivial, trivial⟩

end check

def levelData (level : Int) : ModuleData := fun key =>
  if key = "7" then some [CommonModule.levelRow level] else none

def saveLevel : List Action :=
  .loadChar 7 true :: loadPlayer
    ++ [.callback, .callbackReturns false, .deleteKey, .saveModule 7 .player (some (levelData 2))]

theorem updatesKept_of_run_saveLevel
    : letI := CommonModule.rowDigest
      letI := CommonModule.numericServer
      ∃ s₀ s, init 0 1 (fun _ => [CommonModule.levelRow 1]) = some (true, s₀)
        ∧ Run (stepOf step) (fun s a => SqlSucceeds a ∧ s.SparesSaved a) s₀
          (saveLevel ++ [.updateModuleData, .setDirty, .tick, .saveNextDirty, .saveUpdates 0 true,
            .saveDeletes 0 true]) s
        ∧ s.UpdatesKept := by
  let _ : DataUtil := CommonModule.rowDigest
  let _ : SqlServer := CommonModule.numericServer
  obtain ⟨s₀, s, hinit, hrun, -⟩ := @exists_guarded_run _ _ 0 1 (fun _ => [CommonModule.levelRow 1])
    (saveLevel ++ [.updateModuleData, .setDirty, .tick, .saveNextDirty, .saveUpdates 0 true,
      .saveDeletes 0 true]) savesApart (fun _ => true) (by decide +kernel)
  have hrun := hrun.weaken fun _ _ => sparesSaved_of_savesApart
  exact ⟨s₀, s, hinit, hrun, updatesKept_of_run hinit hrun⟩

theorem updatesKept_counterexample
    : ¬ ∀ [DataUtil] [SqlServer] (maxNum cleanSize : Int) (db : Database)
        (s₀ s : DataManager (DbCache Nat) (MulSearch Nat)) (as : List Action),
        init maxNum cleanSize db = some (true, s₀)
          → Run (stepOf step) (fun _ a => SqlSucceeds a) s₀ as s → s.UpdatesKept := by
  intro h
  let _ : DataUtil := CommonModule.rowDigest
  let _ : SqlServer := CommonModule.numericServer
  obtain ⟨s₀, s, hinit, hrun, hcheck⟩ := @exists_guarded_run _ _ 0 1
    (fun _ => [CommonModule.levelRow 1]) (saveLevel ++ [.loadChar 8 false, .updateModuleData, .setDirty])
    (fun _ _ => true) (fun s => s.shared.saves.updates.any (!·.written)
      && s.shared.saves.tasks.isEmpty && s.shared.saves.check.saving.isNone
      && s.dataCache.getNextDirtyNodeAndClean.any (·.1.isNone)) (by decide +kernel)
  have hsql := hrun.label (P := SqlSucceeds) (by simp [saveLevel, loadPlayer, SqlSucceeds])
  obtain ⟨maxSize, t, -, hR⟩ := exists_spec_run anyLabel (fun _ _ _ _ _ _ => trivial) hinit hrun
  simp only [Bool.and_eq_true] at hcheck
  obtain ⟨⟨⟨hupdates, htasks⟩, hidle⟩, hnext⟩ := hcheck
  obtain ⟨u, hu, hwritten⟩ := List.any_eq_true.mp hupdates
  obtain ⟨n, hn⟩ := List.mem_iff_getElem?.mp hu
  obtain ⟨⟨data, dataCache⟩, hnext, hnone⟩ := (Option.any_eq_true _ _).mp hnext
  obtain rfl : data = none := by simpa using hnone
  rcases h 0 1 _ s₀ s _ hinit hsql n u hn with hw | hdirty | ⟨task, htask, -⟩ | ⟨-, p, hp⟩
  . simp [hw] at hwritten
  . exact DbCache.not_holdsDirty hR.1 hnext hdirty
  . simp [List.isEmpty_iff.mp htasks] at htask
  . simp [hp, Check.saving] at hidle

end DataManager

end WzGame
