import WzGame.Db.CharDataLemmas
import WzGame.Db.DataManagerLoadRuns
import WzGame.Db.Cache.LruMapLemmas

/-!
This module contains which `CharData` the caches and the tasks hold on to: only ones whose loads have
come to their `setData` call.
-/

namespace WzGame

def LoadPhase.Reading : LoadPhase → Prop
  | .loading _ | .failed => True
  | _ => False

def Check.saving : Check → Option (Int × Nat)
  | .queried p d _ _ | .updated p d => some (p, d)
  | _ => none

namespace Loads

def Settled (v : Loads) (d : Nat) (k : Int) : Prop :=
  ∃ task, v.tasks[d]? = some task ∧ task.charId = k ∧ ¬ task.phase.Reading

theorem getElem?_finish (v : Loads) (c : Completion) (cs : List Completion) (load : Nat)
    : (v.finish c cs).tasks[load]?
        = v.tasks[load]?.map fun task =>
            if c.load = load then { task with phase := .done } else task := by
  unfold finish
  rw [List.getElem?_modify]
  rfl

theorem outstanding_of_reading {v : Loads} {load : Nat} {task : LoadTask}
    (htask : v.tasks[load]? = some task) (hreading : task.phase.Reading)
    : v.Outstanding load task := by
  refine ⟨htask, ?_⟩
  intro hdone
  rw [hdone] at hreading
  exact hreading

theorem reading_of_loaded {load : Nat} {phase : LoadPhase} {charData : Option Nat}
    (h : loaded load phase = some charData)
    : phase.Reading := by
  unfold loaded at h
  split at h
  . trivial
  . trivial
  . contradiction

end Loads

namespace DataManager

open Loads

variable [DataUtil] [SqlServer] {maxSize maxClean : Int} {t t' : Spec} {a : Action} {d : Nat}
  {k : Int}

theorem Step.settled (hstep : Step maxSize maxClean t a t') (h : t.shared.loads.Settled d k)
    : t'.shared.loads.Settled d k := by
  obtain ⟨task, htask, hchar, hphase⟩ := h
  have hset : ∀ {load : Nat} {task₀ task₁ : LoadTask}, t.shared.loads.tasks[load]? = some task₀
      → task₁.charId = task₀.charId → (task₁.phase.Reading → task₀.phase.Reading)
      → (t.shared.loads.setTask load task₁).Settled d k := by
    intro load task₀ task₁ htask₀ hchar' hreading
    have htasks := tasks_setTask htask₀ task₁ d
    by_cases hd : d = load
    . subst hd
      obtain rfl : task = task₀ := Option.some.inj (htask.symm.trans htask₀)
      exact ⟨task₁, by rw [htasks, if_pos rfl], hchar'.trans hchar, fun h => hphase (hreading h)⟩
    . exact ⟨task, by rw [htasks, if_neg hd]; exact htask, hchar, hphase⟩
  have hfinish : ∀ (c : Completion) (cs : List Completion), (t.shared.loads.finish c cs).Settled d k := by
    intro c cs
    refine ⟨_, by rw [getElem?_finish, htask]; rfl, ?_⟩
    split
    . exact ⟨hchar, not_false⟩
    . exact ⟨hchar, hphase⟩
  cases hstep with
  | startLoad _ _ _ _ =>
    refine ⟨task, ?_, hchar, hphase⟩
    show (t.shared.loads.tasks ++ [_])[d]? = some task
    rw [List.getElem?_append_left (Inv.lt_of_getElem? htask)]
    exact htask
  | loadModule hload =>
    obtain ⟨task₀, action, todo, mod, htask₀, hphase₀, -, ⟨-, rfl⟩ | ⟨mod', -, rfl⟩⟩ :=
      Shared.loadModule_cases hload
    . exact hset htask₀ rfl fun _ => by rw [hphase₀]; trivial
    . exact hset htask₀ rfl fun _ => by rw [hphase₀]; trivial
  | setData htask₀ _ _ => exact hset htask₀ rfl (fun h => h.elim)
  | startCallbacks htask₀ _ _ => exact hset htask₀ rfl (fun h => h.elim)
  | throws _ _ _ => exact hfinish _ _
  | deleteKey _ _ _ => exact hfinish _ _
  | updateModuleData h =>
    rw [Shared.updateModuleData_loads h]
    exact ⟨task, htask, hchar, hphase⟩
  | saveUpdates h =>
    rw [Shared.saveUpdates_loads h]
    exact ⟨task, htask, hchar, hphase⟩
  | saveDeletes h =>
    rw [Shared.saveDeletes_loads h]
    exact ⟨task, htask, hchar, hphase⟩
  | _ => exact ⟨task, htask, hchar, hphase⟩

theorem Step.data_new (hstep : Step maxSize maxClean t a t') (h : t'.dataCache.data k = some d)
    : t.dataCache.data k = some d
        ∨ t.dataCache.Pending k ∧ a = .setData d
          ∧ ∃ task, t.shared.loads.tasks[d]? = some task ∧ task.charId = k
            ∧ task.phase = .loading [] := by
  cases hstep with
  | startLoad _ _ _ hcache =>
    rcases hcache.data_new h with h | ⟨-, h⟩
    . exact .inl h
    . simp at h
  | @setData load task charData out dataCache htask hloaded hcache =>
    rcases hcache.data_new h with h | ⟨hpending, h⟩
    . exact .inl h
    . simp only [Prod.mk.injEq, CacheOp.setData.injEq] at h
      obtain ⟨⟨rfl, rfl⟩, -⟩ := h
      unfold loaded at hloaded
      split at hloaded
      . next hphase =>
        obtain rfl : load = d := by simpa using hloaded
        exact .inr ⟨hpending, rfl, task, htask, rfl, hphase⟩
      . simp at hloaded
      . contradiction
  | saveHit _ hcache =>
    rcases hcache.data_new h with h | ⟨-, h⟩
    . exact .inl h
    . simp at h
  | setDirty _ hcache =>
    rcases hcache.data_new h with h | ⟨-, h⟩
    . exact .inl h
    . simp at h
  | saveNext _ hcache =>
    rcases hcache.data_new h with h | ⟨-, h⟩
    . exact .inl h
    . simp at h
  | _ => exact .inl h

theorem Step.data_kept (hstep : Step maxSize maxClean t a t') (h : t.dataCache.data k = some d)
    : t'.dataCache.data k = some d
        ∨ ∃ charId callBack, a = .loadChar charId callBack ∧ t.queryCache.queue charId = []
          ∧ t.dataCache.Evicts maxSize maxClean charId k := by
  cases hstep with
  | @startLoad charId callBack held dataCache _ hqueue _ hcache =>
    rcases hcache.occupy_cases with ⟨-, rfl⟩ | ⟨hnew, -, -, hothers⟩
    . exact .inl h
    . have hne : k ≠ charId := by
        rintro rfl
        exact hnew (LruMap.held_of_data h)
      rcases hothers k hne with ⟨-, hdata⟩ | ⟨hevicts, -⟩
      . exact .inl (hdata.trans h)
      . exact .inr ⟨charId, callBack, rfl, hqueue, hevicts⟩
  | setData _ _ hcache =>
    rcases hcache.data_kept h with h | ⟨k', hcall, -⟩
    . exact .inl h
    . simp at hcall
  | saveHit _ hcache => exact .inl ((hcache.query_cases.2.2 k).2.trans h)
  | setDirty _ hcache => exact .inl ((hcache.setDirty_cases.1 k).2.trans h)
  | saveNext _ hcache =>
    obtain ⟨k', -, -, hothers⟩ := hcache.next_cases
    exact .inl ((hothers k).2.trans h)
  | loadModule hload =>
    obtain ⟨task, action, todo, mod, -, -, -, ⟨-, rfl⟩ | ⟨mod', -, rfl⟩⟩ :=
      Shared.loadModule_cases hload
    . exact .inl h
    . exact .inl h
  | _ => exact .inl h

theorem Step.installed_new (hstep : Step maxSize maxClean t a t') {load : Nat} {task' : LoadTask}
    {charData : Option Nat} (htask' : t'.shared.loads.tasks[load]? = some task')
    (hphase' : task'.phase = .installed charData)
    : (∃ task, t.shared.loads.tasks[load]? = some task ∧ task.charId = task'.charId
          ∧ task.phase = .installed charData)
        ∨ a = .setData load ∧ ∀ d, charData = some d → t'.dataCache.data task'.charId = some d := by
  have hset : ∀ {load₀ : Nat} {task₀ task₁ : LoadTask}, t.shared.loads.tasks[load₀]? = some task₀
      → (t.shared.loads.setTask load₀ task₁).tasks[load]? = some task'
      → t.shared.loads.tasks[load]? = some task' ∨ load = load₀ ∧ task₁ = task' := by
    intro load₀ task₀ task₁ htask₀ h
    rw [tasks_setTask htask₀] at h
    split at h
    . next heq => exact .inr ⟨heq, Option.some.inj h⟩
    . exact .inl h
  have hfinish : ∀ {c : Completion} {cs : List Completion},
      (t.shared.loads.finish c cs).tasks[load]? = some task'
      → ∃ task, t.shared.loads.tasks[load]? = some task ∧ task.charId = task'.charId
          ∧ task.phase = .installed charData := by
    intro c cs h
    rw [getElem?_finish] at h
    obtain ⟨task, htask, rfl⟩ := Option.map_eq_some_iff.mp h
    split at hphase'
    . contradiction
    . next hne => exact ⟨task, htask, by simp [hne], hphase'⟩
  cases hstep with
  | startLoad _ _ _ _ =>
    replace htask' : (t.shared.loads.tasks ++ [_])[load]? = some task' := htask'
    rw [List.getElem?_append] at htask'
    split at htask'
    . exact .inl ⟨task', htask', rfl, hphase'⟩
    . obtain rfl := List.mem_singleton.mp (List.mem_of_getElem? htask')
      contradiction
  | loadModule hload =>
    obtain ⟨task, action, todo, mod, htask, -, -, ⟨-, rfl⟩ | ⟨mod', -, rfl⟩⟩ :=
      Shared.loadModule_cases hload
    . rcases hset htask htask' with h | ⟨-, rfl⟩
      . exact .inl ⟨task', h, rfl, hphase'⟩
      . contradiction
    . rcases hset htask htask' with h | ⟨-, rfl⟩
      . exact .inl ⟨task', h, rfl, hphase'⟩
      . contradiction
  | setData htask _ hcache =>
    rcases hset htask htask' with h | ⟨rfl, rfl⟩
    . exact .inl ⟨task', h, rfl, hphase'⟩
    . obtain rfl := LoadPhase.installed.inj hphase'
      refine .inr ⟨rfl, ?_⟩
      rintro d rfl
      obtain ⟨-, -, ⟨-, rfl, hdata, -⟩ | ⟨-, hdata, rfl⟩⟩ := hcache.setData_cases
      . exact hdata
      . exact hdata.symm
  | startCallbacks htask _ _ =>
    rcases hset htask htask' with h | ⟨-, rfl⟩
    . exact .inl ⟨task', h, rfl, hphase'⟩
    . contradiction
  | throws _ _ _ => exact .inl (hfinish htask')
  | deleteKey _ _ _ => exact .inl (hfinish htask')
  | updateModuleData h =>
    rw [Shared.updateModuleData_loads h] at htask'
    exact .inl ⟨task', htask', rfl, hphase'⟩
  | saveUpdates h =>
    rw [Shared.saveUpdates_loads h] at htask'
    exact .inl ⟨task', htask', rfl, hphase'⟩
  | saveDeletes h =>
    rw [Shared.saveDeletes_loads h] at htask'
    exact .inl ⟨task', htask', rfl, hphase'⟩
  | _ => exact .inl ⟨task', htask', rfl, hphase'⟩

theorem Step.completion_new (hstep : Step maxSize maxClean t a t') {c' : Completion}
    (hc' : c' ∈ t'.shared.loads.completions)
    : (∃ c ∈ t.shared.loads.completions, c.load = c'.load ∧ c.charId = c'.charId
          ∧ c.charData = c'.charData)
        ∨ ∃ task, t.shared.loads.tasks[c'.load]? = some task ∧ task.charId = c'.charId
          ∧ task.phase = .installed c'.charData := by
  have hnext : ∀ {c c₁ : Completion} {cs : List Completion}, t.shared.loads.completions = c :: cs
      → c' ∈ c₁ :: cs → c.load = c₁.load → c.charId = c₁.charId → c.charData = c₁.charData
      → ∃ c ∈ t.shared.loads.completions, c.load = c'.load ∧ c.charId = c'.charId
          ∧ c.charData = c'.charData := by
    intro c c₁ cs hcs hmem hload hchar hdata
    rw [hcs]
    rcases List.mem_cons.mp hmem with rfl | hmem
    . exact ⟨c, List.mem_cons_self, hload, hchar, hdata⟩
    . exact ⟨c', List.mem_cons_of_mem c hmem, rfl, rfl, rfl⟩
  cases hstep with
  | @startCallbacks load task charData htask hphase _ =>
    rcases List.mem_cons.mp hc' with rfl | hc'
    . exact .inr ⟨task, htask, rfl, hphase⟩
    . exact .inl ⟨c', hc', rfl, rfl, rfl⟩
  | callback hcs _ _ _ => exact .inl (hnext hcs hc' rfl rfl rfl)
  | noCallback hcs _ _ _ => exact .inl (hnext hcs hc' rfl rfl rfl)
  | returns hcs _ _ => exact .inl (hnext hcs hc' rfl rfl rfl)
  | throws hcs _ _ =>
    exact .inl ⟨c', hcs ▸ List.mem_cons_of_mem _ hc', rfl, rfl, rfl⟩
  | deleteKey hcs _ _ =>
    exact .inl ⟨c', hcs ▸ List.mem_cons_of_mem _ hc', rfl, rfl, rfl⟩
  | loadModule hload =>
    obtain ⟨task, action, todo, mod, -, -, -, ⟨-, rfl⟩ | ⟨mod', -, rfl⟩⟩ :=
      Shared.loadModule_cases hload
    . exact .inl ⟨c', hc', rfl, rfl, rfl⟩
    . exact .inl ⟨c', hc', rfl, rfl, rfl⟩
  | updateModuleData h =>
    rw [Shared.updateModuleData_loads h] at hc'
    exact .inl ⟨c', hc', rfl, rfl, rfl⟩
  | saveUpdates h =>
    rw [Shared.saveUpdates_loads h] at hc'
    exact .inl ⟨c', hc', rfl, rfl, rfl⟩
  | saveDeletes h =>
    rw [Shared.saveDeletes_loads h] at hc'
    exact .inl ⟨c', hc', rfl, rfl, rfl⟩
  | _ => exact .inl ⟨c', hc', rfl, rfl, rfl⟩

theorem Step.check_cases (hstep : Step maxSize maxClean t a t')
    : t'.shared.saves.check = t.shared.saves.check
        ∨ (∃ p d action data, t.shared.saves.check = .idle ∧ t.dataCache.data p = some d
          ∧ t'.shared.saves.check = .queried p d action data)
        ∨ (∃ p d action data, a = .updateModuleData
          ∧ t.shared.saves.check = .queried p d action data
          ∧ t'.shared.saves.check
            = if ((t.shared.objs d).updateModuleData action data).2 then .idle else .updated p d)
        ∨ (∃ p d, a = .setDirty ∧ t.shared.saves.check = .updated p d
          ∧ t'.shared.saves.check = .idle)
        ∨ t.shared.saves.check.saving = none ∧ t'.shared.saves.check.saving = none := by
  cases hstep with
  | @saveHit p action data d _ hidle hcache =>
    have hout := hcache.query_out
    simp only [CacheOut.data.injEq] at hout
    exact .inr (.inl ⟨p, d, action, data, hidle, hout.symm, rfl⟩)
  | loadModule hload =>
    obtain ⟨task, action, todo, mod, -, -, -, ⟨-, rfl⟩ | ⟨mod', -, rfl⟩⟩ :=
      Shared.loadModule_cases hload
    . exact .inl rfl
    . exact .inl rfl
  | updateModuleData hupdate =>
    refine .inr (.inr (.inl ?_))
    obtain ⟨p, d, action, data, hcheck, -, ⟨hrows, rfl⟩ | ⟨table, keys, rows, htables, hrows,
      h⟩⟩ := Shared.updateModuleData_cases hupdate
    . refine ⟨p, d, action, data, rfl, hcheck, ?_⟩
      rw [CharData.updateModuleData_self (Shared.suppliedRows_eq_none hrows)]
      rfl
    . refine ⟨p, d, action, data, rfl, hcheck, ?_⟩
      obtain ⟨data, rfl, hdata⟩ := Shared.suppliedRows_eq_some htables hrows
      rw [CharData.updateModuleData_eq htables, hdata]
      rcases h with ⟨records, hok, rfl⟩ | ⟨records, herror, rfl⟩
      . rw [hok]
        rfl
      . rw [herror]
        rfl
  | setDirty hcheck _ => exact .inr (.inr (.inr (.inl ⟨_, _, rfl, hcheck, rfl⟩)))
  | tick htick =>
    unfold Saves.tick at htick
    split at htick
    . next hidle =>
      obtain rfl := Option.some.inj htick
      exact .inr (.inr (.inr (.inr ⟨by rw [hidle]; rfl, rfl⟩)))
    . contradiction
  | saveNone hticking _ => exact .inr (.inr (.inr (.inr ⟨by rw [hticking]; rfl, rfl⟩)))
  | saveNext hticking _ =>
    refine .inr (.inr (.inr (.inr ⟨by rw [hticking]; rfl, ?_⟩)))
    simp only [Saves.queueSave]
    split <;> rfl
  | saveUpdates hsave =>
    obtain ⟨d, action, todo, failed, table, keys, -, -, -, ⟨-, rfl⟩ | ⟨db, -, rfl⟩⟩ :=
      Shared.saveUpdates_cases hsave
    . exact .inl rfl
    . exact .inl rfl
  | saveDeletes hsave =>
    obtain ⟨d, action, todo, failed, table, keys, -, -, ⟨-, rfl⟩ | ⟨db, -, rfl⟩⟩ :=
      Shared.saveDeletes_cases hsave
    . exact .inl rfl
    . exact .inl rfl
  | endSave hfinish =>
    unfold Saves.finish at hfinish
    split at hfinish
    . obtain rfl := Option.some.inj hfinish
      exact .inl rfl
    . contradiction
  | _ => exact .inl rfl

theorem Step.saving_new (hstep : Step maxSize maxClean t a t')
    (h : t'.shared.saves.check.saving = some (k, d))
    : t.shared.saves.check.saving = some (k, d) ∨ t.dataCache.data k = some d := by
  rcases hstep.check_cases with hcheck | ⟨p, d', action, data, -, hdata, hcheck⟩
    | ⟨p, d', action, data, -, hcheck, hcheck'⟩ | ⟨p, d', -, -, hcheck⟩ | ⟨-, hcheck⟩
  . exact .inl (hcheck ▸ h)
  . rw [hcheck] at h
    obtain ⟨rfl, rfl⟩ := Prod.mk.inj (Option.some.inj h)
    exact .inr hdata
  . rw [hcheck'] at h
    split at h
    . contradiction
    . rw [hcheck]
      exact .inl h
  . rw [hcheck] at h
    contradiction
  . rw [hcheck] at h
    contradiction

theorem Step.saving_kept (hstep : Step maxSize maxClean t a t')
    (h : t.shared.saves.check.saving = some (k, d))
    : t'.shared.saves.check.saving = some (k, d)
        ∨ a = .setDirty ∧ t.shared.saves.check = .updated k d
        ∨ a = .updateModuleData ∧ ∃ action data, t.shared.saves.check = .queried k d action data
          ∧ ((t.shared.objs d).updateModuleData action data).2 = true := by
  rcases hstep.check_cases with hcheck | ⟨p, d', action, data, hidle, -⟩
    | ⟨p, d', action, data, rfl, hcheck, hcheck'⟩ | ⟨p, d', rfl, hcheck, -⟩ | ⟨hcheck, -⟩
  . exact .inl (hcheck ▸ h)
  . rw [hidle] at h
    contradiction
  . rw [hcheck] at h
    obtain ⟨rfl, rfl⟩ := Prod.mk.inj (Option.some.inj h)
    cases hthrew : ((t.shared.objs d').updateModuleData action data).2 with
    | true => exact .inr (.inr ⟨rfl, action, data, hcheck, hthrew⟩)
    | false =>
      rw [hcheck', hthrew]
      exact .inl rfl
  . rw [hcheck] at h
    obtain ⟨rfl, rfl⟩ := Prod.mk.inj (Option.some.inj h)
    exact .inr (.inl ⟨rfl, hcheck⟩)
  . rw [hcheck] at h
    contradiction

theorem Step.saveTask_new (hstep : Step maxSize maxClean t a t') {task' : SaveTask}
    (h : task' ∈ t'.shared.saves.tasks)
    : (∃ task ∈ t.shared.saves.tasks, task.charData = task'.charData)
        ∨ ∃ k, t.dataCache.data k = some task'.charData := by
  have hset : ∀ {i : Nat} {task task₀ : SaveTask}, task' ∈ t.shared.saves.tasks.set i task
      → t.shared.saves.tasks[i]? = some task₀ → task.charData = task₀.charData
      → ∃ task ∈ t.shared.saves.tasks, task.charData = task'.charData := by
    intro i task task₀ hmem htask₀ hsame
    rcases List.mem_or_eq_of_mem_set hmem with hmem | rfl
    . exact ⟨task', hmem, rfl⟩
    . exact ⟨task₀, List.mem_of_getElem? htask₀, hsame.symm⟩
  cases hstep with
  | loadModule hload =>
    obtain ⟨task, action, todo, mod, -, -, -, ⟨-, rfl⟩ | ⟨mod', -, rfl⟩⟩ :=
      Shared.loadModule_cases hload
    . exact .inl ⟨task', h, rfl⟩
    . exact .inl ⟨task', h, rfl⟩
  | updateModuleData hupdate =>
    obtain ⟨p, d', action, data, hcheck, -, ⟨-, rfl⟩ | ⟨table, keys, rows, -, -,
      ⟨records, -, rfl⟩ | ⟨records, -, rfl⟩⟩⟩ := Shared.updateModuleData_cases hupdate
    . exact .inl ⟨task', h, rfl⟩
    . exact .inl ⟨task', h, rfl⟩
    . exact .inl ⟨task', h, rfl⟩
  | tick htick =>
    unfold Saves.tick at htick
    split at htick
    . obtain rfl := Option.some.inj htick
      exact .inl ⟨task', h, rfl⟩
    . contradiction
  | saveNext _ hcache =>
    rcases List.mem_append.mp h with h | h
    . exact .inl ⟨task', h, rfl⟩
    . obtain rfl := List.mem_singleton.mp h
      obtain ⟨k, -, hdata, -⟩ := hcache.next_cases
      exact .inr ⟨k, hdata⟩
  | saveUpdates hsave =>
    obtain ⟨d', action, todo, failed, table, keys, htask, -, -, ⟨-, rfl⟩ | ⟨db, -, rfl⟩⟩ :=
      Shared.saveUpdates_cases hsave
    . exact .inl (hset h htask rfl)
    . exact .inl (hset h htask rfl)
  | saveDeletes hsave =>
    obtain ⟨d', action, todo, failed, table, keys, htask, -, ⟨-, rfl⟩ | ⟨db, -, rfl⟩⟩ :=
      Shared.saveDeletes_cases hsave
    . exact .inl (hset h htask rfl)
    . exact .inl (hset h htask rfl)
  | endSave hfinish =>
    unfold Saves.finish at hfinish
    split at hfinish
    . obtain rfl := Option.some.inj hfinish
      exact .inl ⟨task', List.mem_of_mem_eraseIdx h, rfl⟩
    . contradiction
  | _ => exact .inl ⟨task', h, rfl⟩

theorem Step.charId_eq (hstep : Step maxSize maxClean t a t') {task' : LoadTask}
    (hobjs : ∀ d task, t.shared.loads.tasks[d]? = some task → (t.shared.objs d).charId = task.charId)
    (htask' : t'.shared.loads.tasks[d]? = some task')
    : (t'.shared.objs d).charId = task'.charId := by
  have hset : ∀ {load : Nat} {task₀ task₁ : LoadTask},
      (t.shared.loads.setTask load task₁).tasks[d]? = some task'
      → t.shared.loads.tasks[load]? = some task₀ → task₁.charId = task₀.charId
      → (t.shared.objs d).charId = task'.charId := by
    intro load task₀ task₁ h htask₀ hchar
    rw [tasks_setTask htask₀] at h
    split at h
    . next hd =>
      subst hd
      obtain rfl := Option.some.inj h
      rw [hobjs d task₀ htask₀, hchar]
    . exact hobjs d task' h
  have hfinish : ∀ {c : Completion} {cs : List Completion},
      (t.shared.loads.finish c cs).tasks[d]? = some task'
      → (t.shared.objs d).charId = task'.charId := by
    intro c cs h
    rw [getElem?_finish] at h
    obtain ⟨task, htask, rfl⟩ := Option.map_eq_some_iff.mp h
    rw [hobjs d task htask]
    split <;> rfl
  have hsetRecords : ∀ (d' : Nat) (action : DBAction) (records : List DbRecord),
      (Function.update t.shared.objs d' ((t.shared.objs d').setRecords action records) d).charId
        = (t.shared.objs d).charId := by
    intro d' action records
    by_cases hd : d = d'
    . subst hd
      simp
    . simp [hd]
  cases hstep with
  | @startLoad charId callBack held dataCache _ _ _ _ =>
    have h : (t.shared.loads.tasks ++ [⟨charId, .loading CharData.entries, held, []⟩])[d]?
        = some task' := htask'
    rw [List.getElem?_append] at h
    split at h
    . next hlt =>
      have hd : d ≠ t.shared.loads.tasks.length := by omega
      show (Function.update t.shared.objs _ (.init charId) d).charId = _
      rw [Function.update_of_ne hd]
      exact hobjs d task' h
    . next hge =>
      have hlt := Inv.lt_of_getElem? h
      rw [List.length_singleton] at hlt
      obtain rfl : d = t.shared.loads.tasks.length := by omega
      obtain rfl := List.mem_singleton.mp (List.mem_of_getElem? h)
      show (Function.update t.shared.objs _ (.init charId) _).charId = _
      rw [Function.update_self]
      rfl
  | loadModule hload =>
    obtain ⟨task, action, todo, mod, htask, -, -, ⟨-, rfl⟩ | ⟨mod', -, rfl⟩⟩ :=
      Shared.loadModule_cases hload
    . exact hset htask' htask rfl
    . rw [← hset htask' htask rfl]
      exact hsetRecords _ _ _
  | setData htask _ _ => exact hset htask' htask rfl
  | startCallbacks htask _ _ => exact hset htask' htask rfl
  | throws _ _ _ => exact hfinish htask'
  | deleteKey _ _ _ => exact hfinish htask'
  | updateModuleData hupdate =>
    obtain ⟨p, d', action, data, hcheck, -, ⟨-, rfl⟩ | ⟨table, keys, rows, -, -,
      ⟨records, -, rfl⟩ | ⟨records, -, rfl⟩⟩⟩ := Shared.updateModuleData_cases hupdate
    . exact hobjs d task' htask'
    . rw [← hobjs d task' htask']
      exact hsetRecords _ _ _
    . rw [← hobjs d task' htask']
      exact hsetRecords _ _ _
  | saveUpdates hsave =>
    obtain ⟨d', action, todo, failed, table, keys, -, -, -, ⟨-, rfl⟩ | ⟨db, -, rfl⟩⟩ :=
      Shared.saveUpdates_cases hsave
    . exact hobjs d task' htask'
    . exact hobjs d task' htask'
  | saveDeletes hsave =>
    obtain ⟨d', action, todo, failed, table, keys, -, -, ⟨-, rfl⟩ | ⟨db, -, rfl⟩⟩ :=
      Shared.saveDeletes_cases hsave
    . exact hobjs d task' htask'
    . rw [← hobjs d task' htask']
      exact hsetRecords _ _ _
  | _ => exact hobjs d task' htask'

structure Refs (t : Spec) : Prop where
  cached : ∀ k d, t.dataCache.data k = some d → t.shared.loads.Settled d k
  saving : ∀ k d, t.shared.saves.check.saving = some (k, d) → t.shared.loads.Settled d k
  queued : ∀ task ∈ t.shared.saves.tasks, ∃ k, t.shared.loads.Settled task.charData k
  charId : ∀ d task, t.shared.loads.tasks[d]? = some task → (t.shared.objs d).charId = task.charId

theorem refs_initial {db : Database} : Refs (.initial db) := by
  constructor
  case cached =>
    intro k d h
    contradiction
  case saving =>
    intro k d h
    contradiction
  case queued =>
    intro task h
    contradiction
  case charId =>
    intro d task h
    contradiction

theorem Step.refs (R : Refs t) (hstep : Step maxSize maxClean t a t') : Refs t' := by
  constructor
  case cached =>
    intro k d hdata
    rcases hstep.data_new hdata with h | ⟨-, rfl, task, htask, hchar, -⟩
    . exact hstep.settled (R.cached k d h)
    . cases hstep with
      | @setData _ task' charData out _ htask' _ _ =>
        obtain rfl : task = task' := Option.some.inj (htask.symm.trans htask')
        refine ⟨{ task with phase := .installed out }, ?_, hchar, id⟩
        show (t.shared.loads.setTask d _).tasks[d]? = _
        rw [tasks_setTask htask, if_pos rfl]
  case saving =>
    intro k d h
    rcases hstep.saving_new h with h | h
    . exact hstep.settled (R.saving k d h)
    . exact hstep.settled (R.cached k d h)
  case queued =>
    intro task htask
    rcases hstep.saveTask_new htask with ⟨task₀, htask₀, hsame⟩ | ⟨k, hdata⟩
    . obtain ⟨k, hk⟩ := R.queued task₀ htask₀
      exact ⟨k, hsame ▸ hstep.settled hk⟩
    . exact ⟨k, hstep.settled (R.cached k _ hdata)⟩
  case charId => exact fun d task htask => hstep.charId_eq R.charId htask

end DataManager

end WzGame
