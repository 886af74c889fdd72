import WzGame.Db.DataManagerData

/-!
This module contains what a load reads and what it hands over to the calls that wait for it.
-/

namespace WzGame

open DbRecord Runs

def Query.taken (query : Query) : List MapObject :=
  match query.outcome with
  | .success => query.rows
  | .sqlException read => query.rows.take read
  | .exception => []

namespace CharData

theorem load_modules [DataUtil] [SqlServer] {charData : CharData} {action : DBAction}
    {mod : CommonModule} (h : charData.modules action = some mod) (db : Database)
    (outcome : QueryOutcome)
    : (mod.load db outcome).map CommonModule.records
        = if outcome = .exception then none
          else some (charData.records action ++ (Query.taken
            ⟨action, outcome, storedRows db charData.charId action⟩).map ofData) := by
  obtain ⟨table, keys, htables, rfl⟩ := exists_tables h
  unfold CommonModule.load DataQueryResult.load DataQueryResult.execute
  cases outcome with
  | exception => rfl
  | success => simp [Query.taken, storedRows, htables, CommonModule.new, DataQueryResult.onResult,
      DataQueryResult.getData]
  | sqlException read => simp [Query.taken, storedRows, htables, CommonModule.new,
      DataQueryResult.onResult, DataQueryResult.onError, DataQueryResult.getData]

end CharData

namespace DataManager

open Loads

variable [DataUtil] [SqlServer] {maxSize maxClean : Int} {t t' : Spec} {a : Action} {load : Nat}
  {task : LoadTask}

theorem Step.pending_kept {k : Int} (hstep : Step maxSize maxClean t a t')
    (h : t.dataCache.Pending k)
    : t'.dataCache.Pending k
        ∨ ∃ load task, a = .setData load ∧ t.shared.loads.tasks[load]? = some task
          ∧ task.charId = k ∧ task.phase.Reading := by
  have hsame : ∀ {m : LruMap Int Nat}, (m.Held k ↔ t.dataCache.Held k)
      ∧ m.data k = t.dataCache.data k → m.Pending k :=
    fun ⟨hheld, hdata⟩ => ⟨hheld.mpr h.1, hdata.trans h.2⟩
  cases hstep with
  | @startLoad charId callBack held dataCache _ _ _ hcache =>
    left
    rcases hcache.occupy_cases with ⟨-, rfl⟩ | ⟨hnew, -, -, hothers⟩
    . exact h
    . have hne : k ≠ charId := by
        rintro rfl
        exact hnew h.1
      rcases hothers k hne with hk | ⟨hevicts, -⟩
      . exact hsame hk
      . exact absurd hevicts.2.2.1 (LruMap.not_clean_of_pending h)
  | @setData load task charData out dataCache htask hloaded hcache =>
    by_cases hk : k = task.charId
    . exact .inr ⟨load, task, rfl, htask, hk.symm, reading_of_loaded hloaded⟩
    . exact .inl (hsame (hcache.setData_cases.2.1 k hk))
  | saveHit _ hcache => exact .inl (hsame (hcache.query_cases.2.2 k))
  | setDirty _ hcache => exact .inl (hsame (hcache.setDirty_cases.1 k))
  | saveNext _ hcache =>
    obtain ⟨k', -, -, hothers⟩ := hcache.next_cases
    exact .inl (hsame (hothers k))
  | loadModule hload =>
    obtain ⟨task, action, todo, mod, -, -, -, ⟨-, rfl⟩ | ⟨mod', -, rfl⟩⟩ :=
      Shared.loadModule_cases hload
    . exact .inl h
    . exact .inl h
  | _ => exact .inl h

theorem Step.objs_reading (hstep : Step maxSize maxClean t a t') (R : Refs t)
    (htask : t.shared.loads.tasks[load]? = some task) (hreading : task.phase.Reading)
    (hne : ∀ outcome, a ≠ .loadModule load outcome)
    : t'.shared.objs load = t.shared.objs load := by
  have hsettled : ∀ d k, t.shared.loads.Settled d k → load ≠ d := by
    rintro d k ⟨task', htask', -, hphase⟩ rfl
    obtain rfl := Option.some.inj (htask.symm.trans htask')
    exact hphase hreading
  cases hstep with
  | startLoad _ _ _ _ =>
    have hlt := Inv.lt_of_getElem? htask
    exact Function.update_of_ne (by omega) _ _
  | @loadModule load' outcome _ hload =>
    have hload' : load ≠ load' := by
      rintro rfl
      exact hne outcome rfl
    obtain ⟨task, action, todo, mod, -, -, -, ⟨-, rfl⟩ | ⟨mod', -, rfl⟩⟩ :=
      Shared.loadModule_cases hload
    . rfl
    . exact Function.update_of_ne hload' _ _
  | updateModuleData hupdate =>
    obtain ⟨p, d, action, data, hcheck, -, ⟨-, rfl⟩ | ⟨table, keys, rows, -, -,
      ⟨records, -, rfl⟩ | ⟨records, -, rfl⟩⟩⟩ := Shared.updateModuleData_cases hupdate
    . rfl
    . exact Function.update_of_ne (hsettled d p (R.saving p d (by rw [hcheck]; rfl))) _ _
    . exact Function.update_of_ne (hsettled d p (R.saving p d (by rw [hcheck]; rfl))) _ _
  | saveUpdates hsave =>
    obtain ⟨d, action, todo, failed, table, keys, -, -, -, ⟨-, rfl⟩ | ⟨db, -, rfl⟩⟩ :=
      Shared.saveUpdates_cases hsave
    . rfl
    . rfl
  | saveDeletes hsave =>
    obtain ⟨d, action, todo, failed, table, keys, htask', -, ⟨-, rfl⟩ | ⟨db, -, rfl⟩⟩ :=
      Shared.saveDeletes_cases hsave
    . rfl
    . obtain ⟨k, hk⟩ := R.queued _ (List.mem_of_getElem? htask')
      exact Function.update_of_ne (hsettled d k hk) _ _
  | _ => rfl

theorem Step.reading_cases (hstep : Step maxSize maxClean t a t')
    (htask : t'.shared.loads.tasks[load]? = some task) (hreading : task.phase.Reading)
    : (t.shared.loads.tasks[load]? = some task ∧ (∀ outcome, a ≠ .loadModule load outcome)
          ∧ a ≠ .setData load)
        ∨ (∃ outcome, a = .loadModule load outcome)
        ∨ ∃ callBack held, a = .loadChar task.charId callBack ∧ load = t.shared.loads.tasks.length
          ∧ task = ⟨task.charId, .loading CharData.entries, held, []⟩
          ∧ (held = true ↔ t.dataCache.Held task.charId)
          ∧ t'.shared.objs load = .init task.charId
          ∧ LruMap.Step maxSize maxClean t.dataCache (.occupy task.charId, .bool true)
            t'.dataCache := by
  have hset : ∀ {load₀ : Nat} {task₀ task₁ : LoadTask}, t.shared.loads.tasks[load₀]? = some task₀
      → ¬ task₁.phase.Reading → (t.shared.loads.setTask load₀ task₁).tasks[load]? = some task
      → t.shared.loads.tasks[load]? = some task ∧ load ≠ load₀ := by
    intro load₀ task₀ task₁ htask₀ hnot h
    rw [tasks_setTask htask₀] at h
    split at h
    . obtain rfl := Option.some.inj h
      exact absurd hreading hnot
    . next hne => exact ⟨h, hne⟩
  have hfinish : ∀ {c : Completion} {cs : List Completion},
      (t.shared.loads.finish c cs).tasks[load]? = some task
      → t.shared.loads.tasks[load]? = some task := by
    intro c cs h
    rw [getElem?_finish] at h
    obtain ⟨task₀, htask₀, rfl⟩ := Option.map_eq_some_iff.mp h
    split at hreading
    . exact hreading.elim
    . next hne => rw [htask₀, if_neg hne]
  cases hstep with
  | @startLoad charId callBack held dataCache _ _ hheld hcache =>
    have h : (t.shared.loads.tasks ++ [⟨charId, .loading CharData.entries, held, []⟩])[load]?
        = some task := htask
    rw [List.getElem?_append] at h
    split at h
    . exact .inl ⟨h, by simp, by simp⟩
    . next hge =>
      have hlt := Inv.lt_of_getElem? h
      rw [List.length_singleton] at hlt
      obtain rfl : load = t.shared.loads.tasks.length := by omega
      obtain rfl := List.mem_singleton.mp (List.mem_of_getElem? h)
      exact .inr (.inr ⟨callBack, held, rfl, rfl, rfl, hheld, Function.update_self _ _ _, hcache⟩)
  | @loadModule load' outcome _ hload =>
    by_cases hl : load = load'
    . exact .inr (.inl ⟨outcome, by rw [hl]⟩)
    . left
      obtain ⟨task₀, action, todo, mod, htask₀, -, -, ⟨-, rfl⟩ | ⟨mod', -, rfl⟩⟩ :=
        Shared.loadModule_cases hload
      . replace htask := tasks_setTask htask₀ _ load ▸ htask
        rw [if_neg hl] at htask
        exact ⟨htask, by simp [Ne.symm hl], by simp⟩
      . replace htask := tasks_setTask htask₀ _ load ▸ htask
        rw [if_neg hl] at htask
        exact ⟨htask, by simp [Ne.symm hl], by simp⟩
  | setData htask₀ _ _ =>
    obtain ⟨h, hne⟩ := hset htask₀ id htask
    exact .inl ⟨h, by simp, by simp [Ne.symm hne]⟩
  | startCallbacks htask₀ _ _ => exact .inl ⟨(hset htask₀ id htask).1, by simp, by simp⟩
  | throws _ _ _ => exact .inl ⟨hfinish htask, by simp, by simp⟩
  | deleteKey _ _ _ => exact .inl ⟨hfinish htask, by simp, by simp⟩
  | updateModuleData h =>
    rw [Shared.updateModuleData_loads h] at htask
    exact .inl ⟨htask, by simp, by simp⟩
  | saveUpdates h =>
    rw [Shared.saveUpdates_loads h] at htask
    exact .inl ⟨htask, by simp, by simp⟩
  | saveDeletes h =>
    rw [Shared.saveDeletes_loads h] at htask
    exact .inl ⟨htask, by simp, by simp⟩
  | _ => exact .inl ⟨htask, by simp, by simp⟩

structure Reads (t : Spec) : Prop where
  pending : ∀ (load : Nat) (task : LoadTask), t.shared.loads.tasks[load]? = some task
    → task.held = false → task.phase.Reading → t.dataCache.Pending task.charId
  loading : ∀ (load : Nat) (task : LoadTask) todo, t.shared.loads.tasks[load]? = some task
    → task.phase = .loading todo
    → task.queries.map Query.action ++ todo = CharData.entries
      ∧ (∀ query ∈ task.queries, query.outcome ≠ .exception
        ∧ (t.shared.objs load).records query.action = query.taken.map ofData)
      ∧ ∀ action ∈ todo, (t.shared.objs load).records action = []
  failed : ∀ (load : Nat) (task : LoadTask), t.shared.loads.tasks[load]? = some task
    → task.phase = .failed → ∃ query ∈ task.queries, query.outcome = .exception

theorem reads_initial {db : Database} : Reads (.initial db) := by
  constructor
  case pending =>
    intro load task htask
    contradiction
  case loading =>
    intro load task todo htask
    contradiction
  case failed =>
    intro load task htask
    contradiction

theorem Step.loadModule_cases {outcome : QueryOutcome} (R : Refs t)
    (hstep : Step maxSize maxClean t (.loadModule load outcome) t')
    : t'.dataCache = t.dataCache
        ∧ ∃ task action todo query, t.shared.loads.tasks[load]? = some task
          ∧ task.phase = .loading (action :: todo)
          ∧ query = ⟨action, outcome, CharData.storedRows t.shared.db task.charId action⟩
          ∧ (outcome = .exception
              ∧ t'.shared.loads.tasks[load]?
                = some { task with phase := .failed, queries := task.queries ++ [query] }
            ∨ outcome ≠ .exception
              ∧ t'.shared.loads.tasks[load]?
                = some { task with phase := .loading todo, queries := task.queries ++ [query] }
              ∧ t'.shared.objs load = (t.shared.objs load).setRecords action
                ((t.shared.objs load).records action ++ query.taken.map ofData)) := by
  cases hstep with
  | loadModule hload =>
    obtain ⟨task, action, todo, mod, htask, hphase, hmod, hcases⟩ := Shared.loadModule_cases hload
    have hrecords := CharData.load_modules hmod t.shared.db outcome
    rw [R.charId load task htask] at hrecords
    rcases hcases with ⟨hnone, rfl⟩ | ⟨mod', hsome, rfl⟩
    . refine ⟨rfl, task, action, todo, _, htask, hphase, rfl, .inl ⟨?_, ?_⟩⟩
      . by_contra hne
        simp [hnone, hne] at hrecords
      . exact (tasks_setTask htask _ load).trans (if_pos rfl)
    . refine ⟨rfl, task, action, todo, _, htask, hphase, rfl, .inr ?_⟩
      by_cases hne : outcome = .exception
      . rw [hsome, if_pos hne] at hrecords
        contradiction
      . rw [hsome, if_neg hne] at hrecords
        refine ⟨hne, (tasks_setTask htask _ load).trans (if_pos rfl), ?_⟩
        show Function.update _ load _ load = _
        rw [Function.update_self, ← Option.some.inj hrecords]

theorem Step.reads (hstep : Step maxSize maxClean t a t') (P : Reads t) (R : Refs t)
    (I : Inv t.queryCache t.shared.loads)
    : Reads t' := by
  constructor
  case pending =>
    intro load task htask hheld hreading
    rcases hstep.reading_cases htask hreading with ⟨htask₀, -, hset⟩ | ⟨outcome, rfl⟩
      | ⟨callBack, held, -, -, htask', hheld', -, hcache⟩
    . rcases hstep.pending_kept (P.pending load task htask₀ hheld hreading)
        with h | ⟨load', task', rfl, htask', hchar, hreading'⟩
      . exact h
      . obtain rfl := I.outstanding_unique (outstanding_of_reading htask₀ hreading)
          (outstanding_of_reading htask' hreading') hchar.symm
        exact absurd rfl hset
    . obtain ⟨hcache, task₀, action, todo, query, htask₀, hphase₀, -, ⟨-, h⟩ | ⟨-, h, -⟩⟩ :=
        hstep.loadModule_cases R
      . obtain rfl := Option.some.inj (htask.symm.trans h)
        rw [hcache]
        exact P.pending load task₀ htask₀ hheld (by rw [hphase₀]; trivial)
      . obtain rfl := Option.some.inj (htask.symm.trans h)
        rw [hcache]
        exact P.pending load task₀ htask₀ hheld (by rw [hphase₀]; trivial)
    . have hnew : ¬ t.dataCache.Held task.charId := by
        rw [htask'] at hheld
        simp only at hheld
        rw [← hheld', hheld]
        simp
      rcases hcache.occupy_cases with ⟨h, -⟩ | ⟨-, h, -⟩
      . exact absurd h hnew
      . exact h
  case loading =>
    intro load task todo htask hphase
    rcases hstep.reading_cases htask (by rw [hphase]; trivial) with ⟨htask₀, hload, -⟩
      | ⟨outcome, rfl⟩ | ⟨callBack, held, -, -, htask', -, hobj, -⟩
    . rw [hstep.objs_reading R htask₀ (by rw [hphase]; trivial) hload]
      exact P.loading load task todo htask₀ hphase
    . obtain ⟨-, task₀, action, todo₀, query, htask₀, hphase₀, hquery, ⟨-, h⟩ | ⟨hne, h, hobj⟩⟩ :=
        hstep.loadModule_cases R
      . obtain rfl := Option.some.inj (htask.symm.trans h)
        contradiction
      . obtain rfl := Option.some.inj (htask.symm.trans h)
        obtain rfl := LoadPhase.loading.inj hphase
        obtain ⟨hactions, hqueries, htodo⟩ := P.loading load task₀ _ htask₀ hphase₀
        have hnodup : (task₀.queries.map Query.action ++ action :: todo₀).Nodup := by
          rw [hactions]
          decide
        obtain ⟨-, hnodup, hdisjoint⟩ := List.nodup_append.mp hnodup
        have haction : query.action = action := by rw [hquery]
        refine ⟨?_, ?_, ?_⟩
        . rw [← hactions]
          simp [haction]
        . intro query' hquery'
          rw [hobj, CharData.records_setRecords]
          rcases List.mem_append.mp hquery' with hquery' | hquery'
          . have hother : query'.action ≠ action :=
              hdisjoint _ (List.mem_map_of_mem hquery') _ List.mem_cons_self
            rw [if_neg hother]
            exact hqueries query' hquery'
          . obtain rfl := List.mem_singleton.mp hquery'
            rw [if_pos haction, htodo action List.mem_cons_self, hquery]
            exact ⟨hne, rfl⟩
        . intro action' haction'
          have hother : action' ≠ action := by
            rintro rfl
            exact (List.nodup_cons.mp hnodup).1 haction'
          rw [hobj, CharData.records_setRecords, if_neg hother]
          exact htodo action' (List.mem_cons_of_mem _ haction')
    . rw [htask'] at hphase ⊢
      obtain rfl := LoadPhase.loading.inj hphase
      rw [hobj]
      exact ⟨rfl, by simp, fun _ _ => rfl⟩
  case failed =>
    intro load task htask hphase
    rcases hstep.reading_cases htask (by rw [hphase]; trivial) with ⟨htask₀, -, -⟩
      | ⟨outcome, rfl⟩ | ⟨callBack, held, -, -, htask', -⟩
    . exact P.failed load task htask₀ hphase
    . obtain ⟨-, task₀, action, todo₀, query, -, -, rfl, ⟨rfl, h⟩ | ⟨-, h, -⟩⟩ :=
        hstep.loadModule_cases R
      . obtain rfl := Option.some.inj (htask.symm.trans h)
        exact ⟨_, List.mem_append_right _ List.mem_cons_self, rfl⟩
      . obtain rfl := Option.some.inj (htask.symm.trans h)
        contradiction
    . rw [htask'] at hphase
      contradiction

theorem Step.invoked_new (hstep : Step maxSize maxClean t a t') {i : Invocation}
    (hi : i ∈ t'.shared.loads.invoked)
    : i ∈ t.shared.loads.invoked ∨ i.load = none
        ∨ ∃ c ∈ t.shared.loads.completions, i.load = some c.load ∧ i.charData = c.charData := by
  cases hstep with
  | @refuse charId callBack _ _ _ =>
    replace hi : i ∈ (if callBack then t.shared.loads.invoked ++ [_] else t.shared.loads.invoked) := hi
    split at hi
    . rcases List.mem_append.mp hi with hi | hi
      . exact .inl hi
      . obtain rfl := List.mem_singleton.mp hi
        exact .inr (.inl rfl)
    . exact .inl hi
  | callback hcs _ _ _ =>
    rcases List.mem_append.mp hi with hi | hi
    . exact .inl hi
    . obtain rfl := List.mem_singleton.mp hi
      exact .inr (.inr ⟨_, hcs ▸ List.mem_cons_self, rfl, rfl⟩)
  | loadModule hload =>
    obtain ⟨task, action, todo, mod, -, -, -, ⟨-, rfl⟩ | ⟨mod', -, rfl⟩⟩ :=
      Shared.loadModule_cases hload
    . exact .inl hi
    . exact .inl hi
  | updateModuleData h =>
    rw [Shared.updateModuleData_loads h] at hi
    exact .inl hi
  | saveUpdates h =>
    rw [Shared.saveUpdates_loads h] at hi
    exact .inl hi
  | saveDeletes h =>
    rw [Shared.saveDeletes_loads h] at hi
    exact .inl hi
  | _ => exact .inl hi

structure HandsOn (t : Spec) (load : Nat) (charData : Option Nat) : Prop where
  settled : ∃ k, t.shared.loads.Settled load k
  installed : ∀ task charData', t.shared.loads.tasks[load]? = some task
    → task.phase = .installed charData' → charData' = charData
  completing : ∀ c ∈ t.shared.loads.completions, c.load = load → c.charData = charData
  invoked : ∀ i ∈ t.shared.loads.invoked, i.load = some load → i.charData = charData

theorem Step.handsOn {charData : Option Nat} (hstep : Step maxSize maxClean t a t')
    (H : HandsOn t load charData)
    : HandsOn t' load charData := by
  obtain ⟨k, task, htask, hchar, hphase⟩ := H.settled
  constructor
  case settled => exact ⟨k, hstep.settled ⟨task, htask, hchar, hphase⟩⟩
  case installed =>
    intro task' charData' htask' hphase'
    rcases hstep.installed_new htask' hphase' with ⟨task₀, htask₀, -, hphase₀⟩ | ⟨rfl, -⟩
    . exact H.installed task₀ charData' htask₀ hphase₀
    . cases hstep with
      | setData htask₀ hloaded _ =>
        obtain rfl := Option.some.inj (htask.symm.trans htask₀)
        exact absurd (reading_of_loaded hloaded) hphase
  case completing =>
    rintro c' hc' rfl
    rcases hstep.completion_new hc' with ⟨c, hc, hload, -, hdata⟩ | ⟨task₀, htask₀, -, hphase₀⟩
    . rw [← hdata]
      exact H.completing c hc hload
    . exact H.installed task₀ _ htask₀ hphase₀
  case invoked =>
    intro i hi hload
    rcases hstep.invoked_new hi with hi | hnone | ⟨c, hc, hc', hdata⟩
    . exact H.invoked i hi hload
    . rw [hnone] at hload
      contradiction
    . rw [hdata]
      exact H.completing c hc (Option.some.inj (hc'.symm.trans hload))

theorem handsOn_setData (hstep : Step maxSize maxClean t (.setData load) t')
    (I : Inv t.queryCache t.shared.loads) (htask : t.shared.loads.tasks[load]? = some task)
    (hpending : task.phase.Reading → t.dataCache.Pending task.charId)
    : ∃ charData, loaded load task.phase = some charData
        ∧ t'.shared.loads.tasks[load]?.map LoadTask.phase = some (.installed charData)
        ∧ (t'.dataCache.Held task.charId ↔ charData ≠ none) ∧ t'.shared.objs = t.shared.objs
        ∧ HandsOn t' load charData := by
  cases hstep with
  | @setData _ task' charData out dataCache htask₀ hloaded hcache =>
    obtain rfl := Option.some.inj (htask.symm.trans htask₀)
    obtain ⟨-, -, ⟨-, rfl, -, hheld⟩ | ⟨hnot, -⟩⟩ := hcache.setData_cases
    case inr => exact absurd (hpending (reading_of_loaded hloaded)) hnot
    have htask' : (t.shared.loads.install load task out).tasks[load]?
        = some { task with phase := .installed out } :=
      (tasks_setTask htask _ load).trans (if_pos rfl)
    have hreading := reading_of_loaded hloaded
    refine ⟨out, hloaded, congrArg (Option.map LoadTask.phase) htask', hheld, rfl,
      ⟨task.charId, _, htask', rfl, id⟩, ?_, ?_, ?_⟩
    . intro task' charData' h hphase'
      obtain rfl := Option.some.inj (htask'.symm.trans h)
      exact (LoadPhase.installed.inj hphase').symm
    . intro c hc hload
      obtain ⟨task₀, htask₀, hcalling, -⟩ := I.completion c hc
      rw [hload] at htask₀
      obtain rfl := Option.some.inj (htask.symm.trans htask₀)
      rw [hcalling] at hreading
      exact hreading.elim
    . intro i hi hload
      have hserved := I.unserved load task htask (by
        intro hcalling
        rw [hcalling] at hreading
        exact hreading) (by
        intro hdone
        rw [hdone] at hreading
        exact hreading)
      have hmem : i.call ∈ t.shared.loads.served load :=
        List.mem_map_of_mem (List.mem_filter.mpr ⟨hi, by simpa using hload⟩)
      rw [hserved] at hmem
      contradiction

end DataManager

end WzGame
