import WzGame.Db.Data.DbRecordCopies
import WzGame.Db.DataManagerLoadResults
import WzGame.Db.DataManagerUpdates
import WzGame.Db.StoredRows

/-!
This module contains what the stored rows of each module have to do with the `CharData` that have been
loaded from them: a new load becomes the one that is saved once nothing else has to be.
-/

namespace WzGame

open Loads DbRecord CharData MapObject

namespace Loads

theorem Step.charId_kept {Threw : Prop} {q q' : KeyQueues Nat} {v v' : Loads} {load : Nat}
    {task : LoadTask} (hstep : Step Threw q v q' v')
    (htask : v.tasks[load]? = some task)
    : ∃ task', v'.tasks[load]? = some task' ∧ task'.charId = task.charId := by
  have hset : ∀ {load₀ : Nat} {task₀ task₁ : LoadTask}, v.tasks[load₀]? = some task₀
      → task₁.charId = task₀.charId
      → ∃ task', (v.setTask load₀ task₁).tasks[load]? = some task'
        ∧ task'.charId = task.charId := by
    intro load₀ task₀ task₁ htask₀ hsame
    rw [tasks_setTask htask₀]
    split
    . next heq =>
      subst heq
      obtain rfl := Option.some.inj (htask.symm.trans htask₀)
      exact ⟨task₁, rfl, hsame⟩
    . exact ⟨task, htask, rfl⟩
  have hfinish : ∀ {c : Completion} {cs : List Completion},
      ∃ task', (v.finish c cs).tasks[load]? = some task'
        ∧ task'.charId = task.charId := by
    intro c cs
    rw [getElem?_finish, htask]
    refine ⟨_, rfl, ?_⟩
    split <;> rfl
  cases hstep with
  | start _ _ =>
    exact ⟨task, (List.getElem?_append_left (Inv.lt_of_getElem? htask)).trans htask, rfl⟩
  | load htask₀ _ _ _ _ hchar => exact hset htask₀ hchar
  | startCallbacks htask₀ _ _ => exact hset htask₀ rfl
  | throws _ _ => exact hfinish
  | finish _ _ _ => exact hfinish
  | _ => exact ⟨task, htask, rfl⟩

end Loads

namespace DataManager

variable [DataUtil] [SqlServer] {maxSize maxClean : Int} {t t' : Spec} {a : Action}
  {columns : DBAction → Finset String} {k : Int} {action : DBAction} {o : Option Nat} {d : Nat}

def copies (t : Spec) (k : Int) (action : DBAction) : Copies where
  stored := storedRows t.shared.db k action
  wanted := t.shared.wanted k action
  records d := if (t.shared.objs d).charId = k then (t.shared.objs d).records action else []

theorem records_copies (h : (t.shared.objs d).charId = k)
    : (copies t k action).records d = (t.shared.objs d).records action := if_pos h

theorem copies_setRecords (d₀ : Nat) (action₀ : DBAction) (records : List DbRecord)
    (hdb : t'.shared.db = t.shared.db) (hwanted : t'.shared.wanted = t.shared.wanted)
    (hobjs : t'.shared.objs
      = Function.update t.shared.objs d₀ ((t.shared.objs d₀).setRecords action₀ records))
    : copies t' k action
        = if (t.shared.objs d₀).charId = k ∧ action = action₀ then
            (copies t k action).setRecords d₀ records
          else
            copies t k action := by
  have hrecords : (copies t' k action).records
      = if (t.shared.objs d₀).charId = k ∧ action = action₀ then
          Function.update (copies t k action).records d₀ records
        else
          (copies t k action).records := by
    funext d
    unfold copies
    simp only [hobjs]
    by_cases hd : d = d₀
    . subst hd
      rw [Function.update_self, charId_setRecords, records_setRecords]
      by_cases hchar : (t.shared.objs d).charId = k
      . by_cases ha : action = action₀ <;> simp [hchar, ha]
      . simp [hchar]
    . rw [Function.update_of_ne hd]
      by_cases hsame : (t.shared.objs d₀).charId = k ∧ action = action₀
      . rw [if_pos hsame, Function.update_of_ne hd]
      . rw [if_neg hsame]
  have hrest : copies t' k action = { copies t k action with records := (copies t' k action).records } := by
    unfold copies
    rw [hdb, hwanted]
  rw [hrest, hrecords]
  split <;> rfl

theorem copies_init (d₀ : Nat) (charId : Int) (hdb : t'.shared.db = t.shared.db)
    (hwanted : t'.shared.wanted = t.shared.wanted)
    (hobjs : t'.shared.objs = Function.update t.shared.objs d₀ (.init charId))
    : copies t' k action = (copies t k action).setRecords d₀ [] := by
  have hrecords : (copies t' k action).records
      = Function.update (copies t k action).records d₀ [] := by
    funext d
    unfold copies
    simp only [hobjs]
    by_cases hd : d = d₀
    . subst hd
      rw [Function.update_self, Function.update_self]
      split <;> rfl
    . rw [Function.update_of_ne hd, Function.update_of_ne hd]
  have hrest : copies t' k action = { copies t k action with records := (copies t' k action).records } := by
    unfold copies
    rw [hdb, hwanted]
  rw [hrest, hrecords]
  rfl

theorem copies_updated (d₀ : Nat) (action₀ : DBAction) (rows : List MapObject)
    (records : List DbRecord) (check : Check)
    (hshared : t'.shared = t.shared.updated d₀ action₀ rows records check)
    : copies t' k action
        = if (t.shared.objs d₀).charId = k ∧ action = action₀ then
            (copies t k action).update d₀ rows records
          else
            copies t k action := by
  let t₁ : Spec := { t with
    shared.objs := Function.update t.shared.objs d₀ ((t.shared.objs d₀).setRecords action₀ records) }
  have hobjs : copies t₁ k action
      = if (t.shared.objs d₀).charId = k ∧ action = action₀ then
          (copies t k action).setRecords d₀ records
        else
          copies t k action := copies_setRecords d₀ action₀ records rfl rfl rfl
  have hwanted : t'.shared.wanted k action
      = if (t.shared.objs d₀).charId = k ∧ action = action₀ then rows else t.shared.wanted k action := by
    rw [hshared]
    show Function.update t.shared.wanted (t.shared.objs d₀).charId _ k action = _
    by_cases hchar : (t.shared.objs d₀).charId = k
    . subst hchar
      rw [Function.update_self, Function.update_apply]
      simp
    . rw [Function.update_of_ne (Ne.symm hchar)]
      simp [hchar]
  have hrest : copies t' k action = { copies t₁ k action with wanted := t'.shared.wanted k action } := by
    unfold copies
    rw [hshared]
    rfl
  rw [hrest, hobjs, hwanted]
  split <;> rfl

theorem copies_db (hobjs : t'.shared.objs = t.shared.objs) (hwanted : t'.shared.wanted = t.shared.wanted)
    : copies t' k action = { copies t k action with stored := storedRows t'.shared.db k action } := by
  unfold copies
  rw [hobjs, hwanted]

structure Owner (columns : DBAction → Finset String) (t : Spec) (k : Int) (action : DBAction)
    (o : Option Nat) : Prop where
  inv : Copies.Inv (columns action) (keyList action) "player_id" (.long k) o (copies t k action)
  born : ∀ d, o = some d → ∃ task : LoadTask, t.shared.loads.tasks[d]? = some task
    ∧ task.charId = k ∧ ∀ todo, task.phase = .loading todo → action ∉ todo
  inserted : ∀ task ∈ t.shared.saves.tasks, task.inserted = true → task.todo.head? = some action
    → (copies t k action).Inserted task.charData
  cached : ∀ d, t.dataCache.data k = some d → o = some d
  installed : ∀ (load : Nat) (task : LoadTask) d, t.shared.loads.tasks[load]? = some task → task.charId = k
    → task.phase = .installed (some d) → o = some d
  completing : ∀ c ∈ t.shared.loads.completions, c.charId = k → ∀ d, c.charData = some d
    → o = some d
  reading : ∀ (load : Nat) (task : LoadTask) todo, t.shared.loads.tasks[load]? = some task → task.charId = k
    → task.held = false → task.phase = .loading todo → action ∉ todo → o = some load

def Awaited (t : Spec) : Prop :=
  ∀ k, t.dataCache.Pending k → ∃ (load : Nat) (task : LoadTask),
    t.shared.loads.tasks[load]? = some task ∧ task.charId = k ∧ task.held = false
      ∧ task.phase.Reading

omit [SqlServer] in
theorem held_of_pending (V : ReadsInv t) (A : Awaited t) {load : Nat} {task : LoadTask}
    (htask : t.shared.loads.tasks[load]? = some task) (hreading : task.phase.Reading)
    (hpending : t.dataCache.Pending task.charId)
    : task.held = false := by
  obtain ⟨load', task', htask', hchar, hheld, hreading'⟩ := A _ hpending
  obtain rfl := V.inv.outstanding_unique (outstanding_of_reading htask hreading)
    (outstanding_of_reading htask' hreading') hchar.symm
  obtain rfl := Option.some.inj (htask.symm.trans htask')
  exact hheld

theorem Step.owner_cached (hstep : Step maxSize maxClean t a t') (V : ReadsInv t) (A : Awaited t)
    (O : Owner columns t k action o) (hdata : t'.dataCache.data k = some d)
    : o = some d := by
  rcases hstep.data_new hdata with h | ⟨hpending, rfl, task, htask, rfl, hphase⟩
  . exact O.cached d h
  . have hheld := held_of_pending V A htask (by rw [hphase]; trivial) hpending
    exact O.reading d task [] htask rfl hheld hphase List.not_mem_nil

theorem Step.owner_kept (hstep : Step maxSize maxClean t a t') (V : ReadsInv t) (A : Awaited t)
    (haction : action ∈ entries) (O : Owner columns t k action o)
    (hinv : Copies.Inv (columns action) (keyList action) "player_id" (.long k) o
      (copies t' k action))
    (hinserted : ∀ task ∈ t'.shared.saves.tasks, task.inserted = true
      → task.todo.head? = some action → (copies t' k action).Inserted task.charData)
    (hload : ∀ load outcome task todo, a = .loadModule load outcome
      → t.shared.loads.tasks[load]? = some task → task.charId = k → task.held = false
      → task.phase ≠ .loading (action :: todo))
    : Owner columns t' k action o := by
  constructor
  case inv => exact hinv
  case born =>
    intro d hd
    obtain ⟨task, htask, hchar, hread⟩ := O.born d hd
    obtain ⟨task', htask', hsame⟩ := hstep.loads.charId_kept htask
    refine ⟨task', htask', hsame.trans hchar, ?_⟩
    intro todo hphase
    rcases hstep.reading_cases htask' (by rw [hphase]; trivial) with ⟨h, -⟩ | ⟨outcome, rfl⟩
      | ⟨-, -, -, hnew, -⟩
    . obtain rfl := Option.some.inj (htask.symm.trans h)
      exact hread todo hphase
    . obtain ⟨-, task₀, action₀, todo₀, query, htask₀, hphase₀, -, ⟨-, h⟩ | ⟨-, h, -⟩⟩ :=
        hstep.loadModule_cases V.refs
      . obtain rfl := Option.some.inj (htask'.symm.trans h)
        contradiction
      . obtain rfl := Option.some.inj (htask'.symm.trans h)
        obtain rfl := LoadPhase.loading.inj hphase
        obtain rfl := Option.some.inj (htask.symm.trans htask₀)
        exact fun hmem => hread _ hphase₀ (List.mem_cons_of_mem _ hmem)
    . have hlt := Inv.lt_of_getElem? htask
      omega
  case inserted => exact hinserted
  case cached => exact fun d hdata => hstep.owner_cached V A O hdata
  case installed =>
    intro load task d htask hchar hphase
    rcases hstep.installed_new htask hphase with ⟨task₀, htask₀, hchar₀, hphase₀⟩ | ⟨-, hdata⟩
    . exact O.installed load task₀ d htask₀ (hchar₀.trans hchar) hphase₀
    . exact hstep.owner_cached V A O (hchar ▸ hdata d rfl)
  case completing =>
    intro c hc hchar d hd
    rcases hstep.completion_new hc with ⟨c₀, hc₀, -, hchar₀, hdata₀⟩ | ⟨task, htask, hchar', hphase⟩
    . exact O.completing c₀ hc₀ (hchar₀.trans hchar) d (hdata₀.trans hd)
    . rw [hd] at hphase
      exact O.installed c.load task d htask (hchar'.trans hchar) hphase
  case reading =>
    intro load task todo htask hchar hheld hphase hread
    rcases hstep.reading_cases htask (by rw [hphase]; trivial) with ⟨h, -⟩ | ⟨outcome, rfl⟩
      | ⟨-, held, -, -, hnew, -⟩
    . exact O.reading load task todo h hchar hheld hphase hread
    . obtain ⟨-, task₀, action₀, todo₀, query, htask₀, hphase₀, -, ⟨-, h⟩ | ⟨-, h, -⟩⟩ :=
        hstep.loadModule_cases V.refs
      . obtain rfl := Option.some.inj (htask.symm.trans h)
        contradiction
      . obtain rfl := Option.some.inj (htask.symm.trans h)
        obtain rfl := LoadPhase.loading.inj hphase
        refine O.reading load task₀ _ htask₀ hchar hheld hphase₀ ?_
        intro hmem
        rcases List.mem_cons.mp hmem with rfl | hmem
        . exact hload load outcome task₀ _ rfl htask₀ hchar hheld hphase₀
        . exact hread hmem
    . rw [hnew] at hphase
      obtain rfl := LoadPhase.loading.inj hphase
      exact absurd haction hread

theorem Step.inserted_new (hstep : Step maxSize maxClean t a t') {task' : SaveTask}
    (hmem : task' ∈ t'.shared.saves.tasks) (hinserted : task'.inserted = true)
    : task' ∈ t.shared.saves.tasks
        ∨ ∃ i succeeds task, a = .saveUpdates i succeeds ∧ t.shared.saves.tasks[i]? = some task
          ∧ task' = { task with inserted := true } := by
  cases hstep with
  | loadModule hload =>
    obtain ⟨task, action, todo, mod, -, -, -, ⟨-, rfl⟩ | ⟨mod', -, rfl⟩⟩ :=
      Shared.loadModule_cases hload
    . exact .inl hmem
    . exact .inl hmem
  | updateModuleData hupdate =>
    obtain ⟨p, d, action, data, -, -, ⟨-, rfl⟩ | ⟨table, keys, rows, -, -,
      ⟨records, -, rfl⟩ | ⟨records, -, rfl⟩⟩⟩ := Shared.updateModuleData_cases hupdate
    . exact .inl hmem
    . exact .inl hmem
    . exact .inl hmem
  | tick htick =>
    unfold Saves.tick at htick
    split at htick
    . obtain rfl := Option.some.inj htick
      exact .inl hmem
    . contradiction
  | saveNext _ _ =>
    rcases List.mem_append.mp hmem with hmem | hmem
    . exact .inl hmem
    . obtain rfl := List.mem_singleton.mp hmem
      contradiction
  | saveUpdates hsave =>
    obtain ⟨d, action, todo, failed, table, keys, htask, -, -, ⟨-, rfl⟩ | ⟨db, -, rfl⟩⟩ :=
      Shared.saveUpdates_cases hsave
    . rcases List.mem_or_eq_of_mem_set hmem with hmem | rfl
      . exact .inl hmem
      . contradiction
    . rcases List.mem_or_eq_of_mem_set hmem with hmem | rfl
      . exact .inl hmem
      . exact .inr ⟨_, _, _, rfl, htask, rfl⟩
  | saveDeletes hsave =>
    obtain ⟨d, action, todo, failed, table, keys, htask, -, ⟨-, rfl⟩ | ⟨db, -, rfl⟩⟩ :=
      Shared.saveDeletes_cases hsave
    . rcases List.mem_or_eq_of_mem_set hmem with hmem | rfl
      . exact .inl hmem
      . contradiction
    . rcases List.mem_or_eq_of_mem_set hmem with hmem | rfl
      . exact .inl hmem
      . contradiction
  | endSave hfinish =>
    unfold Saves.finish at hfinish
    split at hfinish
    . obtain rfl := Option.some.inj hfinish
      exact .inl (List.mem_of_mem_eraseIdx hmem)
    . contradiction
  | _ => exact .inl hmem

theorem Step.reading_kept (hstep : Step maxSize maxClean t a t')
    (I : Loads.Inv t.queryCache t.shared.loads) {load : Nat} {task : LoadTask}
    (htask : t.shared.loads.tasks[load]? = some task) (hreading : task.phase.Reading)
    (hne : a ≠ .setData load)
    : ∃ task', t'.shared.loads.tasks[load]? = some task' ∧ task'.charId = task.charId
        ∧ task'.held = task.held ∧ task'.phase.Reading := by
  have hset : ∀ {load₀ : Nat} {task₀ task₁ : LoadTask}, t.shared.loads.tasks[load₀]? = some task₀
      → (load = load₀ → task₁.charId = task₀.charId ∧ task₁.held = task₀.held ∧ task₁.phase.Reading)
      → ∃ task', (t.shared.loads.setTask load₀ task₁).tasks[load]? = some task'
        ∧ task'.charId = task.charId ∧ task'.held = task.held ∧ task'.phase.Reading := by
    intro load₀ task₀ task₁ htask₀ hsame
    rw [tasks_setTask htask₀]
    split
    . next heq =>
      subst heq
      obtain rfl := Option.some.inj (htask.symm.trans htask₀)
      exact ⟨task₁, rfl, hsame rfl⟩
    . exact ⟨task, htask, rfl, rfl, hreading⟩
  have hfinish : ∀ {c : Completion} {cs cs' : List Completion}, t.shared.loads.completions = c :: cs
      → ∃ task', (t.shared.loads.finish c cs').tasks[load]? = some task'
        ∧ task'.charId = task.charId ∧ task'.held = task.held ∧ task'.phase.Reading := by
    intro c cs cs' hcs
    obtain ⟨task₀, htask₀, hcalling, -⟩ := I.completion c (hcs ▸ List.mem_cons_self)
    have hother : c.load ≠ load := by
      rintro rfl
      obtain rfl := Option.some.inj (htask.symm.trans htask₀)
      rw [hcalling] at hreading
      exact hreading
    rw [getElem?_finish, htask, Option.map_some, if_neg hother]
    exact ⟨task, rfl, rfl, rfl, hreading⟩
  cases hstep with
  | startLoad _ _ _ _ =>
    exact ⟨task, (List.getElem?_append_left (Loads.Inv.lt_of_getElem? htask)).trans htask, rfl, rfl,
      hreading⟩
  | loadModule hload =>
    obtain ⟨task₀, action, todo, mod, htask₀, -, -, ⟨-, rfl⟩ | ⟨mod', -, rfl⟩⟩ :=
      Shared.loadModule_cases hload
    . exact hset htask₀ fun _ => ⟨rfl, rfl, trivial⟩
    . exact hset htask₀ fun _ => ⟨rfl, rfl, trivial⟩
  | setData htask₀ _ _ =>
    refine hset htask₀ ?_
    rintro rfl
    exact absurd rfl hne
  | startCallbacks htask₀ hphase _ =>
    refine hset htask₀ ?_
    rintro rfl
    obtain rfl := Option.some.inj (htask.symm.trans htask₀)
    rw [hphase] at hreading
    exact hreading.elim
  | throws hcs _ _ => exact hfinish hcs
  | deleteKey hcs _ _ => exact hfinish hcs
  | updateModuleData h =>
    rw [Shared.updateModuleData_loads h]
    exact ⟨task, htask, rfl, rfl, hreading⟩
  | saveUpdates h =>
    rw [Shared.saveUpdates_loads h]
    exact ⟨task, htask, rfl, rfl, hreading⟩
  | saveDeletes h =>
    rw [Shared.saveDeletes_loads h]
    exact ⟨task, htask, rfl, rfl, hreading⟩
  | _ => exact ⟨task, htask, rfl, rfl, hreading⟩

theorem Step.awaited (hstep : Step maxSize maxClean t a t')
    (I : Loads.Inv t.queryCache t.shared.loads) (A : Awaited t)
    : Awaited t' := by
  intro k hpending
  have hkept : t.dataCache.Pending k
      → (∀ (load : Nat) (task : LoadTask), a = .setData load → t.shared.loads.tasks[load]? = some task
        → task.charId ≠ k)
      → ∃ (load : Nat) (task : LoadTask), t'.shared.loads.tasks[load]? = some task
        ∧ task.charId = k ∧ task.held = false ∧ task.phase.Reading := by
    intro hpending hother
    obtain ⟨load, task, htask, hchar, hheld, hreading⟩ := A k hpending
    obtain ⟨task', htask', hchar', hheld', hreading'⟩ := hstep.reading_kept I htask hreading
      fun heq => hother load task heq htask hchar
    exact ⟨load, task', htask', hchar'.trans hchar, hheld'.trans hheld, hreading'⟩
  cases hstep with
  | @startLoad charId callBack held dataCache hunlocked hqueue hheld hcache =>
    rcases hcache.pending_new hpending with h | ⟨hnew, hcall⟩
    . exact hkept h (by simp)
    . obtain rfl : charId = k := by simpa using hcall
      refine ⟨t.shared.loads.tasks.length, ⟨charId, .loading entries, held, []⟩, ?_, rfl, ?_, trivial⟩
      . exact List.getElem?_concat_length
      . simpa [hnew] using hheld
  | @setData load task charData out dataCache htask hloaded hcache =>
    have hother : task.charId ≠ k := by
      rintro rfl
      rcases hcache.setData_cases.2.2 with ⟨-, -, hdata, hheld⟩ | ⟨hnot, -, hsame⟩
      . exact hheld.mp hpending.1 (hdata.symm.trans hpending.2)
      . exact hnot (hsame ▸ hpending)
    rcases hcache.pending_new hpending with h | ⟨-, hcall⟩
    . refine hkept h ?_
      intro load' task' heq htask'
      obtain rfl := Action.setData.inj heq
      obtain rfl := Option.some.inj (htask.symm.trans htask')
      exact hother
    . simp at hcall
  | saveHit _ hcache =>
    rcases hcache.pending_new hpending with h | ⟨-, hcall⟩
    . exact hkept h (by simp)
    . simp at hcall
  | setDirty _ hcache =>
    rcases hcache.pending_new hpending with h | ⟨-, hcall⟩
    . exact hkept h (by simp)
    . simp at hcall
  | saveNext _ hcache =>
    rcases hcache.pending_new hpending with h | ⟨-, hcall⟩
    . exact hkept h (by simp)
    . simp at hcall
  | _ => exact hkept hpending (by simp)

theorem Step.copies_load {load : Nat}
    (hstep : Step maxSize maxClean t (.loadModule load .success) t') (R : Refs t)
    : ∃ task action₀ todo, t.shared.loads.tasks[load]? = some task
        ∧ task.phase = .loading (action₀ :: todo) ∧ t'.shared.saves = t.shared.saves
        ∧ t'.dataCache = t.dataCache
        ∧ t'.shared.loads.tasks[load]?.map LoadTask.phase = some (.loading todo)
        ∧ ∀ k action, copies t' k action
          = if task.charId = k ∧ action = action₀ then (copies t k action).read load
            else copies t k action := by
  cases hstep with
  | loadModule hload =>
    obtain ⟨task, action₀, todo, mod, htask, hphase, hmod, hcases⟩ := Shared.loadModule_cases hload
    have hrecords := CharData.load_modules hmod t.shared.db .success
    rw [R.charId load task htask] at hrecords
    rcases hcases with ⟨hnone, rfl⟩ | ⟨mod', hsome, rfl⟩
    . rw [hnone] at hrecords
      contradiction
    . rw [hsome] at hrecords
      replace hrecords : mod'.records = (t.shared.objs load).records action₀
          ++ (storedRows t.shared.db task.charId action₀).map ofData := Option.some.inj hrecords
      refine ⟨task, action₀, todo, htask, hphase, rfl, rfl, ?_, ?_⟩
      . exact congrArg (Option.map LoadTask.phase) ((tasks_setTask htask _ load).trans (if_pos rfl))
      . intro k action
        refine Eq.trans (copies_setRecords (t := t) load action₀ mod'.records rfl rfl rfl) ?_
        rw [R.charId load task htask]
        split
        . next heq =>
          obtain ⟨rfl, rfl⟩ := heq
          unfold Copies.read
          rw [records_copies (R.charId load task htask), hrecords]
          rfl
        . rfl

theorem Step.owner_read {load : Nat} {task : LoadTask} {todo : List DBAction}
    (hstep : Step maxSize maxClean t (.loadModule load .success) t') (V : ReadsInv t)
    (O : Owner columns t k action o) (htask : t.shared.loads.tasks[load]? = some task)
    (hchar : task.charId = k) (hheld : task.held = false) (hphase : task.phase = .loading (action :: todo))
    (hvalid : ∀ d, o = some d → Copies.Valid ((copies t k action).records d))
    : Owner columns t' k action (some load) := by
  have hreading : task.phase.Reading := by rw [hphase]; trivial
  have hout := outstanding_of_reading htask hreading
  obtain ⟨task₀, action₀, todo₀, htask₀, hphase₀, hsaves, hcache, hphase', hcopies⟩ :=
    hstep.copies_load V.refs
  obtain rfl := Option.some.inj (htask.symm.trans htask₀)
  obtain ⟨rfl, rfl⟩ := List.cons.inj (LoadPhase.loading.inj (hphase.symm.trans hphase₀))
  replace hcopies := (hcopies k action).trans (if_pos ⟨hchar, rfl⟩)
  obtain ⟨hactions, -, htodo⟩ := V.reads.loading load task _ htask hphase
  have hempty : (copies t k action).records load = [] := by
    rw [records_copies ((V.refs.charId load task htask).trans hchar)]
    exact htodo action List.mem_cons_self
  have hinv := O.inv.read hvalid hempty
  -- the player has no other load that is on its way
  have hunique : ∀ {load' : Nat} {task' : LoadTask}, t.shared.loads.Outstanding load' task'
      → task'.charId = k → load' = load ∧ task'.phase = task.phase := by
    intro load' task' hout' hchar'
    obtain rfl := V.inv.outstanding_unique hout' hout (hchar'.trans hchar.symm)
    obtain rfl := Option.some.inj (htask.symm.trans hout'.1)
    exact ⟨rfl, rfl⟩
  constructor
  case inv =>
    rw [hcopies]
    exact hinv
  case born =>
    intro d hd
    obtain rfl := Option.some.inj hd
    obtain ⟨task', htask', hchar'⟩ := hstep.loads.charId_kept htask
    refine ⟨task', htask', hchar'.trans hchar, ?_⟩
    intro todo' htodo'
    rw [htask', Option.map_some, htodo'] at hphase'
    obtain rfl := LoadPhase.loading.inj (Option.some.inj hphase')
    have hnodup : (task.queries.map Query.action ++ action :: todo').Nodup := by
      rw [hactions]
      decide
    exact (List.nodup_cons.mp (List.nodup_append.mp hnodup).2.1).1
  case inserted =>
    intro save hsave hinserted hhead
    rw [hsaves] at hsave
    rw [hcopies]
    by_cases hd : (some load : Option Nat) = some save.charData
    . apply Copies.inserted_of_valid
      obtain rfl := Option.some.inj hd
      unfold Copies.read
      rw [Copies.records_setRecords, if_pos rfl, hempty]
      exact Copies.valid_ofData _
    . exact Copies.inserted_of_valid (hinv.valid _ hd)
  case cached =>
    intro d hdata
    rw [hcache] at hdata
    have hpending := V.reads.pending load task htask hheld hreading
    rw [hchar] at hpending
    rw [hpending.2] at hdata
    contradiction
  case installed =>
    intro load' task' d htask' hchar' hphase''
    rcases hstep.installed_new htask' hphase'' with ⟨task₁, htask₁, hchar₁, hphase₁⟩ | ⟨hset, -⟩
    . obtain ⟨-, hsame⟩ := hunique ⟨htask₁, by simp [hphase₁]⟩ (hchar₁.trans hchar')
      rw [hphase₁, hphase] at hsame
      contradiction
    . contradiction
  case completing =>
    intro c hc hchar' d hd
    rcases hstep.completion_new hc with ⟨c₀, hc₀, -, hchar₀, -⟩ | ⟨task₁, htask₁, hchar₁, hphase₁⟩
    . obtain ⟨task₁, hout₁, hcalling, hchar₁⟩ := V.inv.outstanding_completion hc₀
      obtain ⟨-, hsame⟩ := hunique hout₁ (hchar₁.trans (hchar₀.trans hchar'))
      rw [hcalling, hphase] at hsame
      contradiction
    . obtain ⟨-, hsame⟩ := hunique ⟨htask₁, by simp [hphase₁]⟩ (hchar₁.trans hchar')
      rw [hphase₁, hphase] at hsame
      contradiction
  case reading =>
    intro load' task' todo' htask' hchar' _ hphase'' _
    have hreading' : task'.phase.Reading := by rw [hphase'']; trivial
    rcases hstep.reading_cases htask' hreading' with ⟨htask₁, -⟩ | ⟨outcome, heq⟩ | ⟨_, _, heq, -⟩
    . obtain ⟨rfl, -⟩ := hunique (outstanding_of_reading htask₁ hreading') hchar'
      rfl
    . rw [(Action.loadModule.inj heq).1]
    . contradiction

structure Supplies (columns : DBAction → Finset String) (charData : CharData) (action : DBAction)
    (rows : List MapObject) : Prop where
  fits : ∀ row ∈ rows,
    DBUtil.Fits (columns action) (keyList action) "player_id" (.long charData.charId) row
  distinct : Distinct (keyList action) rows
  agree : Agree (keyList action) (rows ++ (charData.records action).map data)
  keeps : ∀ row ∈ rows, ∀ r ∈ charData.records action, Keeps (keyList action) row r
    → r.stat ≠ .delete ∧ r.data = row

/--
The condition of a step: a load for which there has been made room does not read a module that a
queued save has still to write, and an update supplies rows of the module.
-/
def ReadsSaved (columns : DBAction → Finset String) (s : Shared) : Action → Prop
  | .loadModule load _ => ∀ (task : LoadTask) action todo, s.loads.tasks[load]? = some task
    → task.held = false → task.phase = .loading (action :: todo)
    → ∀ save ∈ s.saves.tasks, (s.objs save.charData).charId = task.charId
      → ¬ (s.objs save.charData).Unsaved action
  | .updateModuleData => ∀ p d action data rows, s.saves.check = .queried p d action data
    → Shared.suppliedRows (s.objs d).charId action data = some rows
    → Supplies columns (s.objs d) action rows
  | _ => True

structure CopiesInv (columns : DBAction → Finset String) (t : Spec) : Prop where
  reads : ReadsInv t
  updates : UpdatesInv t
  awaited : Awaited t
  kept : ∀ d action, action ∈ entries → (t.shared.objs d).Unsaved action
    → Kept t d action ∨ ∃ p, t.shared.saves.check.saving = some (p, d)
  owned : ∀ k action, action ∈ entries → ∃ o, Owner columns t k action o

def Loadable (columns : DBAction → Finset String) (db : Database) : Prop :=
  ∀ k action, action ∈ entries
    → (∀ row ∈ storedRows db k action,
        DBUtil.Fits (columns action) (keyList action) "player_id" (.long k) row)
      ∧ ((storedRows db k action).map (DBUtil.sqlKey (keyList action))).Nodup
      ∧ Distinct (keyList action) (storedRows db k action)

theorem copiesInv_initial {db : Database} (hdb : Loadable columns db)
    : CopiesInv columns (.initial db) := by
  constructor
  case reads => exact readsInv_initial
  case updates => exact updatesInv_initial
  case awaited =>
    rintro k ⟨hheld, -⟩
    exact absurd rfl hheld
  case kept =>
    rintro d action - ⟨r, hr, -⟩
    contradiction
  case owned =>
    intro k action haction
    obtain ⟨hfits, hnodup, hdistinct⟩ := hdb k action haction
    have hids := (distinct_nodup fun row hrow => (hfits row hrow).keys).mp hdistinct
    have hrecords : ∀ d, (copies (.initial db) k action).records d = [] := by
      intro d
      show (if (0 : Int) = k then ([] : List DbRecord) else []) = []
      split <;> rfl
    refine ⟨none, ⟨?_, fun _ => ⟨hfits, hnodup, hids, .refl _⟩, by simp⟩, by simp, ?_, ?_, ?_, ?_, ?_⟩
    . intro d _ r hr
      rw [hrecords] at hr
      contradiction
    . intro task htask
      contradiction
    . intro d hdata
      contradiction
    . intro load task d htask
      contradiction
    . intro c hc
      contradiction
    . intro load task todo htask
      contradiction

theorem Step.kept_unsaved (hstep : Step maxSize maxClean t a t') (V : CopiesInv columns t)
    (hspares : SparesUpdates maxSize maxClean t a) (haction : action ∈ entries)
    (hunsaved : (t'.shared.objs d).Unsaved action)
    : Kept t' d action ∨ ∃ p, t'.shared.saves.check.saving = some (p, d) := by
  have hsaving : ∀ {p}, t.shared.saves.check.saving = some (p, d)
      → Kept t' d action ∨ ∃ p, t'.shared.saves.check.saving = some (p, d) := by
    intro p hsaving
    rcases hstep.saving_kept hsaving with h | ⟨rfl, hcheck⟩ | ⟨rfl, action', data, hcheck, hthrew⟩
    . exact .inr ⟨p, h⟩
    . exact .inl (hstep.setDirty_kept hcheck (V.updates.saving p d hsaving))
    . rw [hspares p d action' data hcheck] at hthrew
      contradiction
  rcases hstep.unsaved_cases hunsaved with h | ⟨-, p, h⟩
  . rcases V.kept d action haction h with hkept | ⟨p, h⟩
    . rcases hstep.kept haction hkept with h | hwritten | ⟨i, task, -, htask, -, hfailed⟩
      . exact .inl h
      . exact absurd hunsaved (not_unsaved_saved hwritten.1)
      . rw [V.updates.succeeded task (List.mem_of_getElem? htask)] at hfailed
        contradiction
    . exact hsaving h
  . exact hsaving h

omit [SqlServer] in
theorem settled_charId (R : Refs t) (h : t.shared.loads.Settled d k) : (t.shared.objs d).charId = k := by
  obtain ⟨task, htask, hchar, -⟩ := h
  exact (R.charId d task htask).trans hchar

theorem valid_of_pending (V : CopiesInv columns t) (haction : action ∈ entries)
    (hpending : t.dataCache.Pending k)
    (hsaved : ∀ save ∈ t.shared.saves.tasks, (t.shared.objs save.charData).charId = k
      → ¬ (t.shared.objs save.charData).Unsaved action)
    : Copies.Valid ((copies t k action).records d) := by
  intro r hr
  by_contra hstat
  by_cases hchar : (t.shared.objs d).charId = k
  . rw [records_copies hchar] at hr
    have hcached : ∀ k', t.dataCache.data k' = some d → False := by
      intro k' hdata
      obtain rfl := (settled_charId V.reads.refs (V.reads.refs.cached k' d hdata)).symm.trans hchar
      rw [hpending.2] at hdata
      contradiction
    rcases V.kept d action haction ⟨r, hr, hstat⟩ with (⟨k', -, hdata⟩ | ⟨save, hsave, rfl, -⟩)
      | ⟨p, hsaving⟩
    . exact hcached k' hdata
    . exact hsaved save hsave hchar ⟨r, hr, hstat⟩
    . exact hcached p (V.updates.saving p d hsaving)
  . simp [copies, hchar] at hr

theorem Step.owned_load {load : Nat} {outcome : QueryOutcome}
    (hstep : Step maxSize maxClean t (.loadModule load outcome) t') (V : CopiesInv columns t)
    (hsql : outcome = .success) (hsaved : ReadsSaved columns t.shared (.loadModule load outcome))
    (haction : action ∈ entries)
    : ∃ o, Owner columns t' k action o := by
  subst hsql
  obtain ⟨o, O⟩ := V.owned k action haction
  obtain ⟨task, action₀, todo, htask, hphase, hsaves, -, -, hcopies⟩ :=
    hstep.copies_load V.reads.refs
  replace hcopies := hcopies k action
  have hreading : task.phase.Reading := by rw [hphase]; trivial
  split at hcopies
  case isTrue heq =>
    obtain ⟨rfl, rfl⟩ := heq
    cases hheld : task.held with
    | false =>
      have hpending := V.reads.reads.pending load task htask hheld hreading
      exact ⟨some load, hstep.owner_read V.reads O htask rfl hheld hphase fun d _ =>
        valid_of_pending V haction hpending (hsaved task _ todo htask hheld hphase)⟩
    | true =>
      -- what the load has read is thrown away
      have hne : o ≠ some load := by
        intro ho
        obtain ⟨task', htask', -, hread⟩ := O.born load ho
        obtain rfl := Option.some.inj (htask.symm.trans htask')
        exact hread _ hphase List.mem_cons_self
      have hvalid : Copies.Valid ((copies t task.charId action).records load
          ++ (copies t task.charId action).stored.map ofData) :=
        Copies.valid_append (O.inv.valid load hne) (Copies.valid_ofData _)
      refine ⟨o, hstep.owner_kept V.reads V.awaited haction O ?_ ?_ ?_⟩
      . rw [hcopies]
        exact O.inv.setRecords hne hvalid
      . intro save hsave hinserted hhead
        rw [hsaves] at hsave
        rw [hcopies]
        exact Copies.inserted_setRecords hvalid (O.inserted save hsave hinserted hhead)
      . intro load' outcome' task' todo' heq htask' _ hheld' _
        obtain rfl := (Action.loadModule.inj heq).1
        obtain rfl := Option.some.inj (htask.symm.trans htask')
        rw [hheld] at hheld'
        contradiction
  case isFalse hother =>
    refine ⟨o, hstep.owner_kept V.reads V.awaited haction O ?_ ?_ ?_⟩
    . rw [hcopies]
      exact O.inv
    . intro save hsave hinserted hhead
      rw [hsaves] at hsave
      rw [hcopies]
      exact O.inserted save hsave hinserted hhead
    . intro load' outcome' task' todo' heq htask' hchar' _ hphase'
      obtain rfl := (Action.loadModule.inj heq).1
      obtain rfl := Option.some.inj (htask.symm.trans htask')
      exact hother ⟨hchar', (List.cons.inj (LoadPhase.loading.inj (hphase'.symm.trans hphase))).1⟩

theorem Step.owned_other (hstep : Step maxSize maxClean t a t') (V : CopiesInv columns t)
    (haction : action ∈ entries) (hcopies : copies t' k action = copies t k action)
    (hload : ∀ load outcome, a ≠ .loadModule load outcome)
    (hsave : ∀ i succeeds, a ≠ .saveUpdates i succeeds)
    : ∃ o, Owner columns t' k action o := by
  obtain ⟨o, O⟩ := V.owned k action haction
  refine ⟨o, hstep.owner_kept V.reads V.awaited haction O ?_ ?_ ?_⟩
  . rw [hcopies]
    exact O.inv
  . intro task htask hinserted hhead
    rcases hstep.inserted_new htask hinserted with h | ⟨i, succeeds, -, heq, -⟩
    . rw [hcopies]
      exact O.inserted task h hinserted hhead
    . exact absurd heq (hsave i succeeds)
  . intro load outcome task todo heq
    exact absurd heq (hload load outcome)

theorem Step.copies_start {charId : Int} {callBack : Bool}
    (hstep : Step maxSize maxClean t (.loadChar charId callBack) t') (k : Int) (action : DBAction)
    : t'.shared.saves = t.shared.saves
        ∧ (copies t' k action = copies t k action
          ∨ copies t' k action = (copies t k action).setRecords t.shared.loads.tasks.length []) := by
  cases hstep with
  | startLoad _ _ _ _ => exact ⟨rfl, .inr (copies_init _ charId rfl rfl rfl)⟩
  | _ => exact ⟨rfl, .inl rfl⟩

theorem Step.owned_start {charId : Int} {callBack : Bool}
    (hstep : Step maxSize maxClean t (.loadChar charId callBack) t') (V : CopiesInv columns t)
    (haction : action ∈ entries)
    : ∃ o, Owner columns t' k action o := by
  obtain ⟨hsaves, hsame | hcopies⟩ := hstep.copies_start k action
  . exact hstep.owned_other V haction hsame (by simp) (by simp)
  . obtain ⟨o, O⟩ := V.owned k action haction
    have hne : o ≠ some t.shared.loads.tasks.length := by
      intro ho
      obtain ⟨task, htask, -⟩ := O.born _ ho
      have hlt := Loads.Inv.lt_of_getElem? htask
      omega
    have hvalid : Copies.Valid ([] : List DbRecord) := fun r hr => absurd hr List.not_mem_nil
    refine ⟨o, hstep.owner_kept V.reads V.awaited haction O ?_ ?_ (by simp)⟩
    . rw [hcopies]
      exact O.inv.setRecords hne hvalid
    . intro task htask hinserted hhead
      rw [hsaves] at htask
      rw [hcopies]
      exact Copies.inserted_setRecords hvalid (O.inserted task htask hinserted hhead)

theorem Step.copies_update (hstep : Step maxSize maxClean t .updateModuleData t')
    : ∃ p d action₀ data, t.shared.saves.check = .queried p d action₀ data
        ∧ t.shared.saves.moduleLocked d action₀ = false
        ∧ t'.shared.saves.tasks = t.shared.saves.tasks
        ∧ ((∀ k action, copies t' k action = copies t k action)
          ∨ ∃ rows records, Shared.suppliedRows (t.shared.objs d).charId action₀ data = some rows
            ∧ (update ((t.shared.objs d).records action₀) (some rows) (keyList action₀) false
                = .ok records
              ∨ update ((t.shared.objs d).records action₀) (some rows) (keyList action₀) false
                = .error records)
            ∧ ∀ k action, copies t' k action
              = if (t.shared.objs d).charId = k ∧ action = action₀ then
                  (copies t k action).update d rows records
                else
                  copies t k action) := by
  cases hstep with
  | updateModuleData hupdate =>
    obtain ⟨p, d, action₀, data, hcheck, hunlocked, ⟨-, rfl⟩ | ⟨table, keys, rows, htables, hrows,
      ⟨records, hok, rfl⟩ | ⟨records, herror, rfl⟩⟩⟩ := Shared.updateModuleData_cases hupdate
    . exact ⟨p, d, action₀, data, hcheck, hunlocked, rfl, .inl fun _ _ => rfl⟩
    . rw [← keyList_eq htables] at hok
      exact ⟨p, d, action₀, data, hcheck, hunlocked, rfl, .inr ⟨rows, records, hrows, .inl hok,
        fun _ _ => copies_updated d action₀ rows records _ rfl⟩⟩
    . rw [← keyList_eq htables] at herror
      exact ⟨p, d, action₀, data, hcheck, hunlocked, rfl, .inr ⟨rows, records, hrows, .inr herror,
        fun _ _ => copies_updated d action₀ rows records _ rfl⟩⟩

theorem Step.owned_update (hstep : Step maxSize maxClean t .updateModuleData t')
    (V : CopiesInv columns t) (hsaved : ReadsSaved columns t.shared .updateModuleData)
    (haction : action ∈ entries)
    : ∃ o, Owner columns t' k action o := by
  obtain ⟨p, d, action₀, data, hcheck, hunlocked, htasks, hsame | ⟨rows, records, hrows, hres,
    hcopies⟩⟩ := hstep.copies_update
  . exact hstep.owned_other V haction (hsame k action) (by simp) (by simp)
  obtain ⟨o, O⟩ := V.owned k action haction
  have S := hsaved p d action₀ data rows hcheck hrows
  have hkeys : ∀ row ∈ rows, HasKeys (keyList action₀) row := fun row hrow => (S.fits row hrow).keys
  have hnodup := (distinct_nodup hkeys).mp S.distinct
  obtain ⟨records', hupdate, -⟩ := update_eq hkeys hnodup ((t.shared.objs d).records action₀)
  obtain rfl : records' = records := by
    rcases hres with hok | herror
    . exact Except.ok.inj (hupdate.symm.trans hok)
    . rw [hupdate] at herror
      contradiction
  have hsaving : t.shared.saves.check.saving = some (p, d) := by rw [hcheck]; rfl
  have hchar := settled_charId V.reads.refs (V.reads.refs.saving p d hsaving)
  rw [hchar] at hcopies
  replace hcopies := hcopies k action
  split at hcopies
  case isTrue heq =>
    obtain ⟨rfl, rfl⟩ := heq
    -- the player is in the cache, and with it the data that is being saved
    obtain rfl := O.cached d (V.updates.saving p d hsaving)
    have hrecords : (copies t p action).records d = (t.shared.objs d).records action :=
      records_copies hchar
    have hinv := O.inv.update (hchar ▸ S.fits) hnodup (hrecords.symm ▸ S.agree)
      (hrecords.symm ▸ S.keeps) (hrecords.symm ▸ hupdate)
    refine ⟨some d, hstep.owner_kept V.reads V.awaited haction O ?_ ?_ (by simp)⟩
    . rw [hcopies]
      exact hinv
    . intro task htask hinserted hhead
      rw [htasks] at htask
      rw [hcopies]
      have hne : (some d : Option Nat) ≠ some task.charData := by
        intro heq
        have hlocked : t.shared.saves.moduleLocked d action = true := by
          refine List.any_eq_true.mpr ⟨task, htask, ?_⟩
          simp [hinserted, hhead, Option.some.inj heq]
        rw [hunlocked] at hlocked
        contradiction
      exact Copies.inserted_of_valid (hinv.valid _ hne)
  case isFalse => exact hstep.owned_other V haction hcopies (by simp) (by simp)

theorem synced_or_valid (V : CopiesInv columns t) {action₀ : DBAction} (haction : action₀ ∈ entries)
    : Synced (columns action₀) (keyList action₀) "player_id" (.long (t.shared.objs d).charId)
          ((t.shared.objs d).records action₀)
          (storedRows t.shared.db (t.shared.objs d).charId action₀)
        ∨ Copies.Valid ((t.shared.objs d).records action₀) := by
  obtain ⟨o, O⟩ := V.owned (t.shared.objs d).charId action₀ haction
  rw [← records_copies rfl]
  by_cases hd : o = some d
  . exact .inl (O.inv.leads d hd).synced
  . exact .inr (O.inv.valid d hd)

theorem Step.copies_saveUpdates {i : Nat}
    (hstep : Step maxSize maxClean t (.saveUpdates i true) t') (V : CopiesInv columns t)
    (hlong : SqlServer.ComparesLongs)
    : ∃ d action₀ todo failed,
        t.shared.saves.tasks[i]? = some ⟨d, action₀ :: todo, false, failed⟩
        ∧ t'.shared.saves.tasks = t.shared.saves.tasks.set i ⟨d, action₀ :: todo, true, failed⟩
        ∧ ∀ k action, copies t' k action
          = if (t.shared.objs d).charId = k ∧ action = action₀ then
              (copies t k action).insert (keyList action) d
            else
              copies t k action := by
  cases hstep with
  | saveUpdates hsave =>
    obtain ⟨d, action₀, todo, failed, table, keys, htask, htables, -, ⟨hnone, -⟩ | ⟨db, hdb, rfl⟩⟩ :=
      Shared.saveUpdates_cases hsave
    . exact absurd hnone (DbRecord.saveUpdates_ne_none _ _ _ _)
    . refine ⟨d, action₀, todo, failed, htask, rfl, ?_⟩
      intro k action
      have haction₀ : action₀ ∈ entries := mem_entries.mpr (by simp [htables])
      have hrecords := synced_or_valid (d := d) V haction₀
      rw [keyList_eq htables] at hrecords
      obtain ⟨hown, hother⟩ := storedRows_saveUpdates hlong htables
        (hrecords.symm.imp_left Copies.Valid.updates_eq_nil) hdb
      refine Eq.trans (copies_db (t := t) rfl rfl) ?_
      split
      case isTrue heq =>
        obtain ⟨rfl, rfl⟩ := heq
        unfold Copies.insert
        rw [records_copies rfl, keyList_eq htables]
        exact congrArg (fun stored => { copies t _ action with stored := stored }) hown
      case isFalse hne =>
        exact congrArg (fun stored => { copies t k action with stored := stored })
          (hother k action fun heq => hne ⟨heq.1.symm, heq.2⟩)

theorem Step.owned_saveUpdates {i : Nat} {succeeds : Bool}
    (hstep : Step maxSize maxClean t (.saveUpdates i succeeds) t') (V : CopiesInv columns t)
    (hlong : SqlServer.ComparesLongs) (hsql : succeeds = true) (haction : action ∈ entries)
    : ∃ o, Owner columns t' k action o := by
  subst hsql
  obtain ⟨o, O⟩ := V.owned k action haction
  obtain ⟨d, action₀, todo, failed, htask, htasks, hcopies⟩ := hstep.copies_saveUpdates V hlong
  replace hcopies := hcopies k action
  split at hcopies
  case isTrue heq =>
    obtain ⟨rfl, rfl⟩ := heq
    obtain ⟨hinv, hnew, hold⟩ := O.inv.insert (d := d)
    refine ⟨o, hstep.owner_kept V.reads V.awaited haction O ?_ ?_ (by simp)⟩
    . rw [hcopies]
      exact hinv
    . intro task' htask' hinserted hhead
      rw [htasks] at htask'
      rw [hcopies]
      rcases List.mem_or_eq_of_mem_set htask' with htask' | rfl
      . exact hold _ (O.inserted task' htask' hinserted hhead)
      . exact hnew
  case isFalse hother =>
    refine ⟨o, hstep.owner_kept V.reads V.awaited haction O ?_ ?_ (by simp)⟩
    . rw [hcopies]
      exact O.inv
    . intro task' htask' hinserted hhead
      rw [htasks] at htask'
      rw [hcopies]
      rcases List.mem_or_eq_of_mem_set htask' with htask' | rfl
      . exact O.inserted task' htask' hinserted hhead
      . -- the module is one of another player
        obtain rfl : action₀ = action := by simpa using hhead
        have hne : (t.shared.objs d).charId ≠ k := fun hchar => hother ⟨hchar, rfl⟩
        apply Copies.inserted_of_valid
        intro r hr
        simp [copies, hne] at hr

theorem Step.copies_saveDeletes {i : Nat}
    (hstep : Step maxSize maxClean t (.saveDeletes i true) t') (V : CopiesInv columns t)
    (hlong : SqlServer.ComparesLongs)
    : ∃ d action₀ todo failed,
        t.shared.saves.tasks[i]? = some ⟨d, action₀ :: todo, true, failed⟩
        ∧ ∀ k action, copies t' k action
          = if (t.shared.objs d).charId = k ∧ action = action₀ then
              (copies t k action).remove (keyList action) d
            else
              copies t k action := by
  cases hstep with
  | saveDeletes hsave =>
    obtain ⟨d, action₀, todo, failed, table, keys, htask, htables, ⟨hnone, -⟩ | ⟨db, hdb, rfl⟩⟩ :=
      Shared.saveDeletes_cases hsave
    . exact absurd hnone (DbRecord.saveDeletes_ne_none _ _ _ _)
    . refine ⟨d, action₀, todo, failed, htask, ?_⟩
      intro k action
      have haction₀ : action₀ ∈ entries := mem_entries.mpr (by simp [htables])
      have hrecords := synced_or_valid (d := d) V haction₀
      rw [keyList_eq htables] at hrecords
      obtain ⟨hown, hother⟩ := storedRows_saveDeletes hlong htables
        (hrecords.symm.imp_left Copies.Valid.deletes_eq_nil) hdb
      let t₁ : Spec := { t with
        shared.objs := Function.update t.shared.objs d
          ((t.shared.objs d).setRecords action₀ (saved ((t.shared.objs d).records action₀))) }
      have hobjs : copies t₁ k action
          = if (t.shared.objs d).charId = k ∧ action = action₀ then
              (copies t k action).setRecords d (saved ((t.shared.objs d).records action₀))
            else
              copies t k action := copies_setRecords d action₀ _ rfl rfl rfl
      refine Eq.trans (copies_db (t := t₁) rfl rfl) ?_
      rw [hobjs]
      split
      case isTrue heq =>
        obtain ⟨rfl, rfl⟩ := heq
        unfold Copies.remove
        rw [records_copies rfl, keyList_eq htables]
        exact congrArg (fun stored => { (copies t _ action).setRecords d _ with stored := stored }) hown
      case isFalse hne =>
        exact congrArg (fun stored => { copies t k action with stored := stored })
          (hother k action fun heq => hne ⟨heq.1.symm, heq.2⟩)

theorem Step.owned_saveDeletes {i : Nat} {succeeds : Bool}
    (hstep : Step maxSize maxClean t (.saveDeletes i succeeds) t') (V : CopiesInv columns t)
    (hlong : SqlServer.ComparesLongs) (hsql : succeeds = true) (haction : action ∈ entries)
    : ∃ o, Owner columns t' k action o := by
  subst hsql
  obtain ⟨o, O⟩ := V.owned k action haction
  obtain ⟨d, action₀, todo, failed, htask, hcopies⟩ := hstep.copies_saveDeletes V hlong
  replace hcopies := hcopies k action
  split at hcopies
  case isTrue heq =>
    obtain ⟨rfl, rfl⟩ := heq
    obtain ⟨hinv, hold⟩ := O.inv.remove (O.inserted _ (List.mem_of_getElem? htask) rfl rfl)
    refine ⟨o, hstep.owner_kept V.reads V.awaited haction O ?_ ?_ (by simp)⟩
    . rw [hcopies]
      exact hinv
    . intro task' htask' hinserted hhead
      rw [hcopies]
      rcases hstep.inserted_new htask' hinserted with h | ⟨_, _, _, heq, -⟩
      . exact hold _ (O.inserted task' h hinserted hhead)
      . contradiction
  case isFalse => exact hstep.owned_other V haction hcopies (by simp) (by simp)

theorem Step.copiesInv (hstep : Step maxSize maxClean t a t') (V : CopiesInv columns t)
    (hlong : SqlServer.ComparesLongs) (hsql : SqlSucceeds a)
    (hspares : SparesUpdates maxSize maxClean t a) (hsaved : ReadsSaved columns t.shared a)
    : CopiesInv columns t' := by
  constructor
  case reads => exact hstep.readsInv V.reads
  case updates => exact hstep.updatesInv V.updates hsql hspares
  case awaited => exact hstep.awaited V.reads.inv V.awaited
  case kept => exact fun d action haction => hstep.kept_unsaved V hspares haction
  case owned =>
    intro k action haction
    cases hstep₀ : hstep with
    | startLoad _ _ _ _ => exact hstep.owned_start V haction
    | loadModule _ => exact hstep.owned_load V hsql hsaved haction
    | updateModuleData _ => exact hstep.owned_update V hsaved haction
    | saveUpdates _ => exact hstep.owned_saveUpdates V hlong hsql haction
    | saveDeletes _ => exact hstep.owned_saveDeletes V hlong hsql haction
    | tick htick =>
      unfold Saves.tick at htick
      split at htick
      . obtain rfl := Option.some.inj htick
        exact hstep.owned_other V haction rfl (by simp) (by simp)
      . contradiction
    | endSave hfinish =>
      unfold Saves.finish at hfinish
      split at hfinish
      . obtain rfl := Option.some.inj hfinish
        exact hstep.owned_other V haction rfl (by simp) (by simp)
      . contradiction
    | _ => exact hstep.owned_other V haction rfl (by simp) (by simp)

end DataManager

end WzGame
