import WzGame.Db.DataManagerReads

/-!
This module contains how the changes of a module stay scheduled for a save, and the steps that lose
them.
-/

namespace WzGame

open DbRecord

theorem List.mem_set_or_eq {α : Type} {xs : List α} {i : Nat} {x x₀ y : α} (hx₀ : xs[i]? = some x₀)
    (hy : y ∈ xs)
    : y = x₀ ∨ y ∈ xs.set i x := by
  obtain ⟨j, hj⟩ := List.mem_iff_getElem?.mp hy
  by_cases hij : i = j
  . subst hij
    exact .inl (Option.some.inj (hj.symm.trans hx₀))
  . exact .inr (List.mem_of_getElem? ((List.getElem?_set_ne hij).trans hj))

namespace CharData

variable [DataUtil] {charData : CharData} {action : DBAction}

def Unsaved (charData : CharData) (action : DBAction) : Prop :=
  ∃ r ∈ charData.records action, r.stat ≠ .valid

theorem not_unsaved_saved {records : List DbRecord} (h : charData.records action = saved records)
    : ¬ charData.Unsaved action := by
  rintro ⟨r, hr, hstat⟩
  rw [h] at hr
  obtain ⟨r₀, -, -, rfl⟩ := mem_saved.mp hr
  exact hstat rfl

theorem unsaved_of_setRecords {action' : DBAction} {records : List DbRecord}
    (hrecords : ∀ r ∈ records, r.stat ≠ .valid → r ∈ charData.records action')
    (h : (charData.setRecords action' records).Unsaved action)
    : charData.Unsaved action := by
  obtain ⟨r, hr, hstat⟩ := h
  rw [records_setRecords] at hr
  split at hr
  . next heq =>
    subst heq
    exact ⟨r, hrecords r hr hstat, hstat⟩
  . exact ⟨r, hr, hstat⟩

end CharData

namespace DataManager

variable [DataUtil] {t t' : Spec} {a : Action} {d : Nat} {k : Int} {action : DBAction}

def Kept (t : Spec) (d : Nat) (action : DBAction) : Prop :=
  (∃ k, t.dataCache.Dirty k ∧ t.dataCache.data k = some d)
    ∨ ∃ task ∈ t.shared.saves.tasks, task.charData = d ∧ (action ∈ task.todo ∨ task.failed = true)

def Written (t t' : Spec) (d : Nat) (action : DBAction) : Prop :=
  (t'.shared.objs d).records action = saved ((t.shared.objs d).records action)
    ∧ t'.shared.saves.updates = (t.shared.saves.markWritten d action).updates

theorem kept_cache {maxSize maxClean : Int} {call : CacheOp Int Nat × CacheOut Nat}
    (hstep : LruMap.Step maxSize maxClean t.dataCache call t'.dataCache)
    (hcall : call.1 ≠ .getNextDirtyNodeAndClean)
    (htasks : t'.shared.saves.tasks = t.shared.saves.tasks) (h : Kept t d action)
    : Kept t' d action := by
  rcases h with ⟨k, hdirty, hdata⟩ | ⟨task, htask, h⟩
  . rcases hstep.dirty_kept hdirty hdata with h | rfl
    . exact .inl ⟨k, h⟩
    . exact absurd rfl hcall
  . exact .inr ⟨task, htasks ▸ htask, h⟩

theorem kept_set {i : Nat} {task₀ task₁ : SaveTask} (hcache : t'.dataCache = t.dataCache)
    (htask₀ : t.shared.saves.tasks[i]? = some task₀)
    (htasks : t'.shared.saves.tasks = t.shared.saves.tasks.set i task₁)
    (hnext : task₀.charData = d → action ∈ task₀.todo ∨ task₀.failed = true
      → (task₁.charData = d ∧ (action ∈ task₁.todo ∨ task₁.failed = true)) ∨ Written t t' d action)
    (h : Kept t d action)
    : Kept t' d action ∨ Written t t' d action := by
  unfold Kept
  rw [hcache, htasks]
  rcases h with h | ⟨task, htask, hd, h⟩
  . exact .inl (.inl h)
  . rcases List.mem_set_or_eq (x := task₁) htask₀ htask with rfl | hmem
    . rcases hnext hd h with h | h
      . exact .inl (.inr ⟨task₁, List.mem_set (Loads.Inv.lt_of_getElem? htask₀) task₁, h⟩)
      . exact .inr h
    . exact .inl (.inr ⟨task, hmem, hd, h⟩)

variable [SqlServer] {maxSize maxClean : Int}

theorem Step.setDirty_kept {p : Int} (hstep : Step maxSize maxClean t .setDirty t')
    (hcheck : t.shared.saves.check = .updated p d) (hdata : t.dataCache.data p = some d)
    : Kept t' d action := by
  cases hstep with
  | setDirty hcheck₀ hcache =>
    obtain ⟨rfl, rfl⟩ := Check.updated.inj (hcheck.symm.trans hcheck₀)
    obtain ⟨hsame, hdirty⟩ := hcache.setDirty_cases
    refine .inl ⟨p, (hdirty p).mpr (.inr ⟨rfl, ?_⟩), (hsame p).2.trans hdata⟩
    rw [hdata]
    simp

theorem Step.kept (haction : action ∈ CharData.entries) (h : Kept t d action)
    (hstep : Step maxSize maxClean t a t')
    : Kept t' d action ∨ Written t t' d action
        ∨ ∃ i task, a = .endSave i ∧ t.shared.saves.tasks[i]? = some task ∧ task.charData = d
          ∧ task.failed = true := by
  cases hstep with
  | startLoad _ _ _ hcache => exact .inl (kept_cache hcache (by simp) rfl h)
  | setData _ _ hcache => exact .inl (kept_cache hcache (by simp) rfl h)
  | saveHit _ hcache => exact .inl (kept_cache hcache (by simp) rfl h)
  | setDirty _ hcache => exact .inl (kept_cache hcache (by simp) rfl h)
  | loadModule hload =>
    obtain ⟨task, action', todo, mod, -, -, -, ⟨-, rfl⟩ | ⟨mod', -, rfl⟩⟩ :=
      Shared.loadModule_cases hload
    . exact .inl h
    . exact .inl h
  | updateModuleData hupdate =>
    obtain ⟨p, d', action', data, -, -, ⟨-, rfl⟩ | ⟨table, keys, rows, -, -,
      ⟨records, -, rfl⟩ | ⟨records, -, rfl⟩⟩⟩ := Shared.updateModuleData_cases hupdate
    . exact .inl h
    . exact .inl h
    . exact .inl h
  | tick htick =>
    unfold Saves.tick at htick
    split at htick
    . obtain rfl := Option.some.inj htick
      exact .inl h
    . contradiction
  | @saveNext left charData dataCache _ hcache =>
    left
    rcases h with ⟨k, hdirty, hdata⟩ | ⟨task, htask, h⟩
    . rcases hcache.dirty_kept hdirty hdata with h | h
      . exact .inl ⟨k, h⟩
      . obtain rfl : charData = d := by simpa using h
        exact .inr ⟨⟨charData, CharData.entries, false, false⟩, by simp [Saves.queueSave], rfl,
          .inl haction⟩
    . exact .inr ⟨task, List.mem_append_left _ htask, h⟩
  | saveUpdates hsave =>
    obtain ⟨d', action', todo, failed, table, keys, htask, -, -, ⟨-, rfl⟩ | ⟨db, -, rfl⟩⟩ :=
      Shared.saveUpdates_cases hsave
    . refine Or.imp_right Or.inl (kept_set rfl htask rfl ?_ h)
      exact fun hd _ => .inl ⟨hd, .inr rfl⟩
    . refine Or.imp_right Or.inl (kept_set rfl htask rfl ?_ h)
      exact fun hd hleft => .inl ⟨hd, hleft⟩
  | saveDeletes hsave =>
    obtain ⟨d', action', todo, failed, table, keys, htask, -, ⟨-, rfl⟩ | ⟨db, -, rfl⟩⟩ :=
      Shared.saveDeletes_cases hsave
    . refine Or.imp_right Or.inl (kept_set rfl htask rfl ?_ h)
      exact fun hd _ => .inl ⟨hd, .inr rfl⟩
    . refine Or.imp_right Or.inl (kept_set rfl htask rfl ?_ h)
      rintro rfl hleft
      by_cases ha : action = action'
      . subst ha
        exact .inr ⟨by simp [CharData.records_setRecords], rfl⟩
      . exact .inl ⟨rfl, by simpa [ha] using hleft⟩
  | @endSave i _ hfinish =>
    unfold Saves.finish at hfinish
    split at hfinish
    case h_2 => contradiction
    next d' inserted failed htask =>
    obtain rfl := Option.some.inj hfinish
    rcases h with h | ⟨task, hmem, hd, h⟩
    . exact .inl (.inl h)
    . obtain ⟨j, hj⟩ := List.mem_iff_getElem?.mp hmem
      by_cases hij : j = i
      . subst hij
        obtain rfl := Option.some.inj (htask.symm.trans hj)
        exact .inr (.inr ⟨j, _, rfl, htask, hd, by simpa using h⟩)
      . refine .inl (.inr ⟨task, ?_, hd, h⟩)
        exact List.mem_eraseIdx_iff_getElem?.mpr ⟨j, hij, hj⟩
  | _ => exact .inl h

theorem Step.unsaved_cases (hstep : Step maxSize maxClean t a t')
    (h : (t'.shared.objs d).Unsaved action)
    : (t.shared.objs d).Unsaved action
        ∨ a = .updateModuleData ∧ ∃ p, t.shared.saves.check.saving = some (p, d) := by
  have hupdate : ∀ {d' : Nat} {charData : CharData},
      (Function.update t.shared.objs d' charData d).Unsaved action
      → (d = d' → charData.Unsaved action → (t.shared.objs d).Unsaved action)
      → (t.shared.objs d).Unsaved action := by
    intro d' charData h hself
    by_cases hd : d = d'
    . subst hd
      rw [Function.update_self] at h
      exact hself rfl h
    . rwa [Function.update_of_ne hd] at h
  cases hstep with
  | startLoad _ _ _ _ =>
    refine .inl (hupdate h ?_)
    rintro - ⟨r, hr, -⟩
    contradiction
  | @loadModule load outcome _ hload =>
    obtain ⟨task, action', todo, mod, -, -, hmod, ⟨-, rfl⟩ | ⟨mod', hsome, rfl⟩⟩ :=
      Shared.loadModule_cases hload
    . exact .inl h
    . refine .inl (hupdate h ?_)
      rintro rfl hunsaved
      refine CharData.unsaved_of_setRecords ?_ hunsaved
      intro r hr hstat
      have hrecords := CharData.load_modules hmod t.shared.db outcome
      rw [hsome] at hrecords
      split at hrecords
      . contradiction
      . rw [Option.some.inj hrecords] at hr
        rcases List.mem_append.mp hr with hr | hr
        . exact hr
        . obtain ⟨row, -, rfl⟩ := List.mem_map.mp hr
          exact absurd rfl hstat
  | updateModuleData hupdate' =>
    obtain ⟨p, d', action', data, hcheck, -, hcases⟩ := Shared.updateModuleData_cases hupdate'
    by_cases hd : d = d'
    . subst hd
      exact .inr ⟨rfl, p, by rw [hcheck]; rfl⟩
    . rcases hcases with ⟨-, rfl⟩ | ⟨table, keys, rows, -, -, ⟨records, -, rfl⟩ | ⟨records, -, rfl⟩⟩
      . exact .inl h
      . exact .inl (hupdate h fun heq => absurd heq hd)
      . exact .inl (hupdate h fun heq => absurd heq hd)
  | saveUpdates hsave =>
    obtain ⟨d', action', todo, failed, table, keys, -, -, -, ⟨-, rfl⟩ | ⟨db, -, rfl⟩⟩ :=
      Shared.saveUpdates_cases hsave
    . exact .inl h
    . exact .inl h
  | saveDeletes hsave =>
    obtain ⟨d', action', todo, failed, table, keys, -, -, ⟨-, rfl⟩ | ⟨db, -, rfl⟩⟩ :=
      Shared.saveDeletes_cases hsave
    . exact .inl h
    . refine .inl (hupdate h ?_)
      rintro rfl hunsaved
      refine CharData.unsaved_of_setRecords ?_ hunsaved
      intro r hr hstat
      obtain ⟨r₀, -, -, rfl⟩ := mem_saved.mp hr
      exact absurd rfl hstat
  | _ => exact .inl h

end DataManager

end WzGame
