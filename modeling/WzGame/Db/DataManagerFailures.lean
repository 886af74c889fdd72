import WzGame.Db.DataManagerLoadResults
import WzGame.Db.DataManagerQueues
import WzGame.Db.DataManagerUpdates

/-!
This module contains what becomes of a `CharData` in the cache when a save of it fails: its records
stay as they are, but nothing brings it back to the dirty list.
-/

namespace WzGame

open Runs

namespace DataManager

section property

variable [DataUtil]

/--
A `CharData` in the cache with a record that has still to be saved is dirty or has been queued for a
save, unless a `saveModule` call is working on it.
-/
def FailuresKept (s : DataManager (DbCache Nat) (MulSearch Nat)) : Prop :=
  ∀ k d action, s.dataCache.Holds k d → action ∈ CharData.entries
    → (s.shared.objs d).Unsaved action → (∀ p, s.shared.saves.check.saving ≠ some (p, d))
    → s.dataCache.HoldsDirty d ∨ ∃ task ∈ s.shared.saves.tasks, task.charData = d

/--
The condition of a step: a save that has failed does not end, nor does an update throw, as long as the
cache holds the `CharData` and nothing else is going to save it.
-/
def Rescheduled (s : DataManager (DbCache Nat) (MulSearch Nat)) : Action → Prop
  | .endSave i => ∀ task, s.shared.saves.tasks[i]? = some task → task.failed = true
    → (∃ k, s.dataCache.Holds k task.charData)
    → s.dataCache.HoldsDirty task.charData
      ∨ (∃ p, s.shared.saves.check.saving = some (p, task.charData))
      ∨ ∃ j task', j ≠ i ∧ s.shared.saves.tasks[j]? = some task' ∧ task'.charData = task.charData
  | .updateModuleData => ∀ p d action data, s.shared.saves.check = .queried p d action data
    → ((s.shared.objs d).updateModuleData action data).2 = true → (∃ k, s.dataCache.Holds k d)
    → s.dataCache.HoldsDirty d
  | _ => True

end property

section step

variable [DataUtil] [SqlServer] {maxSize maxClean : Int} {t t' : Spec} {a : Action}

def Retries (t : Spec) : Action → Prop
  | .endSave i => ∀ task, t.shared.saves.tasks[i]? = some task → task.failed = true
    → (∃ k, t.dataCache.data k = some task.charData)
    → (∃ k, t.dataCache.Dirty k ∧ t.dataCache.data k = some task.charData)
      ∨ (∃ p, t.shared.saves.check.saving = some (p, task.charData))
      ∨ ∃ j task', j ≠ i ∧ t.shared.saves.tasks[j]? = some task' ∧ task'.charData = task.charData
  | .updateModuleData => ∀ p d action data, t.shared.saves.check = .queried p d action data
    → ((t.shared.objs d).updateModuleData action data).2 = true
    → (∃ k, t.dataCache.data k = some d) → ∃ k, t.dataCache.Dirty k ∧ t.dataCache.data k = some d
  | _ => True

structure FailuresInv (t : Spec) : Prop where
  reads : ReadsInv t
  fifo : Fifo t
  kept : ∀ k d action, t.dataCache.data k = some d → action ∈ CharData.entries
    → (t.shared.objs d).Unsaved action
    → Kept t d action ∨ ∃ p, t.shared.saves.check.saving = some (p, d)

theorem failuresInv_initial {db : Database} : FailuresInv (.initial db) := by
  constructor
  case reads => exact readsInv_initial
  case fifo => exact fifo_initial
  case kept =>
    intro k d action h
    contradiction

theorem Step.saving_left (hstep : Step maxSize maxClean t a t') (R : Refs t) (hretry : Retries t a)
    {k p : Int} {d : Nat} {action : DBAction} (hdata : t.dataCache.data k = some d)
    (hsaving : t.shared.saves.check.saving = some (p, d))
    : Kept t' d action ∨ ∃ p, t'.shared.saves.check.saving = some (p, d) := by
  rcases hstep.saving_kept hsaving with h | ⟨rfl, hcheck⟩ | ⟨rfl, action', data, hcheck, hthrew⟩
  . exact .inr ⟨p, h⟩
  . obtain ⟨task, htask, rfl, -⟩ := R.cached k d hdata
    obtain ⟨task', htask', rfl, -⟩ := R.saving p d hsaving
    obtain rfl := Option.some.inj (htask.symm.trans htask')
    exact .inl (hstep.setDirty_kept hcheck hdata)
  . have hdirty := hretry p d action' data hcheck hthrew ⟨k, hdata⟩
    cases hstep with
    | updateModuleData _ => exact .inl (.inl hdirty)

theorem Step.failuresInv (hstep : Step maxSize maxClean t a t') (V : FailuresInv t)
    (hretry : Retries t a)
    : FailuresInv t' := by
  have R := V.reads.refs
  constructor
  case reads => exact hstep.readsInv V.reads
  case fifo => exact hstep.fifo R V.fifo
  case kept =>
    intro k d action hdata' haction hunsaved'
    rcases hstep.data_new hdata' with hdata | ⟨-, rfl, task, htask, -, hphase⟩
    . rcases hstep.unsaved_cases hunsaved' with hunsaved | ⟨-, p, hsaving⟩
      . rcases V.kept k d action hdata haction hunsaved with hkept | ⟨p, hsaving⟩
        . rcases hstep.kept haction hkept with h | hwritten | ⟨i, task, rfl, htask, rfl, hfailed⟩
          . exact .inl h
          . exact absurd hunsaved' (CharData.not_unsaved_saved hwritten.1)
          . rcases hretry task htask hfailed ⟨k, hdata⟩ with hdirty | ⟨p, hsaving⟩
              | ⟨j, task', hne, htask', hsame⟩
            . cases hstep with
              | endSave _ => exact .inl (.inl hdirty)
            . exact hstep.saving_left R hretry hdata hsaving
            . cases hstep with
              | endSave hfinish =>
                unfold Saves.finish at hfinish
                split at hfinish
                case h_2 => contradiction
                next d inserted failed htask₀ =>
                obtain rfl := Option.some.inj (htask.symm.trans htask₀)
                obtain rfl := Option.some.inj hfinish
                -- the other task has not started, as this one has come to its end
                have hstarted : SaveTask.mk d [] inserted failed ≠ .fresh d := by
                  simp [SaveTask.fresh, CharData.entries]
                have hfresh := V.fifo.fresh_of_ne htask htask' hne.symm hstarted (by rw [hsame])
                refine .inl (.inr ⟨task', ?_, hsame, .inl ?_⟩)
                . exact List.mem_eraseIdx_iff_getElem?.mpr ⟨j, hne, htask'⟩
                . rw [hfresh]
                  exact haction
        . exact hstep.saving_left R hretry hdata hsaving
      . exact hstep.saving_left R hretry hdata hsaving
    . obtain ⟨hactions, hqueries, -⟩ := V.reads.reads.loading d task [] htask hphase
      rw [List.append_nil] at hactions
      rw [← hactions] at haction
      obtain ⟨query, hquery, rfl⟩ := List.mem_map.mp haction
      obtain ⟨r, hr, hstat⟩ := hunsaved'
      rw [hstep.objs_reading R htask (by rw [hphase]; trivial) (by simp), (hqueries query hquery).2]
        at hr
      obtain ⟨row, -, rfl⟩ := List.mem_map.mp hr
      exact absurd rfl hstat

end step

section runs

variable [DataUtil] [SqlServer] {maxSize maxClean maxNum cleanSize : Int} {db : Database}
  {s s₀ : DataManager (DbCache Nat) (MulSearch Nat)} {t : Spec} {as : List Action} {a : Action}

omit [SqlServer] in
theorem retries_of_rescheduled (hR : Refines maxSize maxClean s t) (h : s.Rescheduled a)
    : Retries t a := by
  have hshared := hR.2.2
  cases a with
  | endSave i =>
    rintro task htask hfailed ⟨k, hdata⟩
    rw [← hshared] at htask ⊢
    rw [← DbCache.holdsDirty_iff hR.1]
    exact h task htask hfailed ⟨k, (DbCache.holds_iff hR.1).mpr hdata⟩
  | updateModuleData =>
    rintro p d action data hcheck hthrew ⟨k, hdata⟩
    rw [← hshared] at hcheck hthrew
    rw [← DbCache.holdsDirty_iff hR.1]
    exact h p d action data hcheck hthrew ⟨k, (DbCache.holds_iff hR.1).mpr hdata⟩
  | _ => trivial

omit [SqlServer] in
theorem failuresKept_of_kept (hR : Refines maxSize maxClean s t)
    (hkept : ∀ k d action, t.dataCache.data k = some d → action ∈ CharData.entries
      → (t.shared.objs d).Unsaved action
      → Kept t d action ∨ ∃ p, t.shared.saves.check.saving = some (p, d))
    : s.FailuresKept := by
  intro k d action hholds haction hunsaved hnot
  rw [hR.2.2] at hunsaved hnot ⊢
  rcases hkept k d action ((DbCache.holds_iff hR.1).mp hholds) haction hunsaved
    with (hdirty | ⟨task, htask, hsame, -⟩) | ⟨p, hsaving⟩
  . exact .inl ((DbCache.holdsDirty_iff hR.1).mpr hdirty)
  . exact .inr ⟨task, htask, hsame⟩
  . exact absurd hsaving (hnot p)

/--
As long as whatever fails is saved again by something else, the cache holds nothing that has still to
be saved without a save that is going to do it.
-/
theorem failuresKept_of_run (hinit : init maxNum cleanSize db = some (true, s₀))
    (hrun : Run (stepOf step) Rescheduled s₀ as s)
    : s.FailuresKept := by
  obtain ⟨maxSize, hR⟩ := refines_init hinit
  obtain ⟨t, hR, V⟩ := hrun.invariant (fun s => ∃ t, Refines maxSize cleanSize s t ∧ FailuresInv t)
    ⟨_, hR, failuresInv_initial⟩ (by
      rintro s a s' ⟨t, hR, V⟩ hok hstep
      obtain ⟨t', hstep', hR'⟩ := simulates maxSize cleanSize _ _ _ _ hR trivial hstep
      exact ⟨t', hR', hstep'.failuresInv V (retries_of_rescheduled hR hok)⟩)
  exact failuresKept_of_kept hR V.kept

end runs

-- no save ends, and no update throws
def savesOpen [DataUtil] (s : DataManager (DbCache Nat) (MulSearch Nat)) : Action → Bool
  | .endSave _ => false
  | .updateModuleData => !updateThrows s.shared
  | _ => true

theorem rescheduled_of_savesOpen [DataUtil] {s : DataManager (DbCache Nat) (MulSearch Nat)}
    {a : Action} (h : savesOpen s a = true)
    : s.Rescheduled a := by
  cases a with
  | endSave i => simp [savesOpen] at h
  | updateModuleData =>
    intro p d action data hcheck hthrew
    simp [savesOpen, updateThrows_eq hcheck, hthrew] at h
  | _ => trivial

theorem failuresKept_of_run_saveLevel
    : letI := CommonModule.rowDigest
      letI := CommonModule.numericServer
      ∃ s₀ s, init 0 1 (fun _ => [CommonModule.levelRow 1]) = some (true, s₀)
        ∧ Run (stepOf step) Rescheduled s₀
          (saveLevel ++ [.updateModuleData, .setDirty, .tick, .saveNextDirty, .saveUpdates 0 false]) s
        ∧ s.FailuresKept := by
  let _ : DataUtil := CommonModule.rowDigest
  let _ : SqlServer := CommonModule.numericServer
  obtain ⟨s₀, s, hinit, hrun, -⟩ := @exists_guarded_run _ _ 0 1 (fun _ => [CommonModule.levelRow 1])
    (saveLevel ++ [.updateModuleData, .setDirty, .tick, .saveNextDirty, .saveUpdates 0 false]) savesOpen
    (fun _ => true) (by decide +kernel)
  have hrun := hrun.weaken fun _ _ => rescheduled_of_savesOpen
  exact ⟨s₀, s, hinit, hrun, failuresKept_of_run hinit hrun⟩

theorem failuresKept_counterexample
    : ¬ ∀ [DataUtil] [SqlServer] (maxNum cleanSize : Int) (db : Database)
        (s₀ s : DataManager (DbCache Nat) (MulSearch Nat)) (as : List Action),
        init maxNum cleanSize db = some (true, s₀) → Run (stepOf step) anyLabel s₀ as s
          → s.FailuresKept := by
  intro h
  let _ : DataUtil := CommonModule.rowDigest
  let _ : SqlServer := CommonModule.numericServer
  obtain ⟨s₀, s, hinit, hrun, hcheck⟩ := @exists_guarded_run _ _ 0 1
    (fun _ => [CommonModule.levelRow 1])
    (saveLevel ++ [.updateModuleData, .setDirty, .tick, .saveNextDirty, .saveUpdates 0 false,
      .saveUpdates 0 true, .saveDeletes 0 true, .saveUpdates 0 true, .saveDeletes 0 true,
      .saveUpdates 0 true, .saveDeletes 0 true, .endSave 0, .saveNextDirty])
    (fun _ _ => true) (fun s => (s.dataCache.query 7).map Prod.fst = some (some 0)
      && ((s.shared.objs 0).records .player).any (·.stat ≠ .valid)
      && s.shared.saves.tasks.isEmpty && s.shared.saves.check.saving.isNone
      && s.dataCache.getNextDirtyNodeAndClean.any (·.1.isNone)) (by decide +kernel)
  have hrun : Run (stepOf step) anyLabel s₀ _ s := hrun.weaken fun _ _ _ => trivial
  obtain ⟨maxSize, t, -, hR⟩ := exists_spec_run anyLabel (fun _ _ _ _ _ _ => trivial) hinit hrun
  simp only [Bool.and_eq_true, decide_eq_true_eq] at hcheck
  obtain ⟨⟨⟨⟨hquery, hunsaved⟩, htasks⟩, hidle⟩, hnext⟩ := hcheck
  obtain ⟨⟨data, dataCache⟩, hquery, rfl⟩ := Option.map_eq_some_iff.mp hquery
  obtain ⟨r, hr, hstat⟩ := List.any_eq_true.mp hunsaved
  obtain ⟨⟨data, dataCache⟩, hnext, hnone⟩ := (Option.any_eq_true _ _).mp hnext
  obtain rfl : data = none := by simpa using hnone
  have hnot : ∀ p, s.shared.saves.check.saving ≠ some (p, 0) := by
    intro p hp
    simp [hp] at hidle
  rcases h 0 1 _ s₀ s _ hinit hrun 7 0 .player (DbCache.holds_of_query hR.1 hquery)
    (by simp [CharData.entries]) ⟨r, hr, by simpa using hstat⟩ hnot with hdirty | ⟨task, htask, -⟩
  . exact DbCache.not_holdsDirty hR.1 hnext hdirty
  . simp [List.isEmpty_iff.mp htasks] at htask

end DataManager

end WzGame
