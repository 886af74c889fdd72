import WzGame.Db.DataManagerSaves

/-!
This module contains the order in which the save tasks of a db actor run: a task does not start before
the ones that are in the queue of its actor already have come to their end.
-/

namespace WzGame

theorem List.pairwise_set {α : Type} {R : α → α → Prop} {xs : List α} {i : Nat} {x x₀ : α}
    (h : xs.Pairwise R) (hx₀ : xs[i]? = some x₀) (hbefore : ∀ y ∈ xs.take i, R y x₀ → R y x)
    (hafter : ∀ y, R x₀ y → R x y)
    : (xs.set i x).Pairwise R := by
  rw [List.pairwise_iff_getElem] at h ⊢
  obtain ⟨hi, rfl⟩ := List.getElem?_eq_some_iff.mp hx₀
  intro j j' hj hj' hlt
  rw [List.length_set] at hj hj'
  rw [List.getElem_set, List.getElem_set]
  split
  case isTrue heq =>
    subst heq
    rw [if_neg (by omega)]
    exact hafter _ (h i j' hi hj' hlt)
  case isFalse =>
    split
    case isTrue heq =>
      subst heq
      exact hbefore _ (List.mem_take_iff_getElem.mpr ⟨j, by omega, rfl⟩) (h j i hj hi hlt)
    case isFalse => exact h j j' hj hj' hlt

def SaveTask.fresh (charData : Nat) : SaveTask := ⟨charData, CharData.entries, false, false⟩

namespace DataManager

variable [DataUtil] [SqlServer] {maxSize maxClean : Int} {t t' : Spec} {a : Action}

theorem Step.saveTasks_cases (hstep : Step maxSize maxClean t a t')
    : t'.shared.saves.tasks = t.shared.saves.tasks
        ∨ (∃ k d, t.dataCache.data k = some d
          ∧ t'.shared.saves.tasks = t.shared.saves.tasks ++ [.fresh d])
        ∨ (∃ i task task', t.shared.saves.tasks[i]? = some task
          ∧ (task.inserted = true ∨ t.shared.mayRun i task = true)
          ∧ t'.shared.saves.tasks = t.shared.saves.tasks.set i task' ∧ task'.charData = task.charData)
        ∨ ∃ i task, a = .endSave i ∧ t.shared.saves.tasks[i]? = some task ∧ task.todo = []
          ∧ t'.shared.saves.tasks = t.shared.saves.tasks.eraseIdx i := by
  cases hstep with
  | loadModule hload =>
    obtain ⟨task, action, todo, mod, -, -, -, ⟨-, rfl⟩ | ⟨mod', -, rfl⟩⟩ :=
      Shared.loadModule_cases hload
    . exact .inl rfl
    . exact .inl rfl
  | updateModuleData hupdate =>
    obtain ⟨p, d, action, data, -, -, ⟨-, rfl⟩ | ⟨table, keys, rows, -, -,
      ⟨records, -, rfl⟩ | ⟨records, -, rfl⟩⟩⟩ := Shared.updateModuleData_cases hupdate
    . exact .inl rfl
    . exact .inl rfl
    . exact .inl rfl
  | tick htick =>
    unfold Saves.tick at htick
    split at htick
    . obtain rfl := Option.some.inj htick
      exact .inl rfl
    . contradiction
  | @saveNext left d dataCache _ hcache =>
    obtain ⟨k, -, hdata, -⟩ := hcache.next_cases
    exact .inr (.inl ⟨k, d, hdata, rfl⟩)
  | saveUpdates hsave =>
    obtain ⟨d, action, todo, failed, table, keys, htask, -, hmay, ⟨-, rfl⟩ | ⟨db, -, rfl⟩⟩ :=
      Shared.saveUpdates_cases hsave
    . exact .inr (.inr (.inl ⟨_, _, _, htask, .inr hmay, rfl, rfl⟩))
    . exact .inr (.inr (.inl ⟨_, _, _, htask, .inr hmay, rfl, rfl⟩))
  | saveDeletes hsave =>
    obtain ⟨d, action, todo, failed, table, keys, htask, -, ⟨-, rfl⟩ | ⟨db, -, rfl⟩⟩ :=
      Shared.saveDeletes_cases hsave
    . exact .inr (.inr (.inl ⟨_, _, _, htask, .inl rfl, rfl, rfl⟩))
    . exact .inr (.inr (.inl ⟨_, _, _, htask, .inl rfl, rfl, rfl⟩))
  | @endSave i _ hfinish =>
    unfold Saves.finish at hfinish
    split at hfinish
    . next htask =>
      obtain rfl := Option.some.inj hfinish
      exact .inr (.inr (.inr ⟨i, _, rfl, htask, rfl, rfl⟩))
    . contradiction
  | _ => exact .inl rfl

theorem Step.charId_settled (hstep : Step maxSize maxClean t a t') (R : Refs t) {d : Nat} {k : Int}
    (h : t.shared.loads.Settled d k)
    : (t.shared.objs d).charId = k ∧ (t'.shared.objs d).charId = k := by
  obtain ⟨task', htask', hchar', -⟩ := hstep.settled h
  obtain ⟨task, htask, hchar, -⟩ := h
  exact ⟨(R.charId d task htask).trans hchar,
    ((hstep.refs R).charId d task' htask').trans hchar'⟩

def Waits (s : Shared) (task task' : SaveTask) : Prop :=
  dbActor (s.objs task.charData).charId = dbActor (s.objs task'.charData).charId
    → task' = .fresh task'.charData

def Fifo (t : Spec) : Prop := t.shared.saves.tasks.Pairwise (Waits t.shared)

theorem fifo_initial {db : Database} : Fifo (.initial db) := List.Pairwise.nil

theorem Step.fifo (hstep : Step maxSize maxClean t a t') (R : Refs t) (F : Fifo t) : Fifo t' := by
  unfold Fifo at F
  have hchar : ∀ d k, t.shared.loads.Settled d k
      → (t'.shared.objs d).charId = (t.shared.objs d).charId := by
    intro d k hsettled
    obtain ⟨h, h'⟩ := hstep.charId_settled R hsettled
    exact h'.trans h.symm
  have hqueued : ∀ {task}, task ∈ t.shared.saves.tasks
      → (t'.shared.objs task.charData).charId = (t.shared.objs task.charData).charId := by
    intro task htask
    obtain ⟨k, hsettled⟩ := R.queued task htask
    exact hchar _ k hsettled
  have F' : t.shared.saves.tasks.Pairwise (Waits t'.shared) := by
    refine F.imp_of_mem ?_
    intro task task' htask htask' h hactor
    rw [hqueued htask, hqueued htask'] at hactor
    exact h hactor
  unfold Fifo
  rcases hstep.saveTasks_cases with htasks | ⟨k, d, -, htasks⟩
    | ⟨i, task, task', htask, hfirst, htasks, hsame⟩ | ⟨i, task, -, -, -, htasks⟩
  . rw [htasks]
    exact F'
  . rw [htasks, List.pairwise_append]
    refine ⟨F', List.pairwise_singleton _ _, ?_⟩
    intro task _ task' htask' _
    obtain rfl := List.mem_singleton.mp htask'
    rfl
  . rw [htasks]
    have hmem := List.mem_of_getElem? htask
    refine List.pairwise_set F' htask ?_ ?_
    . intro earlier hearlier hwaits hactor
      rw [hsame] at hactor
      rcases hfirst with hinserted | hmay
      . rw [hwaits hactor] at hinserted
        contradiction
      . rw [hqueued (List.mem_of_mem_take hearlier), hqueued hmem] at hactor
        simpa [hactor] using List.all_eq_true.mp hmay earlier hearlier
    . intro later hwaits hactor
      rw [hsame] at hactor
      exact hwaits hactor
  . rw [htasks]
    exact F'.sublist (List.eraseIdx_sublist _ _)

omit [SqlServer] in
theorem Fifo.fresh_of_ne (F : Fifo t) {i j : Nat} {task task' : SaveTask}
    (htask : t.shared.saves.tasks[i]? = some task) (htask' : t.shared.saves.tasks[j]? = some task')
    (hne : i ≠ j) (hstarted : task ≠ .fresh task.charData)
    (hactor : dbActor (t.shared.objs task.charData).charId
      = dbActor (t.shared.objs task'.charData).charId)
    : task' = .fresh task'.charData := by
  unfold Fifo at F
  rw [List.pairwise_iff_getElem] at F
  obtain ⟨hi, rfl⟩ := List.getElem?_eq_some_iff.mp htask
  obtain ⟨hj, rfl⟩ := List.getElem?_eq_some_iff.mp htask'
  rcases Nat.lt_or_gt_of_ne hne with hlt | hlt
  . exact F i j hi hj hlt hactor
  . exact absurd (F j i hj hi hlt hactor.symm) hstarted

end DataManager

end WzGame
