import WzGame.Db.DataManagerLoadRuns

/-!
This module contains that every call of `loadChar` gets its callback, as long as all callbacks return
normally.
-/

namespace WzGame

open Runs

namespace DataManager

def Regular (v : Loads) : Prop :=
  ∀ task ∈ v.tasks, 0 ≤ task.charId
    ∧ ∀ todo, task.phase = .loading todo → ∀ action ∈ todo, action ∈ CharData.entries

theorem regular_set {v : Loads} (h : Regular v) {load : Nat} {task : LoadTask}
    (hchar : 0 ≤ task.charId)
    (htodo : ∀ todo, task.phase = .loading todo → ∀ action ∈ todo, action ∈ CharData.entries)
    : Regular (v.setTask load task) := by
  intro task' htask'
  rcases List.mem_or_eq_of_mem_set htask' with hmem | rfl
  . exact h task' hmem
  . exact ⟨hchar, htodo⟩

theorem regular_finish {v : Loads} (h : Regular v) (c : Completion) (cs : List Completion)
    : Regular (v.finish c cs) := by
  intro task htask
  obtain ⟨i, hi⟩ := List.mem_iff_getElem?.mp htask
  unfold Loads.finish at hi
  simp only [List.getElem?_modify] at hi
  obtain ⟨task₀, htask₀, rfl⟩ := Option.map_eq_some_iff.mp hi
  obtain ⟨hchar, htodo⟩ := h task₀ (List.mem_of_getElem? htask₀)
  split
  . exact ⟨hchar, by simp⟩
  . exact ⟨hchar, htodo⟩

section state

variable [DataUtil] {maxSize maxClean : Int} {s : DataManager (DbCache Nat) (MulSearch Nat)}
  {t : Spec}

end state

section ready

variable [DataUtil] {maxSize maxClean : Int} {s : DataManager (DbCache Nat) (MulSearch Nat)}
  {t t' : Spec} {a : Action}

variable [SqlServer]

def Normal : Action → Prop
  | .loadChar charId _ => 0 ≤ charId
  | .callbackReturns threw => threw = false
  | _ => True

theorem Step.regular (h : Regular t.shared.loads) (hnormal : Normal a)
    (hstep : Step maxSize maxClean t a t')
    : Regular t'.shared.loads := by
  cases hstep with
  | @startLoad charId callBack held dataCache hunlocked hqueue hheld hoccupy =>
    intro task htask
    rcases List.mem_append.mp htask with hmem | hmem
    . exact h task hmem
    . obtain rfl := List.mem_singleton.mp hmem
      refine ⟨hnormal, ?_⟩
      rintro todo hphase action haction
      obtain rfl := LoadPhase.loading.inj hphase
      exact haction
  | loadModule hload =>
    obtain ⟨task, action, todo, mod, htask, hphase, -, ⟨-, rfl⟩ | ⟨mod', -, rfl⟩⟩ :=
      Shared.loadModule_cases hload
    . obtain ⟨hchar, htodo⟩ := h task (List.mem_of_getElem? htask)
      exact regular_set h hchar (by simp)
    . obtain ⟨hchar, htodo⟩ := h task (List.mem_of_getElem? htask)
      refine regular_set h hchar ?_
      rintro todo' hphase' action' haction'
      obtain rfl := LoadPhase.loading.inj hphase'
      exact htodo _ hphase action' (List.mem_cons_of_mem action haction')
  | setData htask _ _ => exact regular_set h (h _ (List.mem_of_getElem? htask)).1 (by simp)
  | startCallbacks htask _ _ => exact regular_set h (h _ (List.mem_of_getElem? htask)).1 (by simp)
  | throws _ _ _ => exact regular_finish h _ _
  | deleteKey _ _ _ => exact regular_finish h _ _
  | updateModuleData hupdate =>
    rw [Shared.updateModuleData_loads hupdate]
    exact h
  | saveUpdates hsave =>
    rw [Shared.saveUpdates_loads hsave]
    exact h
  | saveDeletes hsave =>
    rw [Shared.saveDeletes_loads hsave]
    exact h
  | _ => exact h

-- no call of a thread throws, and a load always goes on
structure Ready (s : DataManager (DbCache Nat) (MulSearch Nat)) : Prop where
  loadChar : ∀ charId callBack, 0 ≤ charId → s.shared.loads.unlocked = true
    → ∃ s', s.loadChar charId callBack = some s'
  loadModule : ∀ load task action todo outcome, s.shared.loads.tasks[load]? = some task
    → task.phase = .loading (action :: todo)
    → ∃ shared task', s.shared.loadModule load outcome = some shared
      ∧ shared.loads.tasks[load]? = some task' ∧ task'.charId = task.charId
      ∧ (task'.phase = .loading todo ∨ task'.phase = .failed)
  setData : ∀ load task charData, s.shared.loads.tasks[load]? = some task
    → Loads.loaded load task.phase = some charData
    → ∃ s' charData', s.setData load = some s'
      ∧ s'.shared.loads.tasks[load]? = some { task with phase := .installed charData' }
  startCallbacks : ∀ load task charData, s.shared.loads.tasks[load]? = some task
    → task.phase = .installed charData → s.shared.loads.mayComplete task.charId = true
    → ∃ s' subIter, s.startCallbacks load = some s'
      ∧ s'.shared.loads.completions
        = ⟨load, task.charId, charData, subIter, false⟩ :: s.shared.loads.completions
  calling : ∀ load task, s.shared.loads.tasks[load]? = some task → task.phase = .calling
    → ∃ c ∈ s.shared.loads.completions, c.load = load

end ready

section completions

def Remaining (c : Completion) (nodes : List Nat) (n : Nat) : Prop :=
  ∃ pre rest, nodes = pre ++ rest ∧ c.subIter = rest.head? ∧ (c.running = true → rest ≠ [])
    ∧ 2 * rest.length + (if c.running then 0 else 1) ≤ n

section

variable {c : Completion} {nodes : List Nat} {n subIter : Nat}

theorem Remaining.onResult (h : Remaining c nodes (n + 1)) (hsub : c.subIter = some subIter)
    (hrunning : c.running = false)
    : Remaining { c with running := true } nodes n := by
  obtain ⟨pre, rest, hnodes, hhead, -, hle⟩ := h
  rw [hrunning] at hle
  refine ⟨pre, rest, hnodes, hhead, ?_, by simpa using hle⟩
  rintro - rfl
  rw [hsub] at hhead
  contradiction

theorem Remaining.next {subIter' : Option Nat} (h : Remaining c nodes (n + 1))
    (hsub : c.subIter = some subIter)
    (hnext : ∀ pre rest, nodes = pre ++ subIter :: rest → subIter' = rest.head?)
    : Remaining { c with subIter := subIter', running := false } nodes n := by
  obtain ⟨pre, rest, hnodes, hhead, -, hle⟩ := h
  cases rest with
  | nil =>
    rw [hsub] at hhead
    contradiction
  | cons node rest =>
    obtain rfl : subIter = node := Option.some.inj (hsub.symm.trans hhead)
    have hnodes' : nodes = pre ++ [subIter] ++ rest := by rw [hnodes, List.append_assoc]; rfl
    refine ⟨pre ++ [subIter], rest, hnodes', hnext pre rest hnodes, by simp, ?_⟩
    rw [List.length_cons] at hle
    simp only [Bool.false_eq_true, if_false]
    omega

end

def Completing : Action → Prop
  | .callback => True
  | .callbackReturns threw => threw = false
  | .deleteKey => True
  | _ => False

def Ending (load : Nat) (outcome : QueryOutcome) : Action → Prop
  | .loadModule load' outcome' => load' = load ∧ outcome' = outcome
  | .setData load' => load' = load
  | .startCallbacks load' => load' = load
  | a => Completing a

theorem Completing.ending {a : Action} (ha : Completing a) (load : Nat) (outcome : QueryOutcome)
    : Ending load outcome a := by
  cases a with
  | loadModule | setData | startCallbacks => exact False.elim ha
  | _ => exact ha

variable [DataUtil] {maxSize maxClean : Int} {s : DataManager (DbCache Nat) (MulSearch Nat)}
  {t : Spec} {c : Completion} {cs : List Completion} {n : Nat}

end completions

section runs

variable [DataUtil] [SqlServer] {maxSize maxClean maxNum cleanSize : Int} {db : Database}
  {s s₀ : DataManager (DbCache Nat) (MulSearch Nat)} {t : Spec} {as : List Action}

theorem regular_run (hrun : Run (Step maxSize maxClean) (fun _ a => Normal a) (.initial db) as t)
    : Regular t.shared.loads := by
  apply hrun.invariant (fun t => Regular t.shared.loads)
  . simp [Regular, Spec.initial, Loads.empty]
  . intro t a t' h hnormal hstep
    exact hstep.regular h hnormal

theorem reached (hinit : init maxNum cleanSize db = some (true, s₀))
    (hrun : Run (stepOf step) (fun _ a => Normal a) s₀ as s)
    : ∃ maxSize t, Refines maxSize cleanSize s t ∧ LoadsInv t
        ∧ Loads.Live t.queryCache t.shared.loads ∧ Regular t.shared.loads := by
  obtain ⟨maxSize, t, hrun', hR⟩ :=
    exists_spec_run (fun _ a => Normal a) (fun _ _ _ _ _ h => h) hinit hrun
  refine ⟨maxSize, t, hR, loadsInv_run hrun', live_run (hrun'.weaken ?_), regular_run hrun'⟩
  rintro t a hnormal rfl
  exact Bool.noConfusion hnormal

end runs

end DataManager

end WzGame
