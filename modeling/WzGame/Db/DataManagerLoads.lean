import WzGame.Db.DataManagerSpec

/-!
This module contains what holds of the loads, whatever the callbacks do: the queue of a player with a
load on its way is made of the calls that wait for it, and they are served in order.
-/

namespace WzGame

namespace Loads

/--
What a step does to the loads and to the queues of calls, where `Threw` says that a callback has
thrown an exception.
-/
inductive Step (Threw : Prop) (q : KeyQueues Nat) (v : Loads) : KeyQueues Nat → Loads → Prop where
  | join {charId : Int} {callBack : Bool} :
      v.unlocked = true → q.queue charId ≠ []
        → Step Threw q v (q.addKey charId (if callBack then some v.calls.length else none))
          (v.join charId callBack)
  | start {charId : Int} {callBack held : Bool} :
      v.unlocked = true → q.queue charId = []
        → Step Threw q v (q.addKey charId (if callBack then some v.calls.length else none))
          (v.start charId callBack held)
  | refuse {charId : Int} {callBack : Bool} :
      v.unlocked = true → q.queue charId = []
        → Step Threw q v
          ((q.addKey charId (if callBack then some v.calls.length else none)).deleteKey charId)
          (v.refuse charId callBack)
  | load {load : Nat} {task task' : LoadTask} :
      v.tasks[load]? = some task → task.phase ≠ .calling → task.phase ≠ .done
        → task'.phase ≠ .calling → task'.phase ≠ .done → task'.charId = task.charId
        → Step Threw q v q (v.setTask load task')
  | startCallbacks {load : Nat} {task : LoadTask} {charData : Option Nat} :
      v.tasks[load]? = some task → task.phase = .installed charData
        → v.mayComplete task.charId = true
        → Step Threw q v q (v.startCallbacks load task charData (q.search task.charId))
  | onResult {c : Completion} {cs : List Completion} {subIter call : Nat} :
      v.completions = c :: cs → c.subIter = some subIter → c.running = false
        → q.data subIter = some call → Step Threw q v q (v.onResult c cs call)
  | next {c : Completion} {cs : List Completion} {subIter : Nat} :
      v.completions = c :: cs → c.subIter = some subIter
        → (c.running = false → q.data subIter = none)
        → Step Threw q v q (v.nextCallback c cs (q.sameNext subIter))
  | throws {c : Completion} {cs : List Completion} :
      Threw → v.completions = c :: cs → Step Threw q v q (v.finish c cs)
  | finish {c : Completion} {cs : List Completion} :
      v.completions = c :: cs → c.subIter = none → c.running = false
        → Step Threw q v (q.deleteKey c.charId) (v.finish c cs)
  | other : Step Threw q v q v

end Loads

namespace Shared

variable [DataUtil] {s s' : Shared}

theorem updateModuleData_loads (h : s.updateModuleData = some s') : s'.loads = s.loads := by
  unfold updateModuleData at h
  split at h
  . split at h
    . contradiction
    . simp only at h
      split at h <;> exact Option.some.inj h ▸ rfl
  . contradiction

variable [SqlServer]

theorem saveUpdates_loads {i : Nat} {succeeds : Bool} (h : s.saveUpdates i succeeds = some s')
    : s'.loads = s.loads := by
  obtain ⟨task, -, h⟩ := Option.bind_eq_some_iff.mp h
  split at h
  . obtain ⟨mod, -, h⟩ := Option.bind_eq_some_iff.mp h
    split at h
    . split at h <;> exact Option.some.inj h ▸ rfl
    . contradiction
  . contradiction

theorem saveDeletes_loads {i : Nat} {succeeds : Bool} (h : s.saveDeletes i succeeds = some s')
    : s'.loads = s.loads := by
  obtain ⟨task, -, h⟩ := Option.bind_eq_some_iff.mp h
  split at h
  . obtain ⟨mod, -, h⟩ := Option.bind_eq_some_iff.mp h
    split at h <;> exact Option.some.inj h ▸ rfl
  . contradiction

theorem loadModule_cases {load : Nat} {outcome : QueryOutcome}
    (h : s.loadModule load outcome = some s')
    : ∃ task action todo mod, s.loads.tasks[load]? = some task
        ∧ task.phase = .loading (action :: todo) ∧ (s.objs load).modules action = some mod
        ∧ (mod.load s.db outcome = none
            ∧ s' = { s with
                loads := s.loads.setTask load { task with
                  phase := .failed
                  queries := task.queries
                    ++ [⟨action, outcome, CharData.storedRows s.db task.charId action⟩] } }
          ∨ ∃ mod', mod.load s.db outcome = some mod'
            ∧ s' = { s with
                loads := s.loads.setTask load { task with
                  phase := .loading todo
                  queries := task.queries
                    ++ [⟨action, outcome, CharData.storedRows s.db task.charId action⟩] }
                objs := Function.update s.objs load
                  ((s.objs load).setRecords action mod'.records) }) := by
  obtain ⟨task, htask, h⟩ := Option.bind_eq_some_iff.mp h
  split at h
  case h_2 => contradiction
  next action todo hphase =>
  obtain ⟨mod, hmod, h⟩ := Option.bind_eq_some_iff.mp h
  refine ⟨task, action, todo, mod, htask, hphase, hmod, ?_⟩
  cases hload : mod.load s.db outcome with
  | none =>
    simp only [hload] at h
    exact .inl ⟨rfl, (Option.some.inj h).symm⟩
  | some mod' =>
    simp only [hload] at h
    exact .inr ⟨mod', rfl, (Option.some.inj h).symm⟩

end Shared

namespace DataManager

variable [DataUtil] [SqlServer] {maxSize maxClean : Int} {t t' : Spec} {a : Action}

theorem Step.loads (hstep : Step maxSize maxClean t a t')
    : Loads.Step (a = .callbackReturns true) t.queryCache t.shared.loads t'.queryCache
        t'.shared.loads := by
  cases hstep with
  | join hunlocked hqueue => exact .join hunlocked hqueue
  | startLoad hunlocked hqueue _ _ => exact .start hunlocked hqueue
  | refuse hunlocked hqueue _ => exact .refuse hunlocked hqueue
  | loadModule h =>
    obtain ⟨task, action, todo, mod, htask, hphase, -, ⟨-, rfl⟩ | ⟨mod', -, rfl⟩⟩ :=
      Shared.loadModule_cases h
    . exact .load htask (by simp [hphase]) (by simp [hphase]) (by simp) (by simp) rfl
    . exact .load htask (by simp [hphase]) (by simp [hphase]) (by simp) (by simp) rfl
  | setData htask hloaded _ =>
    refine .load htask ?_ ?_ (by simp) (by simp) rfl
    . intro hphase
      simp [Loads.loaded, hphase] at hloaded
    . intro hphase
      simp [Loads.loaded, hphase] at hloaded
  | startCallbacks htask hphase hmay => exact .startCallbacks htask hphase hmay
  | callback hcs hsub hrunning hcall => exact .onResult hcs hsub hrunning hcall
  | noCallback hcs hsub _ hcall => exact .next hcs hsub fun _ => hcall
  | returns hcs hsub hrunning => exact .next hcs hsub (by simp [hrunning])
  | throws hcs _ _ => exact .throws rfl hcs
  | deleteKey hcs hsub hrunning => exact .finish hcs hsub hrunning
  | updateModuleData h =>
    rw [Shared.updateModuleData_loads h]
    exact .other
  | saveUpdates h =>
    rw [Shared.saveUpdates_loads h]
    exact .other
  | saveDeletes h =>
    rw [Shared.saveDeletes_loads h]
    exact .other
  | _ => exact .other

end DataManager

end WzGame
