import WzGame.Db.DataManagerLoads

/-!
This module contains the invariant of the loads: at most one load per player is on its way, the calls
that wait for it stand in the queue of the player, and its loop serves them in order.
-/

namespace WzGame

namespace Loads

variable {v v' : Loads} {q q' : KeyQueues Nat} {load n : Nat} {task : LoadTask}

def Outstanding (v : Loads) (load : Nat) (task : LoadTask) : Prop :=
  v.tasks[load]? = some task ∧ task.phase ≠ .done

def hasCallBack (v : Loads) (n : Nat) : Bool := v.calls[n]?.any Call.callBack

def waiting (v : Loads) (load : Nat) : List Nat :=
  (List.range v.calls.length).filter fun n => v.calls[n]?.bind Call.load = some load

def served (v : Loads) (load : Nat) : List Nat :=
  (v.invoked.filter fun i => i.load = some load).map Invocation.call

def Serving (c : Completion) (nodes : List Nat) (hasCallBack : Nat → Bool) (served : List Nat)
    : Prop :=
  ∃ pre rest, nodes = pre ++ rest ∧ c.subIter = rest.head? ∧ (c.running = true → rest ≠ [])
    ∧ served = (if c.running then pre ++ rest.take 1 else pre).filter hasCallBack

structure Inv (q : KeyQueues Nat) (v : Loads) : Prop where
  wf : q.WF
  size : q.size = v.calls.length
  data : ∀ n, q.data n = if v.hasCallBack n then some n else none
  callLoad : ∀ call ∈ v.calls, ∀ load, call.load = some load
    → ∃ task, v.tasks[load]? = some task ∧ task.charId = call.charId
  lastLoad : ∀ k load, v.lastLoad k = some load
    → ∃ task, v.tasks[load]? = some task ∧ task.charId = k
  latest : ∀ load task, v.Outstanding load task → v.lastLoad task.charId = some load
  known : ∀ k, q.queue k ≠ [] → v.lastLoad k ≠ none
  queued : ∀ load task, v.Outstanding load task
    → q.queue task.charId = v.waiting load ∧ q.queue task.charId ≠ []
  completion : ∀ c ∈ v.completions,
    ∃ task, v.tasks[c.load]? = some task ∧ task.phase = .calling ∧ task.charId = c.charId
  nodup : (v.completions.map Completion.load).Nodup
  below : ∀ c ∈ v.completions.tail, c.running = true
  serving : ∀ c ∈ v.completions,
    Serving c (v.waiting c.load) v.hasCallBack (v.served c.load)
  unserved : ∀ load task, v.tasks[load]? = some task → task.phase ≠ .calling → task.phase ≠ .done
    → v.served load = []
  result : ∀ c ∈ v.completions, ∀ i ∈ v.invoked, i.load = some c.load → i.charData = c.charData
  invoked : ∀ i ∈ v.invoked, ∀ load, i.load = some load → load < v.tasks.length

section lemmas

theorem hasCallBack_addCall (charId : Int) (callBack : Bool) (load : Option Nat)
    : (v.addCall charId callBack load).hasCallBack n
        = if n = v.calls.length then callBack else v.hasCallBack n := by
  unfold hasCallBack addCall
  simp only [List.getElem?_append]
  split
  . next hlt =>
    rw [if_neg (by omega)]
  . next hge =>
    split
    . next heq => simp [heq]
    . next hne =>
      have h₁ : v.calls[n]? = none := by
        rw [List.getElem?_eq_none_iff]
        omega
      have h₂ : ([⟨charId, callBack, load⟩] : List Call)[n - v.calls.length]? = none := by
        rw [List.getElem?_eq_none_iff, List.length_singleton]
        omega
      rw [h₁, h₂]

theorem waiting_lt (h : n ∈ v.waiting load) : n < v.calls.length :=
  List.mem_range.mp (List.mem_filter.mp h).1

theorem waiting_addCall (charId : Int) (callBack : Bool) (load' : Option Nat)
    : (v.addCall charId callBack load').waiting load
        = v.waiting load ++ if load' = some load then [v.calls.length] else [] := by
  unfold waiting addCall
  simp only [List.length_append, List.length_singleton, List.range_succ, List.filter_append]
  congr 1
  . apply List.filter_congr
    intro n hn
    rw [List.getElem?_append_left (List.mem_range.mp hn)]
  . by_cases h : load' = some load <;> simp [h]

theorem filter_addCall {nodes : List Nat} (hnodes : ∀ n ∈ nodes, n < v.calls.length)
    (charId : Int) (callBack : Bool) (load : Option Nat)
    : nodes.filter (v.addCall charId callBack load).hasCallBack = nodes.filter v.hasCallBack := by
  apply List.filter_congr
  intro n hn
  have := hnodes n hn
  rw [hasCallBack_addCall, if_neg (by omega)]

theorem served_refuse (charId : Int) (callBack : Bool) (load : Nat)
    : (v.refuse charId callBack).served load = v.served load := by
  unfold served refuse
  simp only
  split <;> simp

theorem served_onResult (c : Completion) (cs : List Completion) (call load : Nat)
    : (v.onResult c cs call).served load
        = v.served load ++ if c.load = load then [call] else [] := by
  unfold served onResult
  rw [List.filter_append, List.map_append]
  congr 1
  by_cases h : c.load = load <;> simp [h]

theorem tasks_setTask (htask : v.tasks[load]? = some task) (task' : LoadTask) (load' : Nat)
    : (v.setTask load task').tasks[load']? = if load' = load then some task' else v.tasks[load']? := by
  unfold setTask
  have hlt : load < v.tasks.length := by
    by_contra hge
    rw [List.getElem?_eq_none_iff.mpr (by omega)] at htask
    contradiction
  by_cases h : load' = load
  . subst h
    simp [hlt]
  . simp [h, Ne.symm h]

theorem tasks_finish {c : Completion} (htask : v.tasks[c.load]? = some task)
    (cs : List Completion) (load' : Nat)
    : (v.finish c cs).tasks[load']?
        = if load' = c.load then some { task with phase := .done } else v.tasks[load']? := by
  unfold finish
  rw [List.getElem?_modify]
  by_cases h : load' = c.load
  . subst h
    simp [htask]
  . simp [h, Ne.symm h]

theorem replaced {tasks tasks' : List LoadTask} {task' : LoadTask} (htask : tasks[load]? = some task)
    (htasks : ∀ load', tasks'[load']? = if load' = load then some task' else tasks[load']?)
    (hchar : task'.charId = task.charId) {load₁ : Nat} {task₀ : LoadTask} (h : tasks[load₁]? = some task₀)
    : ∃ task₁, tasks'[load₁]? = some task₁ ∧ task₁.charId = task₀.charId := by
  rw [htasks]
  split
  . next heq =>
    subst heq
    obtain rfl : task = task₀ := Option.some.inj (htask.symm.trans h)
    exact ⟨task', rfl, hchar⟩
  . exact ⟨task₀, h, rfl⟩

theorem callLoad_addCall {tasks' : List LoadTask} {charId : Int} {callBack : Bool} {load : Option Nat}
    (hold : ∀ call ∈ v.calls, ∀ load', call.load = some load'
      → ∃ task, tasks'[load']? = some task ∧ task.charId = call.charId)
    (hnew : ∀ load', load = some load' → ∃ task, tasks'[load']? = some task ∧ task.charId = charId)
    : ∀ call ∈ (v.addCall charId callBack load).calls, ∀ load', call.load = some load'
        → ∃ task, tasks'[load']? = some task ∧ task.charId = call.charId := by
  intro call hcall load' hload
  rcases List.mem_append.mp hcall with hcall | hcall
  . exact hold call hcall load' hload
  . obtain rfl := List.mem_singleton.mp hcall
    exact hnew load' hload

end lemmas

namespace Serving

variable {c : Completion} {nodes served : List Nat} {hasCallBack : Nat → Bool}

theorem join {hasCallBack' : Nat → Bool} (h : Serving c nodes hasCallBack served)
    (hrunning : c.running = true) (extra : List Nat)
    (hsame : ∀ n ∈ nodes, hasCallBack' n = hasCallBack n)
    : Serving c (nodes ++ extra) hasCallBack' served := by
  obtain ⟨pre, rest, rfl, hsub, hrest, rfl⟩ := h
  have hne := hrest hrunning
  refine ⟨pre, rest ++ extra, by simp, ?_, fun _ => by simp [hne], ?_⟩
  . cases rest with
    | nil => contradiction
    | cons n rest => exact hsub
  . rw [if_pos hrunning, if_pos hrunning]
    cases rest with
    | nil => contradiction
    | cons n rest =>
      simp only [List.cons_append, List.take_succ_cons, List.take_zero]
      apply (List.filter_congr _).symm
      intro n' hn'
      apply hsame
      simp only [List.mem_append, List.mem_singleton] at hn'
      simp only [List.mem_append, List.mem_cons]
      tauto

theorem start {charData : Option Nat} {load : Nat} {charId : Int}
    : Serving ⟨load, charId, charData, nodes.head?, false⟩ nodes hasCallBack [] :=
  ⟨[], nodes, rfl, rfl, by simp, rfl⟩

theorem onResult (h : Serving c nodes hasCallBack served) (hrunning : c.running = false) {n : Nat}
    (hsub : c.subIter = some n) (hn : hasCallBack n = true)
    : Serving { c with running := true } nodes hasCallBack (served ++ [n]) := by
  obtain ⟨pre, rest, rfl, hhead, -, rfl⟩ := h
  cases rest with
  | nil => simp [hsub] at hhead
  | cons n' rest =>
    obtain rfl : n = n' := by simpa [hsub] using hhead
    refine ⟨pre, n :: rest, rfl, hhead, by simp, ?_⟩
    simp [hrunning, hn]

theorem next (h : Serving c nodes hasCallBack served) {n : Nat} {subIter : Option Nat}
    (hsub : c.subIter = some n) (hn : c.running = false → hasCallBack n = false)
    (hnext : ∀ pre rest, nodes = pre ++ n :: rest → subIter = rest.head?)
    : Serving { c with subIter := subIter, running := false } nodes hasCallBack served := by
  obtain ⟨pre, rest, rfl, hhead, -, rfl⟩ := h
  cases rest with
  | nil => simp [hsub] at hhead
  | cons n' rest =>
    obtain rfl : n = n' := by simpa [hsub] using hhead
    refine ⟨pre ++ [n], rest, by simp, hnext pre rest rfl, by simp, ?_⟩
    cases hrunning : c.running with
    | true => simp
    | false => simp [hn hrunning]

theorem finish (h : Serving c nodes hasCallBack served) (hsub : c.subIter = none)
    (hrunning : c.running = false)
    : served = nodes.filter hasCallBack := by
  obtain ⟨pre, rest, rfl, hhead, -, rfl⟩ := h
  cases rest with
  | nil => simp [hrunning]
  | cons n rest => simp [hsub] at hhead

end Serving

theorem inv_empty : Inv .empty .empty := by
  constructor
  case wf => exact KeyQueues.wf_empty
  case nodup => exact List.nodup_nil
  all_goals simp [empty, KeyQueues.empty, hasCallBack, Outstanding]

namespace Inv

theorem lt_of_getElem? {α : Type} {xs : List α} {i : Nat} {x : α} (h : xs[i]? = some x)
    : i < xs.length := by
  by_contra hge
  rw [List.getElem?_eq_none_iff.mpr (by omega)] at h
  contradiction

section Kept

variable {tasks' : List LoadTask}
  (hkept : ∀ {load : Nat} {task : LoadTask}, v.tasks[load]? = some task
    → ∃ task', tasks'[load]? = some task' ∧ task'.charId = task.charId)

include hkept

theorem callLoad_of_kept (I : Inv q v)
    : ∀ call ∈ v.calls, ∀ load, call.load = some load
        → ∃ task, tasks'[load]? = some task ∧ task.charId = call.charId := by
  intro call hcall load hload
  obtain ⟨task, htask, hchar⟩ := I.callLoad call hcall load hload
  obtain ⟨task', htask', hchar'⟩ := hkept htask
  exact ⟨task', htask', hchar'.trans hchar⟩

theorem lastLoad_of_kept (I : Inv q v)
    : ∀ k load, v.lastLoad k = some load → ∃ task, tasks'[load]? = some task ∧ task.charId = k := by
  intro k load hlast
  obtain ⟨task, htask, hchar⟩ := I.lastLoad k load hlast
  obtain ⟨task', htask', hchar'⟩ := hkept htask
  exact ⟨task', htask', hchar'.trans hchar⟩

end Kept

theorem calling_of_completion (I : Inv q v) {c : Completion} (hc : c ∈ v.completions)
    (htask : v.tasks[c.load]? = some task)
    : task.phase = .calling := by
  obtain ⟨task', htask', hphase, -⟩ := I.completion c hc
  obtain rfl : task = task' := Option.some.inj (htask.symm.trans htask')
  exact hphase

theorem outstanding_completion (I : Inv q v) {c : Completion} (hc : c ∈ v.completions)
    : ∃ task, v.Outstanding c.load task ∧ task.phase = .calling ∧ task.charId = c.charId := by
  obtain ⟨task, htask, hphase, hchar⟩ := I.completion c hc
  exact ⟨task, ⟨htask, by simp [hphase]⟩, hphase, hchar⟩

theorem outstanding_unique (I : Inv q v) {load' : Nat} {task' : LoadTask}
    (h : v.Outstanding load task) (h' : v.Outstanding load' task')
    (hchar : task.charId = task'.charId)
    : load = load' := by
  have hlast := I.latest load task h
  rw [hchar, I.latest load' task' h'] at hlast
  exact (Option.some.inj hlast).symm

theorem running_of_unlocked (I : Inv q v) (h : v.unlocked = true)
    : ∀ c ∈ v.completions, c.running = true := by
  intro c hc
  have hbelow := I.below
  unfold unlocked at h
  cases hcs : v.completions with
  | nil => simp [hcs] at hc
  | cons c' cs =>
    rw [hcs] at h hc hbelow
    rcases List.mem_cons.mp hc with rfl | hc
    . exact h
    . exact hbelow c hc

theorem queue_completion (I : Inv q v) {c : Completion} (hc : c ∈ v.completions)
    : q.queue c.charId = v.waiting c.load := by
  obtain ⟨task, hout, -, hchar⟩ := I.outstanding_completion hc
  rw [← hchar]
  exact (I.queued c.load task hout).1

theorem served_eq_nil (I : Inv q v) (h : v.tasks.length ≤ load) : v.served load = [] := by
  unfold served
  rw [List.map_eq_nil_iff, List.filter_eq_nil_iff]
  intro i hi hload
  have := I.invoked i hi load (by simpa using hload)
  omega

theorem waiting_eq_nil (I : Inv q v) (h : v.tasks.length ≤ load) : v.waiting load = [] := by
  unfold waiting
  rw [List.filter_eq_nil_iff]
  intro n hn hload
  obtain ⟨call, hcall, hload⟩ := Option.bind_eq_some_iff.mp (by simpa using hload)
  obtain ⟨task, htask, -⟩ := I.callLoad call (List.mem_of_getElem? hcall) load hload
  have := lt_of_getElem? htask
  omega

theorem data_addKey (I : Inv q v) (charId : Int) (callBack : Bool) (load : Option Nat) (n : Nat)
    : (q.addKey charId (if callBack then some v.calls.length else none)).data n
        = if (v.addCall charId callBack load).hasCallBack n then some n else none := by
  show Function.update q.data q.size _ n = _
  rw [hasCallBack_addCall, I.size]
  by_cases h : n = v.calls.length
  . subst h
    simp
  . simp [h, I.data n]

theorem size_addKey (I : Inv q v) (charId : Int) (callBack : Bool) (load : Option Nat)
    (data : Option Nat)
    : (q.addKey charId data).size = (v.addCall charId callBack load).calls.length := by
  show q.size + 1 = (v.calls ++ [_]).length
  rw [I.size, List.length_append]
  rfl

theorem serving_addCall (I : Inv q v) (hunlocked : v.unlocked = true) (charId : Int)
    (callBack : Bool) (load : Option Nat) {c : Completion} (hc : c ∈ v.completions)
    : Serving c ((v.addCall charId callBack load).waiting c.load)
        (v.addCall charId callBack load).hasCallBack (v.served c.load) := by
  rw [waiting_addCall]
  apply (I.serving c hc).join (I.running_of_unlocked hunlocked c hc)
  intro n hn
  have := waiting_lt hn
  rw [hasCallBack_addCall, if_neg (by omega)]

theorem join (I : Inv q v) {charId : Int} {callBack : Bool} (hunlocked : v.unlocked = true)
    (hqueue : q.queue charId ≠ [])
    : Inv (q.addKey charId (if callBack then some v.calls.length else none))
        (v.join charId callBack) := by
  constructor
  case wf => exact I.wf.addKey
  case size => exact I.size_addKey charId callBack _ _
  case data => exact I.data_addKey charId callBack _
  case callLoad => exact callLoad_addCall I.callLoad (I.lastLoad charId)
  case lastLoad => exact I.lastLoad
  case latest => exact I.latest
  case known =>
    intro k hk
    by_cases hkk : k = charId
    . subst hkk
      exact I.known k hqueue
    . exact I.known k (by simpa [KeyQueues.addKey, hkk] using hk)
  case queued =>
    intro load task hout
    obtain ⟨hwait, hne⟩ := I.queued load task hout
    have hlatest := I.latest load task hout
    show Function.update q.queue charId _ _ = (v.addCall charId callBack _).waiting load
      ∧ Function.update q.queue charId _ _ ≠ []
    rw [waiting_addCall]
    by_cases hk : task.charId = charId
    . rw [hk] at hlatest hwait
      rw [hk, Function.update_self, hlatest, if_pos rfl, hwait, I.size]
      simp
    . rw [Function.update_of_ne hk, if_neg, List.append_nil]
      . exact ⟨hwait, hne⟩
      . intro hlast
        obtain ⟨task', htask', hchar'⟩ := I.lastLoad charId load hlast
        obtain rfl : task = task' := Option.some.inj (hout.1.symm.trans htask')
        exact hk hchar'
  case completion => exact I.completion
  case nodup => exact I.nodup
  case below => exact I.below
  case serving => exact fun c hc => I.serving_addCall hunlocked charId callBack _ hc
  case unserved => exact I.unserved
  case result => exact I.result
  case invoked => exact I.invoked

theorem refuse (I : Inv q v) {charId : Int} {callBack : Bool} (hunlocked : v.unlocked = true)
    (hqueue : q.queue charId = [])
    : Inv ((q.addKey charId (if callBack then some v.calls.length else none)).deleteKey charId)
        (v.refuse charId callBack) := by
  have hsame : ∀ k, ((q.addKey charId (if callBack then some v.calls.length else none)).deleteKey
      charId).queue k = q.queue k := by
    intro k
    by_cases hk : k = charId
    . subst hk
      simp [KeyQueues.deleteKey, hqueue]
    . simp [KeyQueues.deleteKey, KeyQueues.addKey, hk]
  have hinvoked : ∀ i ∈ (v.refuse charId callBack).invoked, ∀ load, i.load = some load
      → i ∈ v.invoked := by
    intro i hi load hload
    unfold Loads.refuse at hi
    simp only at hi
    split at hi
    . rcases List.mem_append.mp hi with hi | hi
      . exact hi
      . obtain rfl := List.mem_singleton.mp hi
        contradiction
    . exact hi
  constructor
  case wf => exact I.wf.addKey.deleteKey
  case size => exact I.size_addKey charId callBack none none
  case data => exact I.data_addKey charId callBack none
  case callLoad => exact callLoad_addCall I.callLoad nofun
  case lastLoad => exact I.lastLoad
  case latest => exact I.latest
  case known =>
    intro k hk
    rw [hsame] at hk
    exact I.known k hk
  case queued =>
    intro load task hout
    rw [hsame]
    show q.queue task.charId = (v.addCall charId callBack none).waiting load ∧ _
    rw [waiting_addCall]
    simpa using I.queued load task hout
  case completion => exact I.completion
  case nodup => exact I.nodup
  case below => exact I.below
  case serving =>
    intro c hc
    rw [served_refuse]
    exact I.serving_addCall hunlocked charId callBack none hc
  case unserved =>
    intro load task htask hcalling hdone
    rw [served_refuse]
    exact I.unserved load task htask hcalling hdone
  case result => exact fun c hc i hi hload => I.result c hc i (hinvoked i hi _ hload) hload
  case invoked => exact fun i hi load hload => I.invoked i (hinvoked i hi load hload) load hload

theorem ne_of_outstanding (I : Inv q v) {charId : Int} (hqueue : q.queue charId = [])
    (h : v.Outstanding load task) : task.charId ≠ charId := by
  rintro rfl
  exact (I.queued load task h).2 hqueue

theorem tasks_start {charId : Int} {callBack held : Bool}
    (h : (v.start charId callBack held).tasks[load]? = some task)
    : v.tasks[load]? = some task
      ∨ load = v.tasks.length ∧ task = ⟨charId, .loading CharData.entries, held, []⟩ := by
  simp only [Loads.start, List.getElem?_append] at h
  split at h
  . exact .inl h
  . next hge =>
    have hlt := lt_of_getElem? h
    rw [List.length_singleton] at hlt
    obtain rfl : load = v.tasks.length := by omega
    exact .inr ⟨rfl, by simpa [eq_comm] using h⟩

theorem tasks_start_of_some {charId : Int} {callBack held : Bool} (h : v.tasks[load]? = some task)
    : (v.start charId callBack held).tasks[load]? = some task := by
  simp only [Loads.start]
  rw [List.getElem?_append_left (lt_of_getElem? h)]
  exact h

theorem start (I : Inv q v) {charId : Int} {callBack held : Bool} (hunlocked : v.unlocked = true)
    (hqueue : q.queue charId = [])
    : Inv (q.addKey charId (if callBack then some v.calls.length else none))
        (v.start charId callBack held) := by
  have hnew : (v.start charId callBack held).tasks[v.tasks.length]?
      = some ⟨charId, .loading CharData.entries, held, []⟩ := by
    simp [Loads.start]
  constructor
  case wf => exact I.wf.addKey
  case size => exact I.size_addKey charId callBack _ _
  case data => exact I.data_addKey charId callBack _
  case callLoad =>
    refine callLoad_addCall (I.callLoad_of_kept fun h => ⟨_, tasks_start_of_some h, rfl⟩) ?_
    intro load hload
    obtain rfl := Option.some.inj hload
    exact ⟨_, hnew, rfl⟩
  case lastLoad =>
    intro k load hlast
    have hlast : Function.update v.lastLoad charId (some v.tasks.length) k = some load := hlast
    by_cases hk : k = charId
    . subst hk
      rw [Function.update_self] at hlast
      obtain rfl := Option.some.inj hlast
      exact ⟨_, hnew, rfl⟩
    . rw [Function.update_of_ne hk] at hlast
      obtain ⟨task, htask, hchar⟩ := I.lastLoad k load hlast
      exact ⟨task, tasks_start_of_some htask, hchar⟩
  case latest =>
    rintro load task ⟨htask, hdone⟩
    show Function.update v.lastLoad charId (some v.tasks.length) task.charId = some load
    rcases tasks_start htask with htask | ⟨rfl, rfl⟩
    . rw [Function.update_of_ne (I.ne_of_outstanding hqueue ⟨htask, hdone⟩)]
      exact I.latest load task ⟨htask, hdone⟩
    . exact Function.update_self ..
  case known =>
    intro k hk
    show Function.update v.lastLoad charId (some v.tasks.length) k ≠ none
    by_cases hkk : k = charId
    . simp [hkk]
    . rw [Function.update_of_ne hkk]
      exact I.known k (by simpa [KeyQueues.addKey, hkk] using hk)
  case queued =>
    rintro load task ⟨htask, hdone⟩
    show Function.update q.queue charId _ _ = (v.addCall charId callBack _).waiting load
      ∧ Function.update q.queue charId _ _ ≠ []
    rw [waiting_addCall]
    rcases tasks_start htask with htask | ⟨rfl, rfl⟩
    . obtain ⟨hwait, hne⟩ := I.queued load task ⟨htask, hdone⟩
      have hk := I.ne_of_outstanding hqueue ⟨htask, hdone⟩
      have hlt := lt_of_getElem? htask
      rw [Function.update_of_ne hk, if_neg (by simp; omega), List.append_nil]
      exact ⟨hwait, hne⟩
    . rw [Function.update_self, hqueue, I.waiting_eq_nil (Nat.le_refl _), if_pos rfl, I.size]
      simp
  case completion =>
    intro c hc
    obtain ⟨task, htask, h⟩ := I.completion c hc
    exact ⟨task, tasks_start_of_some htask, h⟩
  case nodup => exact I.nodup
  case below => exact I.below
  case serving => exact fun c hc => I.serving_addCall hunlocked charId callBack _ hc
  case unserved =>
    intro load task htask hcalling hdone
    rcases tasks_start htask with htask | ⟨rfl, -⟩
    . exact I.unserved load task htask hcalling hdone
    . exact I.served_eq_nil (Nat.le_refl _)
  case result => exact I.result
  case invoked =>
    intro i hi load hload
    have := I.invoked i hi load hload
    show load < (v.tasks ++ [_]).length
    rw [List.length_append]
    omega

theorem setTask (I : Inv q v) (htask : v.tasks[load]? = some task)
    (hcalling : task.phase ≠ .calling) (hdone : task.phase ≠ .done) {task' : LoadTask}
    (hchar : task'.charId = task.charId)
    : Inv q (v.setTask load task') := by
  have htasks := tasks_setTask htask task'
  -- a task of before has the same number and the same player
  have hback : ∀ {load₁ : Nat} {task₁ : LoadTask}, (v.setTask load task').tasks[load₁]? = some task₁
      → ∃ task₀, v.tasks[load₁]? = some task₀ ∧ task₀.charId = task₁.charId
        ∧ (task₁.phase ≠ .done → task₀.phase ≠ .done)
        ∧ (task₁.phase ≠ .calling → task₀.phase ≠ .calling) := by
    intro load₁ task₁ h
    rw [htasks] at h
    split at h
    . next heq =>
      subst heq
      obtain rfl := Option.some.inj h
      exact ⟨task, htask, hchar.symm, fun _ => hdone, fun _ => hcalling⟩
    . exact ⟨task₁, h, rfl, fun h => h, fun h => h⟩
  constructor
  case wf => exact I.wf
  case size => exact I.size
  case data => exact I.data
  case callLoad =>
    have hcallLoad := I.callLoad_of_kept (replaced htask htasks hchar)
    exact hcallLoad
  case lastLoad =>
    have hlastLoad := I.lastLoad_of_kept (replaced htask htasks hchar)
    exact hlastLoad
  case latest =>
    rintro load₁ task₁ ⟨htask₁, hdone₁⟩
    obtain ⟨task₀, htask₀, hchar₀, hdone₀, -⟩ := hback htask₁
    rw [← hchar₀]
    exact I.latest load₁ task₀ ⟨htask₀, hdone₀ hdone₁⟩
  case known => exact I.known
  case queued =>
    rintro load₁ task₁ ⟨htask₁, hdone₁⟩
    obtain ⟨task₀, htask₀, hchar₀, hdone₀, -⟩ := hback htask₁
    rw [← hchar₀]
    exact I.queued load₁ task₀ ⟨htask₀, hdone₀ hdone₁⟩
  case completion =>
    intro c hc
    obtain ⟨task₀, htask₀, hphase, hchar₀⟩ := I.completion c hc
    refine ⟨task₀, ?_, hphase, hchar₀⟩
    rw [htasks, if_neg]
    . exact htask₀
    . rintro rfl
      exact hcalling (I.calling_of_completion hc htask)
  case nodup => exact I.nodup
  case below => exact I.below
  case serving => exact I.serving
  case unserved =>
    intro load₁ task₁ htask₁ hcalling₁ hdone₁
    obtain ⟨task₀, htask₀, -, hdone₀, hcalling₀⟩ := hback htask₁
    exact I.unserved load₁ task₀ htask₀ (hcalling₀ hcalling₁) (hdone₀ hdone₁)
  case result => exact I.result
  case invoked =>
    intro i hi load₁ hload
    show load₁ < (v.tasks.set load task').length
    rw [List.length_set]
    exact I.invoked i hi load₁ hload

theorem startCallbacks (I : Inv q v) {charData : Option Nat} (htask : v.tasks[load]? = some task)
    (hphase : task.phase = .installed charData) (hmay : v.mayComplete task.charId = true)
    : Inv q (v.startCallbacks load task charData (q.search task.charId)) := by
  have I' : Inv q (v.setTask load { task with phase := .calling }) :=
    I.setTask htask (by simp [hphase]) (by simp [hphase]) rfl
  have hunlocked : v.unlocked = true := by
    unfold mayComplete at hmay
    unfold unlocked
    split
    . rfl
    . next c cs hcs =>
      rw [hcs] at hmay
      simp only [Bool.and_eq_true] at hmay
      exact hmay.1
  have hserved : v.served load = [] :=
    I.unserved load task htask (by simp [hphase]) (by simp [hphase])
  have hnew : ∀ c ∈ v.completions, c.load ≠ load := by
    rintro c hc rfl
    have hcalling := I.calling_of_completion hc htask
    rw [hphase] at hcalling
    contradiction
  have hwaiting : q.queue task.charId = v.waiting load :=
    (I.queued load task ⟨htask, by simp [hphase]⟩).1
  constructor
  case wf => exact I'.wf
  case size => exact I'.size
  case data => exact I'.data
  case callLoad => exact I'.callLoad
  case lastLoad => exact I'.lastLoad
  case latest => exact I'.latest
  case known => exact I'.known
  case queued => exact I'.queued
  case completion =>
    intro c hc
    rcases List.mem_cons.mp hc with rfl | hc
    . refine ⟨{ task with phase := .calling }, ?_, rfl, rfl⟩
      show (v.setTask load { task with phase := .calling }).tasks[load]? = _
      rw [tasks_setTask htask, if_pos rfl]
    . exact I'.completion c hc
  case nodup =>
    show (load :: v.completions.map Completion.load).Nodup
    rw [List.nodup_cons]
    refine ⟨?_, I.nodup⟩
    intro hmem
    obtain ⟨c, hc, rfl⟩ := List.mem_map.mp hmem
    exact hnew c hc rfl
  case below => exact I.running_of_unlocked hunlocked
  case serving =>
    intro c hc
    rcases List.mem_cons.mp hc with rfl | hc
    . show Serving _ (v.waiting load) v.hasCallBack (v.served load)
      rw [hserved, ← hwaiting]
      exact Serving.start
    . exact I'.serving c hc
  case unserved => exact I'.unserved
  case result =>
    intro c hc i hi hload
    rcases List.mem_cons.mp hc with rfl | hc
    . have : i.call ∈ v.served load :=
        List.mem_map_of_mem (List.mem_filter.mpr ⟨hi, by simpa using hload⟩)
      simp [hserved] at this
    . exact I.result c hc i hi hload
  case invoked => exact I'.invoked

theorem completions_below (I : Inv q v) {c c' : Completion} {cs : List Completion}
    (hcs : v.completions = c :: cs) (hc' : c' ∈ cs) : c' ∈ v.completions ∧ c'.load ≠ c.load := by
  refine ⟨by simp [hcs, hc'], ?_⟩
  have hnodup := I.nodup
  rw [hcs, List.map_cons, List.nodup_cons] at hnodup
  intro heq
  exact hnodup.1 (heq ▸ List.mem_map_of_mem hc')

theorem onResult (I : Inv q v) {c : Completion} {cs : List Completion} {subIter call : Nat}
    (hcs : v.completions = c :: cs) (hsub : c.subIter = some subIter) (hrunning : c.running = false)
    (hcall : q.data subIter = some call)
    : Inv q (v.onResult c cs call) := by
  have hc : c ∈ v.completions := by simp [hcs]
  have hcs' {c' : Completion} (hc' : c' ∈ cs) := I.completions_below hcs hc'
  obtain ⟨rfl, hback⟩ : subIter = call ∧ v.hasCallBack subIter = true := by
    have hdata := I.data subIter
    rw [hcall] at hdata
    split at hdata
    . next hback => exact ⟨(Option.some.inj hdata).symm, hback⟩
    . contradiction
  constructor
  case wf => exact I.wf
  case size => exact I.size
  case data => exact I.data
  case callLoad => exact I.callLoad
  case lastLoad => exact I.lastLoad
  case latest => exact I.latest
  case known => exact I.known
  case queued => exact I.queued
  case completion =>
    intro c' hc'
    rcases List.mem_cons.mp hc' with rfl | hc'
    . exact I.completion c hc
    . exact I.completion c' (hcs' hc').1
  case nodup =>
    have hnodup := I.nodup
    rw [hcs] at hnodup
    exact hnodup
  case below =>
    have hbelow := I.below
    rw [hcs] at hbelow
    exact hbelow
  case serving =>
    intro c' hc'
    rw [served_onResult]
    show Serving c' (v.waiting c'.load) v.hasCallBack _
    rcases List.mem_cons.mp hc' with rfl | hc'
    . rw [if_pos rfl]
      exact (I.serving c hc).onResult hrunning hsub hback
    . obtain ⟨hmem, hne⟩ := hcs' hc'
      rw [if_neg (Ne.symm hne), List.append_nil]
      exact I.serving c' hmem
  case unserved =>
    intro load task htask hcalling hdone
    rw [served_onResult, if_neg, List.append_nil]
    . exact I.unserved load task htask hcalling hdone
    . rintro rfl
      exact hcalling (I.calling_of_completion hc htask)
  case result =>
    intro c' hc' i hi hload
    rcases List.mem_append.mp hi with hi | hi
    . rcases List.mem_cons.mp hc' with rfl | hc'
      . exact I.result c hc i hi hload
      . exact I.result c' (hcs' hc').1 i hi hload
    . obtain rfl := List.mem_singleton.mp hi
      rcases List.mem_cons.mp hc' with rfl | hc'
      . rfl
      . exact absurd (Option.some.inj hload).symm (hcs' hc').2
  case invoked =>
    intro i hi load hload
    rcases List.mem_append.mp hi with hi | hi
    . exact I.invoked i hi load hload
    . obtain rfl := List.mem_singleton.mp hi
      obtain rfl := Option.some.inj hload
      obtain ⟨task, htask, -⟩ := I.completion c hc
      exact lt_of_getElem? htask

theorem next (I : Inv q v) {c : Completion} {cs : List Completion} {subIter : Nat}
    (hcs : v.completions = c :: cs) (hsub : c.subIter = some subIter)
    (hdata : c.running = false → q.data subIter = none)
    : Inv q (v.nextCallback c cs (q.sameNext subIter)) := by
  have hc : c ∈ v.completions := by simp [hcs]
  have hcs' {c' : Completion} (hc' : c' ∈ cs) := (I.completions_below hcs hc').1
  have hback : c.running = false → v.hasCallBack subIter = false := by
    intro hrunning
    have := I.data subIter
    rw [hdata hrunning] at this
    split at this
    . contradiction
    . next h => simpa using h
  constructor
  case wf => exact I.wf
  case size => exact I.size
  case data => exact I.data
  case callLoad => exact I.callLoad
  case lastLoad => exact I.lastLoad
  case latest => exact I.latest
  case known => exact I.known
  case queued => exact I.queued
  case completion =>
    intro c' hc'
    rcases List.mem_cons.mp hc' with rfl | hc'
    . exact I.completion c hc
    . exact I.completion c' (hcs' hc')
  case nodup =>
    have hnodup := I.nodup
    rw [hcs] at hnodup
    exact hnodup
  case below =>
    have hbelow := I.below
    rw [hcs] at hbelow
    exact hbelow
  case serving =>
    intro c' hc'
    rcases List.mem_cons.mp hc' with rfl | hc'
    . apply (I.serving c hc).next hsub hback
      intro pre rest hnodes
      rw [← I.queue_completion hc] at hnodes
      exact I.wf.sameNext_eq hnodes
    . exact I.serving c' (hcs' hc')
  case unserved => exact I.unserved
  case result =>
    intro c' hc' i hi hload
    rcases List.mem_cons.mp hc' with rfl | hc'
    . exact I.result c hc i hi hload
    . exact I.result c' (hcs' hc') i hi hload
  case invoked => exact I.invoked

theorem finish {q' : KeyQueues Nat} (I : Inv q v) {c : Completion} {cs : List Completion}
    (hcs : v.completions = c :: cs) (hwf : q'.WF) (hsize : q'.size = q.size)
    (hdata : q'.data = q.data) (hqueue : ∀ k, k ≠ c.charId → q'.queue k = q.queue k)
    : Inv q' (v.finish c cs) := by
  have hc : c ∈ v.completions := by simp [hcs]
  have hcs' {c' : Completion} (hc' : c' ∈ cs) := I.completions_below hcs hc'
  obtain ⟨ended, hended, hphase, hchar⟩ := I.completion c hc
  have htasks := tasks_finish hended cs
  have hout : ∀ {load task}, (v.finish c cs).Outstanding load task
      → v.Outstanding load task ∧ load ≠ c.load := by
    rintro load task ⟨htask, hdone⟩
    rw [htasks] at htask
    split at htask
    . obtain rfl := Option.some.inj htask
      exact absurd rfl hdone
    . next hne => exact ⟨⟨htask, hdone⟩, hne⟩
  constructor
  case wf => exact hwf
  case size => exact hsize.trans I.size
  case data => rw [hdata]; exact I.data
  case callLoad =>
    have hcallLoad := I.callLoad_of_kept (replaced hended htasks rfl)
    exact hcallLoad
  case lastLoad =>
    have hlastLoad := I.lastLoad_of_kept (replaced hended htasks rfl)
    exact hlastLoad
  case latest =>
    intro load task h
    exact I.latest load task (hout h).1
  case known =>
    intro k hk
    by_cases hkk : k = c.charId
    . have hlast := I.latest c.load ended ⟨hended, by simp [hphase]⟩
      rw [hchar, ← hkk] at hlast
      show v.lastLoad k ≠ none
      simp [hlast]
    . rw [hqueue k hkk] at hk
      exact I.known k hk
  case queued =>
    intro load task h
    obtain ⟨h₀, hne⟩ := hout h
    have hk : task.charId ≠ c.charId := by
      intro hk
      apply hne
      exact I.outstanding_unique h₀ ⟨hended, by simp [hphase]⟩ (hk.trans hchar.symm)
    rw [hqueue _ hk]
    exact I.queued load task h₀
  case completion =>
    intro c' hc'
    obtain ⟨hmem, hne⟩ := hcs' hc'
    obtain ⟨task, htask, h⟩ := I.completion c' hmem
    exact ⟨task, by rw [htasks, if_neg hne]; exact htask, h⟩
  case nodup =>
    have hnodup := I.nodup
    rw [hcs, List.map_cons, List.nodup_cons] at hnodup
    exact hnodup.2
  case below =>
    have hbelow := I.below
    rw [hcs] at hbelow
    exact fun c' hc' => hbelow c' (List.mem_of_mem_tail hc')
  case serving => exact fun c' hc' => I.serving c' (hcs' hc').1
  case unserved =>
    intro load task htask hcalling hdone
    exact I.unserved load task (hout ⟨htask, hdone⟩).1.1 hcalling hdone
  case result => exact fun c' hc' => I.result c' (hcs' hc').1
  case invoked =>
    intro i hi load hload
    show load < (v.tasks.modify c.load _).length
    rw [List.length_modify]
    exact I.invoked i hi load hload

end Inv

theorem Step.inv {Threw : Prop} (I : Inv q v) (hstep : Step Threw q v q' v') : Inv q' v' := by
  cases hstep with
  | join hunlocked hqueue => exact I.join hunlocked hqueue
  | start hunlocked hqueue => exact I.start hunlocked hqueue
  | refuse hunlocked hqueue => exact I.refuse hunlocked hqueue
  | load htask hcalling hdone _ _ hchar => exact I.setTask htask hcalling hdone hchar
  | startCallbacks htask hphase hmay => exact I.startCallbacks htask hphase hmay
  | onResult hcs hsub hrunning hcall => exact I.onResult hcs hsub hrunning hcall
  | next hcs hsub hdata => exact I.next hcs hsub hdata
  | throws _ hcs => exact I.finish hcs I.wf rfl rfl fun _ _ => rfl
  | finish hcs _ _ =>
    apply I.finish hcs I.wf.deleteKey rfl rfl
    intro k hk
    simp [KeyQueues.deleteKey, hk]
  | other => exact I

end Loads

end WzGame
