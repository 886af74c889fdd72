import WzGame.Db.LoadsInv

/-!
This module contains what becomes of the calls in the end: the ones of a load get the same result,
and as long as no callback throws they are all served and leave the queue.
-/

namespace WzGame

namespace Loads

variable {v v' : Loads} {q q' : KeyQueues Nat} {Threw : Prop} {load n : Nat} {task : LoadTask}

theorem mem_waiting : n ∈ v.waiting load ↔ ∃ call, v.calls[n]? = some call ∧ call.load = some load := by
  unfold waiting
  rw [List.mem_filter, List.mem_range]
  constructor
  . rintro ⟨-, h⟩
    exact Option.bind_eq_some_iff.mp (by simpa using h)
  . rintro ⟨call, hcall, hload⟩
    exact ⟨Inv.lt_of_getElem? hcall, by simp [hcall, hload]⟩

theorem Inv.subIter_mem (I : Inv q v) {c : Completion} (hc : c ∈ v.completions) {subIter : Nat}
    (hsub : c.subIter = some subIter)
    : subIter ∈ v.waiting c.load := by
  obtain ⟨pre, rest, hnodes, hhead, -⟩ := I.serving c hc
  rw [hsub] at hhead
  rw [hnodes]
  exact List.mem_append_right _ (List.mem_of_mem_head? hhead.symm)

structure Results (v : Loads) : Prop where
  call : ∀ i ∈ v.invoked, ∃ call, v.calls[i.call]? = some call ∧ call.load = i.load
  same : ∀ i ∈ v.invoked, ∀ j ∈ v.invoked, i.load = j.load → i.load ≠ none → i.charData = j.charData
  refused : ∀ n call, v.calls[n]? = some call → call.load = none
    → v.invoked.filter (fun i => i.call = n) = if call.callBack then [⟨n, none, none⟩] else []

theorem results_empty : Results .empty := by
  constructor <;> simp [empty]

namespace Results

theorem congr (R : Results v) (hcalls : v'.calls = v.calls) (hinvoked : v'.invoked = v.invoked)
    : Results v' := by
  constructor
  case call => rw [hcalls, hinvoked]; exact R.call
  case same => rw [hinvoked]; exact R.same
  case refused => rw [hcalls, hinvoked]; exact R.refused

theorem invoked_lt (R : Results v) {i : Invocation} (hi : i ∈ v.invoked)
    : i.call < v.calls.length := by
  obtain ⟨call, hcall, -⟩ := R.call i hi
  exact Inv.lt_of_getElem? hcall

theorem getElem?_addCall {charId : Int} {callBack : Bool} {load' : Option Nat} {call : Call}
    (h : (v.addCall charId callBack load').calls[n]? = some call)
    : v.calls[n]? = some call ∨ n = v.calls.length ∧ call = ⟨charId, callBack, load'⟩ := by
  unfold addCall at h
  rw [List.getElem?_append] at h
  split at h
  . exact .inl h
  . next hge =>
    have hlt := Inv.lt_of_getElem? h
    rw [List.length_singleton] at hlt
    obtain rfl : n = v.calls.length := by omega
    exact .inr ⟨rfl, by simpa [eq_comm] using h⟩

theorem addCall (R : Results v) (charId : Int) (callBack : Bool) (load : Nat)
    : Results (v.addCall charId callBack (some load)) := by
  constructor
  case call =>
    intro i hi
    obtain ⟨call, hcall, hload⟩ := R.call i hi
    refine ⟨call, ?_, hload⟩
    unfold Loads.addCall
    rw [List.getElem?_append_left (Inv.lt_of_getElem? hcall)]
    exact hcall
  case same => exact R.same
  case refused =>
    intro n call hcall hload
    rcases getElem?_addCall hcall with hcall | ⟨-, rfl⟩
    . exact R.refused n call hcall hload
    . contradiction

theorem refuse (R : Results v) (charId : Int) (callBack : Bool)
    : Results (v.refuse charId callBack) := by
  have hnew : v.invoked.filter (fun i => i.call = v.calls.length) = [] := by
    rw [List.filter_eq_nil_iff]
    intro i hi heq
    have hlt := R.invoked_lt hi
    simp only [decide_eq_true_eq] at heq
    omega
  have hinvoked : ∀ i ∈ (v.refuse charId callBack).invoked,
      i ∈ v.invoked ∨ i = ⟨v.calls.length, none, none⟩ := by
    intro i hi
    unfold Loads.refuse at hi
    simp only at hi
    split at hi
    . simpa using hi
    . exact .inl hi
  constructor
  case call =>
    intro i hi
    show ∃ call, (v.addCall charId callBack none).calls[i.call]? = some call ∧ _
    unfold Loads.addCall
    rcases hinvoked i hi with hi | rfl
    . obtain ⟨call, hcall, hload⟩ := R.call i hi
      refine ⟨call, ?_, hload⟩
      rw [List.getElem?_append_left (Inv.lt_of_getElem? hcall)]
      exact hcall
    . exact ⟨⟨charId, callBack, none⟩, by simp, rfl⟩
  case same =>
    intro i hi j hj heq hload
    rcases hinvoked i hi with hi | rfl
    . rcases hinvoked j hj with hj | rfl
      . exact R.same i hi j hj heq hload
      . exact absurd heq hload
    . exact absurd rfl hload
  case refused =>
    intro n call hcall hload
    unfold Loads.refuse
    simp only
    rcases getElem?_addCall hcall with hcall | ⟨rfl, rfl⟩
    . have hlt := Inv.lt_of_getElem? hcall
      have hrest : ([⟨v.calls.length, none, none⟩] : List Invocation).filter (fun i => i.call = n)
          = [] := by
        simp
        omega
      split
      . rw [List.filter_append, hrest, List.append_nil]
        exact R.refused n call hcall hload
      . exact R.refused n call hcall hload
    . split
      . next h => simp [hnew]
      . next h => simp [hnew]

theorem onResult (R : Results v) (I : Inv q v) {c : Completion} {cs : List Completion}
    {subIter : Nat} (hcs : v.completions = c :: cs) (hsub : c.subIter = some subIter)
    : Results (v.onResult c cs subIter) := by
  have hc : c ∈ v.completions := by simp [hcs]
  obtain ⟨call, hcall, hload⟩ := mem_waiting.mp (I.subIter_mem hc hsub)
  constructor
  case call =>
    intro i hi
    rcases List.mem_append.mp hi with hi | hi
    . exact R.call i hi
    . obtain rfl := List.mem_singleton.mp hi
      exact ⟨call, hcall, hload⟩
  case same =>
    intro i hi j hj heq hne
    rcases List.mem_append.mp hi with hi | hi <;> rcases List.mem_append.mp hj with hj | hj
    . exact R.same i hi j hj heq hne
    . obtain rfl := List.mem_singleton.mp hj
      exact I.result c hc i hi heq
    . obtain rfl := List.mem_singleton.mp hi
      exact (I.result c hc j hj heq.symm).symm
    . obtain rfl := List.mem_singleton.mp hi
      obtain rfl := List.mem_singleton.mp hj
      rfl
  case refused =>
    intro n call' hcall' hload'
    have hne : subIter ≠ n := by
      rintro rfl
      obtain rfl : call = call' := Option.some.inj (hcall.symm.trans hcall')
      simp [hload] at hload'
    unfold Loads.onResult
    rw [List.filter_append]
    simpa [hne] using R.refused n call' hcall' hload'

end Results

theorem Inv.call_eq (I : Inv q v) {subIter call : Nat} (hcall : q.data subIter = some call)
    : call = subIter := by
  have hdata := I.data subIter
  rw [hcall] at hdata
  split at hdata
  . exact Option.some.inj hdata
  . contradiction

theorem Step.results (I : Inv q v) (R : Results v) (hstep : Step Threw q v q' v') : Results v' := by
  cases hstep with
  | @join charId callBack hunlocked hqueue =>
    obtain ⟨load, hload⟩ := Option.ne_none_iff_exists'.mp (I.known charId hqueue)
    have heq : v.join charId callBack = v.addCall charId callBack (some load) := by
      unfold Loads.join
      rw [hload]
    rw [heq]
    exact R.addCall charId callBack load
  | start _ _ => exact (R.addCall _ _ _).congr rfl rfl
  | refuse _ _ => exact R.refuse _ _
  | onResult hcs hsub _ hcall =>
    rw [I.call_eq hcall]
    exact R.onResult I hcs hsub
  | load _ _ _ _ _ _ => exact R.congr rfl rfl
  | startCallbacks _ _ _ => exact R.congr rfl rfl
  | next _ _ _ => exact R.congr rfl rfl
  | throws _ _ => exact R.congr rfl rfl
  | finish _ _ _ => exact R.congr rfl rfl
  | other => exact R

structure Live (q : KeyQueues Nat) (v : Loads) : Prop where
  outstanding : ∀ k, q.queue k ≠ [] → ∃ load task, v.Outstanding load task ∧ task.charId = k
  done : ∀ load task, v.tasks[load]? = some task → task.phase = .done
    → v.served load = (v.waiting load).filter v.hasCallBack

theorem live_empty : Live .empty .empty := by
  constructor <;> simp [empty, KeyQueues.empty]

namespace Live

theorem done_addCall {charId : Int} {callBack : Bool} {load' : Option Nat}
    (h : v.served load = (v.waiting load).filter v.hasCallBack) (hne : load' ≠ some load)
    : v.served load = ((v.addCall charId callBack load').waiting load).filter
        (v.addCall charId callBack load').hasCallBack := by
  rw [waiting_addCall, if_neg hne, List.append_nil,
    filter_addCall (fun n hn => waiting_lt hn), h]

theorem join (L : Live q v) (I : Inv q v) {charId : Int} {callBack : Bool}
    (hqueue : q.queue charId ≠ [])
    : Live (q.addKey charId (if callBack then some v.calls.length else none))
        (v.join charId callBack) := by
  constructor
  case outstanding =>
    intro k hk
    by_cases hkk : k = charId
    . subst hkk
      exact L.outstanding k hqueue
    . exact L.outstanding k (by simpa [KeyQueues.addKey, hkk] using hk)
  case done =>
    intro load task htask hdone
    apply done_addCall (L.done load task htask hdone)
    intro hlast
    obtain ⟨load', task', hout, hchar⟩ := L.outstanding charId hqueue
    have hlatest := I.latest load' task' hout
    rw [hchar, hlast] at hlatest
    obtain rfl := Option.some.inj hlatest
    obtain rfl : task = task' := Option.some.inj (htask.symm.trans hout.1)
    exact hout.2 hdone

theorem start (L : Live q v) {charId : Int} {callBack held : Bool}
    : Live (q.addKey charId (if callBack then some v.calls.length else none))
        (v.start charId callBack held) := by
  constructor
  case outstanding =>
    intro k hk
    by_cases hkk : k = charId
    . subst hkk
      exact ⟨v.tasks.length, ⟨k, .loading CharData.entries, held, []⟩,
        ⟨by simp [Loads.start], by simp⟩, rfl⟩
    . obtain ⟨load, task, ⟨htask, hdone⟩, hchar⟩ :=
        L.outstanding k (by simpa [KeyQueues.addKey, hkk] using hk)
      refine ⟨load, task, ⟨?_, hdone⟩, hchar⟩
      simp only [Loads.start]
      rw [List.getElem?_append_left (Inv.lt_of_getElem? htask)]
      exact htask
  case done =>
    intro load task htask hdone
    simp only [Loads.start, List.getElem?_append] at htask
    split at htask
    . next hlt =>
      apply done_addCall (L.done load task htask hdone)
      simp
      omega
    . have := List.mem_of_getElem? htask
      obtain rfl := List.mem_singleton.mp this
      contradiction

theorem refuse (L : Live q v) {charId : Int} {callBack : Bool} (hqueue : q.queue charId = [])
    : Live ((q.addKey charId (if callBack then some v.calls.length else none)).deleteKey charId)
        (v.refuse charId callBack) := by
  constructor
  case outstanding =>
    intro k hk
    apply L.outstanding k
    by_cases hkk : k = charId
    . subst hkk
      simp [KeyQueues.deleteKey] at hk
    . simpa [KeyQueues.deleteKey, KeyQueues.addKey, hkk] using hk
  case done =>
    intro load task htask hdone
    rw [served_refuse]
    exact done_addCall (L.done load task htask hdone) (by simp)

theorem setTask (L : Live q v) {task' : LoadTask} (htask : v.tasks[load]? = some task)
    (hdone' : task'.phase ≠ .done) (hchar : task'.charId = task.charId)
    : Live q (v.setTask load task') := by
  have htasks := tasks_setTask htask task'
  constructor
  case outstanding =>
    intro k hk
    obtain ⟨load₀, task₀, ⟨htask₀, hdone₀⟩, hchar₀⟩ := L.outstanding k hk
    by_cases heq : load₀ = load
    . subst heq
      obtain rfl : task = task₀ := Option.some.inj (htask.symm.trans htask₀)
      exact ⟨load₀, task', ⟨by rw [htasks, if_pos rfl], hdone'⟩, hchar.trans hchar₀⟩
    . exact ⟨load₀, task₀, ⟨by rw [htasks, if_neg heq]; exact htask₀, hdone₀⟩, hchar₀⟩
  case done =>
    intro load₁ task₁ htask₁ hdone₁
    rw [htasks] at htask₁
    split at htask₁
    . obtain rfl := Option.some.inj htask₁
      contradiction
    . exact L.done load₁ task₁ htask₁ hdone₁

theorem onResult (L : Live q v) (I : Inv q v) {c : Completion} {cs : List Completion} {call : Nat}
    (hcs : v.completions = c :: cs)
    : Live q (v.onResult c cs call) := by
  constructor
  case outstanding => exact L.outstanding
  case done =>
    intro load task htask hdone
    rw [served_onResult, if_neg, List.append_nil]
    . exact L.done load task htask hdone
    . rintro rfl
      obtain ⟨task', htask', hphase, -⟩ := I.completion c (by simp [hcs])
      obtain rfl : task = task' := Option.some.inj (htask.symm.trans htask')
      rw [hphase] at hdone
      contradiction

theorem finish (L : Live q v) (I : Inv q v) {c : Completion} {cs : List Completion}
    (hcs : v.completions = c :: cs) (hsub : c.subIter = none) (hrunning : c.running = false)
    : Live (q.deleteKey c.charId) (v.finish c cs) := by
  have hc : c ∈ v.completions := by simp [hcs]
  obtain ⟨ended, hended, hphase, hchar⟩ := I.completion c hc
  have htasks := tasks_finish hended cs
  constructor
  case outstanding =>
    intro k hk
    have hkk : k ≠ c.charId := by
      rintro rfl
      simp [KeyQueues.deleteKey] at hk
    obtain ⟨load, task, ⟨htask, hdone⟩, hchar'⟩ :=
      L.outstanding k (by simpa [KeyQueues.deleteKey, hkk] using hk)
    refine ⟨load, task, ⟨?_, hdone⟩, hchar'⟩
    rw [htasks, if_neg]
    . exact htask
    . rintro rfl
      obtain rfl : ended = task := Option.some.inj (hended.symm.trans htask)
      exact hkk (hchar'.symm.trans hchar)
  case done =>
    intro load task htask hdone
    rw [htasks] at htask
    split at htask
    . next heq =>
      subst heq
      exact (I.serving c hc).finish hsub hrunning
    . exact L.done load task htask hdone

end Live

theorem Step.live (I : Inv q v) (L : Live q v) (hthrew : ¬ Threw) (hstep : Step Threw q v q' v')
    : Live q' v' := by
  cases hstep with
  | join _ hqueue => exact L.join I hqueue
  | start _ _ => exact L.start
  | refuse _ hqueue => exact L.refuse hqueue
  | load htask _ _ _ hdone' hchar => exact L.setTask htask hdone' hchar
  | @startCallbacks load task _ htask _ _ =>
    have L' : Live q (v.setTask load { task with phase := .calling }) :=
      L.setTask htask (by simp) rfl
    exact ⟨L'.outstanding, L'.done⟩
  | onResult hcs _ _ _ => exact L.onResult I hcs
  | next _ _ _ => exact ⟨L.outstanding, L.done⟩
  | throws h _ => exact absurd h hthrew
  | finish hcs hsub hrunning => exact L.finish I hcs hsub hrunning
  | other => exact L

def Called (v : Loads) : Prop :=
  ∀ load task, v.tasks[load]? = some task → task.phase = .calling → ∃ c ∈ v.completions, c.load = load

theorem Called.finish (h : Called v) (I : Inv q v) {c : Completion} {cs : List Completion}
    (hcs : v.completions = c :: cs)
    : Called (v.finish c cs) := by
  intro load task htask hphase
  obtain ⟨ended, hended, -⟩ := I.completion c (by simp [hcs])
  rw [tasks_finish hended] at htask
  split at htask
  . obtain rfl := Option.some.inj htask
    contradiction
  . next hne =>
    obtain ⟨c', hc', rfl⟩ := h load task htask hphase
    rw [hcs] at hc'
    rcases List.mem_cons.mp hc' with rfl | hc'
    . exact absurd rfl hne
    . exact ⟨c', hc', rfl⟩

theorem Step.called (I : Inv q v) (h : Called v) (hstep : Step Threw q v q' v') : Called v' := by
  have hhead : ∀ {c c' : Completion} {cs : List Completion}, v.completions = c :: cs
      → c'.load = c.load → Called { v with completions := c' :: cs } := by
    intro c c' cs hcs heq load task htask hphase
    obtain ⟨c₁, hc₁, rfl⟩ := h load task htask hphase
    rw [hcs] at hc₁
    rcases List.mem_cons.mp hc₁ with rfl | hc₁
    . exact ⟨c', by simp, heq⟩
    . exact ⟨c₁, by simp [hc₁], rfl⟩
  cases hstep with
  | join _ _ => exact h
  | start _ _ =>
    intro load task htask hphase
    simp only [Loads.start, List.getElem?_append] at htask
    split at htask
    . exact h load task htask hphase
    . obtain rfl := List.mem_singleton.mp (List.mem_of_getElem? htask)
      contradiction
  | refuse _ _ => exact h
  | load htask _ _ hcalling' _ _ =>
    intro load₁ task₁ htask₁ hphase₁
    rw [tasks_setTask htask] at htask₁
    split at htask₁
    . obtain rfl := Option.some.inj htask₁
      contradiction
    . exact h load₁ task₁ htask₁ hphase₁
  | @startCallbacks load task charData htask _ _ =>
    intro load₁ task₁ htask₁ hphase₁
    have htask₁ : (v.setTask load { task with phase := .calling }).tasks[load₁]? = some task₁ := htask₁
    rw [tasks_setTask htask] at htask₁
    split at htask₁
    . next heq => exact ⟨_, List.mem_cons_self, heq.symm⟩
    . obtain ⟨c, hc, hload⟩ := h load₁ task₁ htask₁ hphase₁
      exact ⟨c, List.mem_cons_of_mem _ hc, hload⟩
  | onResult hcs _ _ _ => exact hhead hcs rfl
  | next hcs _ _ => exact hhead hcs rfl
  | throws _ hcs => exact h.finish I hcs
  | finish hcs _ _ => exact h.finish I hcs
  | other => exact h

def Stuck (q : KeyQueues Nat) (v : Loads) (charId : Int) : Prop :=
  q.queue charId ≠ [] ∧ ∀ load task, v.Outstanding load task → task.charId ≠ charId

theorem Step.stuck (I : Inv q v) {charId : Int} (h : Stuck q v charId)
    (hstep : Step Threw q v q' v')
    : Stuck q' v' charId := by
  obtain ⟨hqueue, hnone⟩ := h
  cases hstep with
  | @join charId' _ _ _ =>
    refine ⟨?_, hnone⟩
    by_cases hk : charId = charId' <;> simp [KeyQueues.addKey, hk, hqueue]
  | @start charId' callBack held _ hempty =>
    have hk : charId ≠ charId' := by
      rintro rfl
      exact hqueue hempty
    refine ⟨by simpa [KeyQueues.addKey, hk] using hqueue, ?_⟩
    rintro load task ⟨htask, hdone⟩
    simp only [Loads.start, List.getElem?_append] at htask
    split at htask
    . exact hnone load task ⟨htask, hdone⟩
    . obtain rfl := List.mem_singleton.mp (List.mem_of_getElem? htask)
      exact Ne.symm hk
  | @refuse charId' _ _ hempty =>
    have hk : charId ≠ charId' := by
      rintro rfl
      exact hqueue hempty
    exact ⟨by simpa [KeyQueues.deleteKey, KeyQueues.addKey, hk] using hqueue, hnone⟩
  | @load load task task' htask _ hdone _ _ hchar =>
    refine ⟨hqueue, ?_⟩
    rintro load₁ task₁ ⟨htask₁, hdone₁⟩
    rw [tasks_setTask htask] at htask₁
    split at htask₁
    . obtain rfl := Option.some.inj htask₁
      rw [hchar]
      exact hnone load task ⟨htask, hdone⟩
    . exact hnone load₁ task₁ ⟨htask₁, hdone₁⟩
  | @startCallbacks load task _ htask hphase _ =>
    refine ⟨hqueue, ?_⟩
    rintro load₁ task₁ ⟨htask₁, hdone₁⟩
    have htask₁ : (v.setTask load { task with phase := .calling }).tasks[load₁]? = some task₁ := htask₁
    rw [tasks_setTask htask] at htask₁
    split at htask₁
    . obtain rfl := Option.some.inj htask₁
      exact hnone load task ⟨htask, by simp [hphase]⟩
    . exact hnone load₁ task₁ ⟨htask₁, hdone₁⟩
  | onResult _ _ _ _ => exact ⟨hqueue, hnone⟩
  | next _ _ _ => exact ⟨hqueue, hnone⟩
  | @throws c cs _ hcs =>
    obtain ⟨ended, hended, -, -⟩ := I.completion c (by simp [hcs])
    refine ⟨hqueue, ?_⟩
    rintro load task ⟨htask, hdone⟩
    rw [tasks_finish hended] at htask
    split at htask
    . obtain rfl := Option.some.inj htask
      exact absurd rfl hdone
    . exact hnone load task ⟨htask, hdone⟩
  | @finish c cs hcs _ _ =>
    obtain ⟨ended, hended, hphase, hchar⟩ := I.completion c (by simp [hcs])
    have hk : charId ≠ c.charId := by
      rintro rfl
      exact hnone c.load ended ⟨hended, by simp [hphase]⟩ hchar
    refine ⟨by simpa [KeyQueues.deleteKey, hk] using hqueue, ?_⟩
    rintro load task ⟨htask, hdone⟩
    rw [tasks_finish hended] at htask
    split at htask
    . obtain rfl := Option.some.inj htask
      exact absurd rfl hdone
    . exact hnone load task ⟨htask, hdone⟩
  | other => exact ⟨hqueue, hnone⟩

theorem stuck_of_throws (I : Inv q v) {c : Completion} {cs : List Completion}
    (hcs : v.completions = c :: cs)
    : Stuck q (v.finish c cs) c.charId := by
  obtain ⟨ended, hended, hphase, hchar⟩ := I.completion c (by simp [hcs])
  have hout : v.Outstanding c.load ended := ⟨hended, by simp [hphase]⟩
  refine ⟨hchar ▸ (I.queued c.load ended hout).2, ?_⟩
  rintro load task ⟨htask, hdone⟩ hk
  rw [tasks_finish hended] at htask
  split at htask
  . obtain rfl := Option.some.inj htask
    exact absurd rfl hdone
  . next hne =>
    exact hne (I.outstanding_unique ⟨htask, hdone⟩ hout (hk.trans hchar.symm))

end Loads

end WzGame
