import Mathlib.Data.List.Nodup
import WzGame.Actor.Actor

/-!
This module contains where the work of the actors is: each piece of it is in one queue or in one frame of
a thread, or it is over.
-/

namespace WzGame

namespace Actor

inductive Place where
  | nowhere
  | putting (thread : Thread) (depth : Nat)
  | waiting (a : Nat)
  | running (thread : Thread) (depth : Nat)
  | finished
  | refused

def Place.isStarted : Place → Bool
  | .running _ _ | .finished => true
  | _ => false

def Frame.place (thread : Thread) (depth : Nat) : Frame → Place
  | .put _ _ _ _ => .putting thread depth
  | .run _ => .running thread depth

def Place.Under (thread : Thread) (height : Nat) (p : Place) : Prop :=
  ∃ depth < height, p = .putting thread depth ∨ p = .running thread depth

def Placed (place : Work → Place) (thread : Thread) : List Frame → Prop
  | [] => True
  | frame :: rest => place frame.work = frame.place thread rest.length ∧ Placed place thread rest

variable {place : Work → Place} {thread thread' : Thread} {stack rest : List Frame} {frame : Frame}
  {work : Work} {p : Place} {a : Nat} {task : ActorTask}

theorem Placed.update (P : Placed place thread stack) (h : ¬ (place work).Under thread stack.length)
    : Placed (Function.update place work p) thread stack := by
  induction stack with
  | nil => trivial
  | cons frame rest ih =>
    have hne : frame.work ≠ work := by
      rintro rfl
      refine h ⟨rest.length, by simp, ?_⟩
      rw [P.1]
      cases frame with
      | put => exact .inl rfl
      | run => exact .inr rfl
    refine ⟨?_, ih P.2 fun ⟨depth, hlt, heq⟩ => h ⟨depth, ?_, heq⟩⟩
    . rw [Function.update_of_ne hne]
      exact P.1
    . rw [List.length_cons]
      omega

theorem not_under_of_ne {height depth : Nat} (hne : thread' ≠ thread)
    : ¬ (frame.place thread depth).Under thread' height := by
  rintro ⟨depth', -, heq⟩
  cases frame with
  | put => simp [Frame.place, hne.symm] at heq
  | run => simp [Frame.place, hne.symm] at heq

theorem not_under_self : ¬ (frame.place thread rest.length).Under thread rest.length := by
  rintro ⟨depth, hlt, heq⟩
  cases frame with
  | put =>
    simp [Frame.place] at heq
    omega
  | run =>
    simp [Frame.place] at heq
    omega

structure Places (stackOf : Thread → List Frame) (queues : Nat → List ActorTask)
    (started : List (Thread × Work)) (puts : Nat) (place : Work → Place) : Prop where
  frames : ∀ thread, Placed place thread (stackOf thread)
  waiting : ∀ a, ∀ task ∈ queues a, place task.work = .waiting a
  queue_nodup : ∀ a, ((queues a).map ActorTask.work).Nodup
  fresh : ∀ n, puts ≤ n → place (.put n) = .nowhere
  callback : ∀ work, place (.callback work) ≠ .nowhere → place work = .finished
  begun : ∀ work, work ∈ started.map Prod.snd ↔ (place work).isStarted = true
  begun_nodup : (started.map Prod.snd).Nodup

variable {stackOf : Thread → List Frame} {queues : Nat → List ActorTask}
  {started : List (Thread × Work)} {puts : Nat}

theorem work_ne_callback : work ≠ .callback work := by
  intro h
  have hsize := congrArg sizeOf h
  simp at hsize

theorem Places.callback_update (P : Places stackOf queues started puts place)
    (hwork : place work ≠ .finished) (hnew : ∀ v, work = .callback v → place v = .finished) (v : Work)
    (hv : Function.update place work p (.callback v) ≠ .nowhere)
    : Function.update place work p v = .finished := by
  by_cases hvw : v = work
  . subst hvw
    rw [Function.update_of_ne work_ne_callback.symm] at hv
    exact absurd (P.callback v hv) hwork
  . rw [Function.update_of_ne hvw]
    by_cases hcallback : Work.callback v = work
    . exact hnew v hcallback.symm
    . rw [Function.update_of_ne hcallback] at hv
      exact P.callback v hv

theorem Places.waiting_update (P : Places stackOf queues started puts place)
    (hwork : ∀ a, place work ≠ .waiting a) (htask : task ∈ queues a)
    : Function.update place work p task.work = .waiting a := by
  have hne : task.work ≠ work := by
    rintro rfl
    exact hwork a (P.waiting a task htask)
  rw [Function.update_of_ne hne]
  exact P.waiting a task htask

theorem Places.fresh_update (P : Places stackOf queues started puts place)
    (hwork : ∀ n, puts ≤ n → Work.put n ≠ work) (n : Nat) (hn : puts ≤ n)
    : Function.update place work p (.put n) = .nowhere := by
  rw [Function.update_of_ne (hwork n hn)]
  exact P.fresh n hn

theorem Places.started_keep (P : Places stackOf queues started puts place)
    (hsame : p.isStarted = (place work).isStarted) (v : Work)
    : v ∈ started.map Prod.snd ↔ (Function.update place work p v).isStarted = true := by
  rw [P.begun v]
  by_cases hv : v = work
  . subst hv
    rw [Function.update_self, hsame]
  . rw [Function.update_of_ne hv]

theorem Places.started_append (P : Places stackOf queues started puts place)
    (hp : p.isStarted = true) (v : Work)
    : v ∈ (started ++ [(thread, work)]).map Prod.snd
      ↔ (Function.update place work p v).isStarted = true := by
  rw [List.map_append, List.mem_append, P.begun v]
  by_cases hv : v = work
  . subst hv
    simp [hp]
  . simp [hv]

theorem Places.nodup_append (P : Places stackOf queues started puts place)
    (hwork : (place work).isStarted = false)
    : ((started ++ [(thread, work)]).map Prod.snd).Nodup := by
  rw [List.map_append]
  refine List.nodup_append.mpr ⟨P.begun_nodup, by simp, ?_⟩
  intro v hv v' hv' heq
  obtain rfl := List.mem_singleton.mp hv'
  have hstarted := (P.begun v).mp hv
  rw [heq, hwork] at hstarted
  contradiction

theorem Places.frames_update (P : Places stackOf queues started puts place)
    (hother : ∀ thread', thread' ≠ thread → ¬ (place work).Under thread' (stackOf thread').length)
    (hstack : Placed (Function.update place work p) thread stack) (thread' : Thread)
    : Placed (Function.update place work p) thread' (Function.update stackOf thread stack thread') := by
  by_cases hne : thread' = thread
  . subst hne
    rwa [Function.update_self]
  . rw [Function.update_of_ne hne]
    exact (P.frames thread').update (hother thread' hne)

theorem Places.top (P : Places stackOf queues started puts place) (h : stackOf thread = frame :: rest)
    : place frame.work = frame.place thread rest.length ∧ Placed place thread rest := by
  have hframes := P.frames thread
  rwa [h] at hframes

theorem Places.setPut (P : Places stackOf queues started puts place) {frame' : Frame}
    (h : stackOf thread = frame :: rest) (hwork : frame'.work = frame.work)
    (hplace : frame'.place thread rest.length = frame.place thread rest.length)
    : Places (Function.update stackOf thread (frame' :: rest)) queues started puts place := by
  refine ⟨fun thread' => ?_, P.waiting, P.queue_nodup, P.fresh, P.callback, P.begun, P.begun_nodup⟩
  by_cases hne : thread' = thread
  . subst hne
    rw [Function.update_self]
    exact ⟨by rw [hwork, hplace, (P.top h).1], (P.top h).2⟩
  . rw [Function.update_of_ne hne]
    exact P.frames thread'

theorem Places.pushPut (P : Places stackOf queues started puts place) {puts' : Nat} {millisec : Int}
    {pc : PutStep} (hplace : place task.work = .nowhere) (hputs : puts ≤ puts')
    (hfresh : ∀ n, puts' ≤ n → Work.put n ≠ task.work)
    (hcallback : ∀ v, task.work = .callback v → place v = .finished)
    (hstack : Placed place thread rest)
    : Places (Function.update stackOf thread (.put a task millisec pc :: rest)) queues started puts'
        (Function.update place task.work (.putting thread rest.length)) := by
  have hunder (thread' : Thread) (height : Nat) : ¬ (place task.work).Under thread' height := by
    rw [hplace]
    simp [Place.Under]
  refine ⟨P.frames_update (fun _ _ => hunder _ _) ⟨Function.update_self .., hstack.update (hunder _ _)⟩,
    fun _ _ => P.waiting_update (by simp [hplace]), P.queue_nodup, ?_,
    P.callback_update (by simp [hplace]) hcallback, P.started_keep (by rw [hplace]; rfl), P.begun_nodup⟩
  intro n hn
  rw [Function.update_of_ne (hfresh n hn)]
  exact P.fresh n (Nat.le_trans hputs hn)

theorem Places.pushRun (P : Places stackOf queues started puts place)
    (hplace : place task.work = .nowhere) (hfresh : ∀ n, puts ≤ n → Work.put n ≠ task.work)
    (hcallback : ∀ v, task.work = .callback v → place v = .finished)
    (hstack : Placed place thread rest)
    : Places (Function.update stackOf thread (.run task :: rest)) queues
        (started ++ [(thread, task.work)]) puts
        (Function.update place task.work (.running thread rest.length)) := by
  have hunder (thread' : Thread) (height : Nat) : ¬ (place task.work).Under thread' height := by
    rw [hplace]
    simp [Place.Under]
  exact ⟨P.frames_update (fun _ _ => hunder _ _) ⟨Function.update_self .., hstack.update (hunder _ _)⟩,
    fun _ _ => P.waiting_update (by simp [hplace]), P.queue_nodup, P.fresh_update hfresh,
    P.callback_update (by simp [hplace]) hcallback, P.started_append rfl,
    P.nodup_append (by rw [hplace]; rfl)⟩

theorem Places.of_top (P : Places stackOf queues started puts place)
    (h : stackOf thread = frame :: rest)
    : place frame.work ≠ .nowhere ∧ place frame.work ≠ .finished
        ∧ (∀ b, place frame.work ≠ .waiting b) ∧ (∀ n, puts ≤ n → Work.put n ≠ frame.work)
        ∧ ∀ v, frame.work = .callback v → place v = .finished := by
  obtain ⟨hplace, -⟩ := P.top h
  have hnowhere : place frame.work ≠ .nowhere := by
    rw [hplace]
    cases frame <;> simp [Frame.place]
  refine ⟨hnowhere, ?_, ?_, fun n hn heq => hnowhere ?_, fun v heq => P.callback v (heq ▸ hnowhere)⟩
  . rw [hplace]
    cases frame <;> simp [Frame.place]
  . rw [hplace]
    cases frame <;> simp [Frame.place]
  . rw [← heq]
    exact P.fresh n hn

theorem Places.top_other (P : Places stackOf queues started puts place)
    (h : stackOf thread = frame :: rest) (thread' : Thread) (hne : thread' ≠ thread)
    : ¬ (place frame.work).Under thread' (stackOf thread').length := by
  rw [(P.top h).1]
  exact not_under_of_ne hne

theorem Places.top_rest (P : Places stackOf queues started puts place)
    (h : stackOf thread = frame :: rest)
    : Placed (Function.update place frame.work p) thread rest := by
  refine (P.top h).2.update ?_
  rw [(P.top h).1]
  exact not_under_self

theorem Places.pop (P : Places stackOf queues started puts place) (h : stackOf thread = frame :: rest)
    (hp : p.isStarted = (place frame.work).isStarted)
    : Places (Function.update stackOf thread rest) queues started puts
        (Function.update place frame.work p) := by
  obtain ⟨-, hfinished, hwaiting, hfresh, hcallback⟩ := P.of_top h
  exact ⟨P.frames_update (P.top_other h) (P.top_rest h), fun _ _ => P.waiting_update hwaiting,
    P.queue_nodup, P.fresh_update hfresh, P.callback_update hfinished hcallback, P.started_keep hp,
    P.begun_nodup⟩

theorem Places.enqueue (P : Places stackOf queues started puts place) {millisec : Int} {pc : PutStep}
    (h : stackOf thread = .put a task millisec pc :: rest)
    : Places (Function.update stackOf thread rest) (Function.update queues a (queues a ++ [task])) started
        puts (Function.update place task.work (.waiting a)) := by
  obtain ⟨hplace, -⟩ := P.top h
  obtain ⟨-, hfinished, hwaiting, hfresh, hcallback⟩ := P.of_top h
  have hold {b : Nat} {task' : ActorTask} (htask' : task' ∈ queues b)
      : Function.update place task.work (.waiting a) task'.work = .waiting b :=
    P.waiting_update hwaiting htask'
  have hkeep : (Place.waiting a).isStarted = (place task.work).isStarted := by
    rw [show place task.work = .putting thread rest.length from hplace]
    rfl
  refine ⟨P.frames_update (P.top_other h) (P.top_rest h), ?_, ?_, P.fresh_update hfresh,
    P.callback_update hfinished hcallback, P.started_keep hkeep, P.begun_nodup⟩
  . intro b task' htask'
    by_cases hb : b = a
    . subst hb
      rw [Function.update_self] at htask'
      rcases List.mem_append.mp htask' with htask' | htask'
      . exact hold htask'
      . rw [List.mem_singleton.mp htask', Function.update_self]
    . rw [Function.update_of_ne hb] at htask'
      exact hold htask'
  . intro b
    by_cases hb : b = a
    . subst hb
      rw [Function.update_self, List.map_append]
      refine List.nodup_append.mpr ⟨P.queue_nodup b, by simp, ?_⟩
      intro v hv v' hv' heq
      obtain ⟨task', htask', rfl⟩ := List.mem_map.mp hv
      obtain rfl := List.mem_singleton.mp hv'
      exact hwaiting b ((congrArg place heq).symm.trans (P.waiting b task' htask'))
    . rw [Function.update_of_ne hb]
      exact P.queue_nodup b

theorem Places.runOwn (P : Places stackOf queues started puts place) {millisec : Int} {pc : PutStep}
    (h : stackOf thread = .put a task millisec pc :: rest)
    : Places (Function.update stackOf thread (.run task :: rest)) queues
        (started ++ [(thread, task.work)]) puts
        (Function.update place task.work (.running thread rest.length)) := by
  obtain ⟨hplace, -⟩ := P.top h
  obtain ⟨-, hfinished, hwaiting, hfresh, hcallback⟩ := P.of_top h
  refine ⟨P.frames_update (P.top_other h) ⟨Function.update_self .., P.top_rest h⟩,
    fun _ _ => P.waiting_update hwaiting, P.queue_nodup, P.fresh_update hfresh,
    P.callback_update hfinished hcallback, P.started_append rfl, P.nodup_append ?_⟩
  . rw [show place task.work = .putting thread rest.length from hplace]
    rfl

theorem Places.dequeue (P : Places stackOf queues started puts place) {taskQueue : List ActorTask}
    (hqueue : queues a = task :: taskQueue)
    : Places (Function.update stackOf thread [.run task]) (Function.update queues a taskQueue)
        (started ++ [(thread, task.work)]) puts
        (Function.update place task.work (.running thread 0)) := by
  have hplace : place task.work = .waiting a := P.waiting a task (by rw [hqueue]; simp)
  have hnodup := P.queue_nodup a
  rw [hqueue, List.map_cons, List.nodup_cons] at hnodup
  have hunder (thread' : Thread) (height : Nat) : ¬ (place task.work).Under thread' height := by
    rw [hplace]
    simp [Place.Under]
  refine ⟨P.frames_update (fun _ _ => hunder _ _) ⟨Function.update_self .., trivial⟩, ?_, ?_, ?_,
    P.callback_update (by simp [hplace]) ?_, P.started_append rfl, P.nodup_append (by rw [hplace]; rfl)⟩
  . intro b task' htask'
    by_cases hb : b = a
    . subst hb
      rw [Function.update_self] at htask'
      have hne : task'.work ≠ task.work := fun heq =>
        hnodup.1 (heq ▸ List.mem_map_of_mem htask')
      rw [Function.update_of_ne hne]
      exact P.waiting b task' (by rw [hqueue]; exact List.mem_cons_of_mem _ htask')
    . rw [Function.update_of_ne hb] at htask'
      have hne : task'.work ≠ task.work := by
        intro heq
        have hwaiting := P.waiting b task' htask'
        rw [heq, hplace] at hwaiting
        exact hb (Place.waiting.inj hwaiting).symm
      rw [Function.update_of_ne hne]
      exact P.waiting b task' htask'
  . intro b
    by_cases hb : b = a
    . subst hb
      rw [Function.update_self]
      exact hnodup.2
    . rw [Function.update_of_ne hb]
      exact P.queue_nodup b
  . refine P.fresh_update fun n hn heq => ?_
    have hfresh := P.fresh n hn
    rw [heq, hplace] at hfresh
    contradiction
  . intro v heq
    exact P.callback v (by rw [← heq, hplace]; simp)

end Actor

end WzGame
