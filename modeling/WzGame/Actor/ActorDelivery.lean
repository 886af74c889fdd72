import WzGame.Actor.ActorPlaces

/-!
This module contains what the actors deliver: which tasks are run, exactly once and in which order, and
which callbacks are.
-/

namespace WzGame

open Runs

namespace Actor

variable {place : Work → Place} {thread thread' : Thread} {stack rest : List Frame} {frame : Frame}
  {work : Work} {a : Nat} {task : ActorTask}

namespace State

def Answered (s : State) (task : ActorTask) (target : Nat) : Prop :=
  (∃ thread pc, .put target ⟨.callback task.work, false, none⟩ (-1) pc ∈ s.stackOf thread)
    ∨ (∃ thread, (thread, target, ⟨.callback task.work, false, none⟩) ∈ s.accepted)
    ∨ (s.actors target).stopWhenEmpty = true

def putByOthers (s : State) (a : Nat) : List ActorTask :=
  (s.accepted.filter fun p => p.1 ≠ .actor a ∧ p.2.1 = a).map fun p => p.2.2

def RunsOwn (s : State) (a : Nat) (task : ActorTask) (rest : List Frame) (n : Nat) : Prop :=
  ∃ as s', Run (stepOf step) (fun _ action => action = .proceed (.actor a)) s as s' ∧ as.length ≤ n
    ∧ s'.stackOf (.actor a) = .run task :: rest ∧ s'.started = s.started ++ [(.actor a, task.work)]
    ∧ s'.actors = s.actors

/--
The tasks that other threads put to an actor enter its queue, and are taken and started in the order in which
they have entered it; those that its own thread puts are run at once. Nothing is run twice, and a task that a
`put` returns true for is either waiting or has been run by the thread of its actor; it has been run if it had
entered when that thread, which was to stop, found the queue empty, and the thread ends in no other way. When
a task has been run, its callback is put to its target, which only refuses it if it is to stop.
-/
structure Delivers (started : Nat → Bool) (s : State) : Prop where
  entered : ∀ a, s.entered a = s.putByOthers a
  own : ∀ a task, (.actor a, a, task) ∈ s.accepted → (.actor a, task.work) ∈ s.started
  -- nothing but its own steps stands between the `put` of an actor to itself and the run of the task
  atOnce : ∀ a task millisec pc rest, s.stackOf (.actor a) = .put a task millisec pc :: rest
    → pc = .enter ∨ (s.actors a).stopWhenEmpty = false ∧ (s.actors a).running = true
    → s.RunsOwn a task rest 3
  order : ∀ a, s.entered a = s.taken a ++ (s.actors a).taskQueue
  inOrder : ∀ a, ((s.taken a).map ActorTask.work).Sublist
    ((s.started.filter (·.1 = .actor a)).map Prod.snd)
  once : (s.started.map Prod.snd).Nodup
  accepted : ∀ thread a task, (thread, a, task) ∈ s.accepted
    → task ∈ (s.actors a).taskQueue ∧ task.work ∉ s.started.map Prod.snd
      ∨ (.actor a, task.work) ∈ s.started
  closed : ∀ a n, s.closed a = some n → (s.actors a).stopWhenEmpty = true
    ∧ ∀ task ∈ (s.entered a).take n, (.actor a, task.work) ∈ s.started
  exits : ∀ a, started a = true → (s.actors a).runner = .done → (s.closed a).isSome = true
  answered : ∀ task ∈ s.returned, task.callback = true → ∀ target, task.target = some target
    → started target = true → s.Answered task target
  called : ∀ task ∈ s.returned, task.callback = true → task.target = none
    → ∃ thread, (thread, .callback task.work) ∈ s.started

structure Logs (s : State) : Prop where
  order : ∀ a, s.entered a = s.taken a ++ (s.actors a).taskQueue
  inOrder : ∀ a, ((s.taken a).map ActorTask.work).Sublist
    ((s.started.filter (·.1 = .actor a)).map Prod.snd)
  entered : ∀ a, s.entered a = s.putByOthers a
  own : ∀ a task, (.actor a, a, task) ∈ s.accepted → (.actor a, task.work) ∈ s.started
  closed : ∀ a n, s.closed a = some n → n ≤ (s.taken a).length

structure Flags (started : Nat → Bool) (s : State) : Prop where
  checkEmpty : ∀ a, (s.actors a).runner = .checkEmpty → (s.actors a).stopWhenEmpty = true
  closed : ∀ a, (s.closed a).isSome = true → (s.actors a).stopWhenEmpty = true
  exits : ∀ a, started a = true → (s.actors a).runner = .closing ∨ (s.actors a).runner = .done
    → (s.closed a).isSome = true
  running : ∀ a, started a = true → (s.actors a).running = false → (s.actors a).runner = .done

structure Callbacks (started : Nat → Bool) (s : State) : Prop where
  answered : ∀ task ∈ s.returned, task.callback = true → ∀ target, task.target = some target
    → started target = true → s.Answered task target
  called : ∀ task ∈ s.returned, task.callback = true → task.target = none
    → ∃ thread, (thread, .callback task.work) ∈ s.started

structure Inv (started : Nat → Bool) (s : State) (place : Work → Place) : Prop where
  places : Places s.stackOf (fun a => (s.actors a).taskQueue) s.started s.puts place
  logs : s.Logs
  flags : s.Flags started
  callbacks : s.Callbacks started

variable {s s' : State} {started : Nat → Bool} {capacity : Nat → Int}

theorem inv_start : (start started capacity).Inv started fun _ => .nowhere where
  places := ⟨fun _ => trivial, nofun, fun _ => List.nodup_nil, fun _ _ => rfl,
    fun _ h => absurd rfl h, fun _ => by simp [start, Place.isStarted], List.nodup_nil⟩
  logs := ⟨fun _ => rfl, fun _ => List.Sublist.refl _, fun _ => rfl, nofun, nofun⟩
  flags := by
    refine ⟨fun a h => ?_, nofun, fun a hstarted h => ?_, fun a hstarted h => ?_⟩
    . simp only [start] at h
      split at h <;> contradiction
    . simp [start, hstarted] at h
    . simp [start, hstarted] at h
  callbacks := ⟨nofun, nofun⟩

theorem Logs.started_of_taken (L : s.Logs) (htask : task ∈ s.taken a)
    : (.actor a, task.work) ∈ s.started := by
  obtain ⟨⟨thread, work⟩, hmem, rfl⟩ := List.mem_map.mp ((L.inOrder a).subset (List.mem_map_of_mem htask))
  obtain ⟨hstarted, hthread⟩ := List.mem_filter.mp hmem
  simp only [decide_eq_true_eq] at hthread
  rw [← hthread]
  exact hstarted

theorem Logs.accepted (L : s.Logs) (htask : (thread, a, task) ∈ s.accepted)
    : task ∈ (s.actors a).taskQueue ∨ (.actor a, task.work) ∈ s.started := by
  by_cases hthread : thread = .actor a
  . subst hthread
    exact .inr (L.own a task htask)
  . have hentered : task ∈ s.entered a := by
      rw [L.entered a]
      exact List.mem_map.mpr ⟨_, List.mem_filter.mpr ⟨htask, by simpa using hthread⟩, rfl⟩
    rw [L.order a] at hentered
    rcases List.mem_append.mp hentered with htaken | hqueue
    . exact .inr (L.started_of_taken htaken)
    . exact .inl hqueue

section own

variable {millisec : Int}

theorem RunsOwn.mono {m n : Nat} (h : s.RunsOwn a task rest m) (hle : m ≤ n)
    : s.RunsOwn a task rest n := by
  obtain ⟨as, s', hrun, hlength, h⟩ := h
  exact ⟨as, s', hrun, Nat.le_trans hlength hle, h⟩

theorem runsOwn_enter (h : s.stackOf (.actor a) = .put a task millisec .enter :: rest)
    : s.RunsOwn a task rest 1 := by
  have hstep : stepOf step s (.proceed (.actor a))
      { s.run (.actor a) task rest with accepted := s.accepted ++ [(.actor a, a, task)] } := by
    simp only [stepOf, step, State.proceed, h, if_true]
  exact ⟨[.proceed (.actor a)], _, .next .start rfl hstep, Nat.le_refl 1, Function.update_self .., rfl, rfl⟩

theorem runsOwn_setStack {pc' : PutStep} {n : Nat}
    (hnext : s.proceed (.actor a) = some (s.setStack (.actor a) (.put a task millisec pc' :: rest)))
    (hruns : (s.setStack (.actor a) (.put a task millisec pc' :: rest)).RunsOwn a task rest n)
    : s.RunsOwn a task rest (n + 1) := by
  obtain ⟨as, s', hrun, hlength, hstack, hstarted, hactors⟩ := hruns
  have hfirst : Run (stepOf step) (fun _ action => action = .proceed (.actor a)) s [.proceed (.actor a)]
      (s.setStack (.actor a) (.put a task millisec pc' :: rest)) := .next .start rfl hnext
  exact ⟨.proceed (.actor a) :: as, s', hfirst.append hrun, by simpa using hlength, hstack, hstarted, hactors⟩

theorem runsOwn_put {pc : PutStep} (h : s.stackOf (.actor a) = .put a task millisec pc :: rest)
    (hpc : pc = .enter ∨ (s.actors a).stopWhenEmpty = false ∧ (s.actors a).running = true)
    : s.RunsOwn a task rest 3 := by
  have hcheck {s : State} (h : s.stackOf (.actor a) = .put a task millisec .checkRunning :: rest)
      (hrunning : (s.actors a).running = true) : s.RunsOwn a task rest 2 := by
    have hstack : (s.setStack (.actor a) (.put a task millisec .enter :: rest)).stackOf (.actor a)
        = .put a task millisec .enter :: rest := Function.update_self ..
    refine runsOwn_setStack ?_ (runsOwn_enter hstack)
    simp only [State.proceed, h, hrunning, if_true]
  cases pc with
  | enter => exact (runsOwn_enter h).mono (by omega)
  | checkRunning =>
    obtain ⟨-, hrunning⟩ := hpc.resolve_left nofun
    exact (hcheck h hrunning).mono (by omega)
  | checkStop =>
    obtain ⟨hstop, hrunning⟩ := hpc.resolve_left nofun
    refine runsOwn_setStack ?_ (hcheck (Function.update_self ..) hrunning)
    simp only [State.proceed, h, hstop, Bool.false_eq_true, if_false]

end own

theorem Inv.delivers (I : s.Inv started place) : s.Delivers started where
  entered := I.logs.entered
  own := I.logs.own
  atOnce := fun _ _ _ _ _ h hpc => runsOwn_put h hpc
  order := I.logs.order
  inOrder := I.logs.inOrder
  once := I.places.begun_nodup
  accepted := by
    intro thread a task htask
    rcases I.logs.accepted htask with hqueue | hstarted
    . refine .inl ⟨hqueue, fun hmem => ?_⟩
      have hplace := (I.places.begun task.work).mp hmem
      rw [I.places.waiting a task hqueue] at hplace
      contradiction
    . exact .inr hstarted
  closed := by
    intro a n hn
    refine ⟨I.flags.closed a (by rw [hn]; rfl), fun task htask => ?_⟩
    rw [I.logs.order a, List.take_append_of_le_length (I.logs.closed a n hn)] at htask
    exact I.logs.started_of_taken (List.mem_of_mem_take htask)
  exits := fun a hstarted hdone => I.flags.exits a hstarted (.inr hdone)
  answered := I.callbacks.answered
  called := I.callbacks.called

theorem Callbacks.top (C : s.Callbacks started) {stack' : List Frame}
    (h : s.stackOf thread = frame :: rest)
    (hstacks : s'.stackOf = Function.update s.stackOf thread stack') (hrest : ∀ f ∈ rest, f ∈ stack')
    (hreturned : s'.returned = s.returned) (haccepted : ∀ x ∈ s.accepted, x ∈ s'.accepted)
    (hstop : ∀ b, (s.actors b).stopWhenEmpty = true → (s'.actors b).stopWhenEmpty = true)
    (hstarted : ∀ x ∈ s.started, x ∈ s'.started)
    (htop : ∀ task target pc, frame = .put target ⟨.callback task.work, false, none⟩ (-1) pc
      → started target = true → s'.Answered task target)
    : s'.Callbacks started where
  answered := by
    intro task hmem hcallback target htarget hactor
    rcases C.answered task (hreturned ▸ hmem) hcallback target htarget hactor
      with ⟨thread', pc, hput⟩ | haccept | hstopped
    . by_cases hne : thread' = thread
      . subst hne
        rw [h] at hput
        rcases List.mem_cons.mp hput with hput | hput
        . exact htop task target pc hput.symm hactor
        . refine .inl ⟨thread', pc, ?_⟩
          rw [hstacks, Function.update_self]
          exact hrest _ hput
      . refine .inl ⟨thread', pc, ?_⟩
        rwa [hstacks, Function.update_of_ne hne]
    . obtain ⟨thread', hput⟩ := haccept
      exact .inr (.inl ⟨thread', haccepted _ hput⟩)
    . exact .inr (.inr (hstop target hstopped))
  called := by
    intro task hmem hcallback htarget
    obtain ⟨thread', hthread'⟩ := C.called task (hreturned ▸ hmem) hcallback htarget
    exact ⟨thread', hstarted _ hthread'⟩

theorem Callbacks.mono (C : s.Callbacks started)
    (hstacks : ∀ thread, ∀ f ∈ s.stackOf thread, f ∈ s'.stackOf thread)
    (hreturned : s'.returned = s.returned) (haccepted : ∀ x ∈ s.accepted, x ∈ s'.accepted)
    (hstop : ∀ b, (s.actors b).stopWhenEmpty = true → (s'.actors b).stopWhenEmpty = true)
    (hstarted : ∀ x ∈ s.started, x ∈ s'.started)
    : s'.Callbacks started where
  answered := by
    intro task hmem hcallback target htarget hactor
    rcases C.answered task (hreturned ▸ hmem) hcallback target htarget hactor
      with ⟨thread', pc, hput⟩ | haccept | hstopped
    . exact .inl ⟨thread', pc, hstacks _ _ hput⟩
    . obtain ⟨thread', hput⟩ := haccept
      exact .inr (.inl ⟨thread', haccepted _ hput⟩)
    . exact .inr (.inr (hstop target hstopped))
  called := by
    intro task hmem hcallback htarget
    obtain ⟨thread', hthread'⟩ := C.called task (hreturned ▸ hmem) hcallback htarget
    exact ⟨thread', hstarted _ hthread'⟩

theorem mem_update {f : Frame} (hsub : ∀ f ∈ s.stackOf thread, f ∈ stack) (h : f ∈ s.stackOf thread')
    : f ∈ Function.update s.stackOf thread stack thread' := by
  by_cases hne : thread' = thread
  . subst hne
    rw [Function.update_self]
    exact hsub f h
  . rwa [Function.update_of_ne hne]

theorem Inv.put (I : s.Inv started place) {callback : Bool} {target : Option Nat} {millisec : Int}
    : Inv started { s.setStack thread
          (.put a ⟨.put s.puts, callback, target⟩ millisec .checkStop :: s.stackOf thread) with
        puts := s.puts + 1 }
      (Function.update place (.put s.puts) (.putting thread (s.stackOf thread).length)) where
  places := by
    have hfresh : ∀ n, s.puts + 1 ≤ n → Work.put n ≠ .put s.puts := by
      rintro n hn ⟨⟩
      omega
    exact I.places.pushPut (I.places.fresh s.puts (Nat.le_refl _)) (Nat.le_succ _) hfresh nofun
      (I.places.frames thread)
  logs := ⟨I.logs.order, I.logs.inOrder, I.logs.entered, I.logs.own, I.logs.closed⟩
  flags := ⟨I.flags.checkEmpty, I.flags.closed, I.flags.exits, I.flags.running⟩
  callbacks := I.callbacks.mono (fun _ _ h => mem_update (fun _ hf => List.mem_cons_of_mem _ hf) h) rfl
    (fun _ h => h) (fun _ h => h) fun _ h => h

theorem Inv.setPut (I : s.Inv started place) {millisec : Int} {pc pc' : PutStep}
    (h : s.stackOf thread = .put a task millisec pc :: rest)
    : Inv started (s.setStack thread (.put a task millisec pc' :: rest)) place where
  places := I.places.setPut h rfl rfl
  logs := ⟨I.logs.order, I.logs.inOrder, I.logs.entered, I.logs.own, I.logs.closed⟩
  flags := ⟨I.flags.checkEmpty, I.flags.closed, I.flags.exits, I.flags.running⟩
  callbacks := by
    refine I.callbacks.top h rfl (fun _ hf => List.mem_cons_of_mem _ hf) rfl (fun _ h => h)
      (fun _ h => h) (fun _ h => h) ?_
    rintro task' target pc'' ⟨⟩ -
    refine .inl ⟨thread, pc', ?_⟩
    simp [setStack]

theorem Inv.refuse (I : s.Inv started place) {millisec : Int} {pc : PutStep}
    (h : s.stackOf thread = .put a task millisec pc :: rest)
    (hstop : started a = true → millisec = -1 → (s.actors a).stopWhenEmpty = true)
    : Inv started (s.setStack thread rest) (Function.update place task.work .refused) where
  places := I.places.pop h (by rw [(I.places.top h).1]; rfl)
  logs := ⟨I.logs.order, I.logs.inOrder, I.logs.entered, I.logs.own, I.logs.closed⟩
  flags := ⟨I.flags.checkEmpty, I.flags.closed, I.flags.exits, I.flags.running⟩
  callbacks := by
    refine I.callbacks.top h rfl (fun _ hf => hf) rfl (fun _ h => h) (fun _ h => h) (fun _ h => h) ?_
    rintro task' target pc' ⟨⟩ hactor
    exact .inr (.inr (hstop hactor rfl))

theorem Inv.leave (I : s.Inv started place) (h : s.stackOf thread = .run task :: rest)
    : Inv started (s.setStack thread rest) (Function.update place task.work .finished) where
  places := I.places.pop h (by rw [(I.places.top h).1]; rfl)
  logs := ⟨I.logs.order, I.logs.inOrder, I.logs.entered, I.logs.own, I.logs.closed⟩
  flags := ⟨I.flags.checkEmpty, I.flags.closed, I.flags.exits, I.flags.running⟩
  callbacks := I.callbacks.top h rfl (fun _ hf => hf) rfl (fun _ h => h) (fun _ h => h) (fun _ h => h)
    nofun

theorem field_update {β : Type} (f : ActorState → β) (actor : ActorState)
    : (fun b => f (Function.update s.actors a actor b))
      = Function.update (fun b => f (s.actors b)) a (f actor) := by
  funext b
  by_cases hb : b = a
  . subst hb
    simp
  . simp [hb]

theorem field_keep {β : Type} (f : ActorState → β) {actor : ActorState} (h : f actor = f (s.actors a))
    : (fun b => f (Function.update s.actors a actor b)) = fun b => f (s.actors b) := by
  rw [field_update, h]
  exact Function.update_eq_self a fun b => f (s.actors b)

theorem stop_update {actor : ActorState}
    (h : (s.actors a).stopWhenEmpty = true → actor.stopWhenEmpty = true) (b : Nat)
    (hb : (s.actors b).stopWhenEmpty = true)
    : (Function.update s.actors a actor b).stopWhenEmpty = true := by
  by_cases hba : b = a
  . subst hba
    rw [Function.update_self]
    exact h hb
  . rwa [Function.update_of_ne hba]

theorem Flags.update (F : s.Flags started) {actor : ActorState}
    (hactors : s'.actors = Function.update s.actors a actor)
    (hother : ∀ b, b ≠ a → s'.closed b = s.closed b)
    (hcheck : actor.runner = .checkEmpty → actor.stopWhenEmpty = true)
    (hclosed : (s'.closed a).isSome = true → actor.stopWhenEmpty = true)
    (hexits : started a = true → actor.runner = .closing ∨ actor.runner = .done
      → (s'.closed a).isSome = true)
    (hrunning : started a = true → actor.running = false → actor.runner = .done)
    : s'.Flags started := by
  refine ⟨fun b => ?_, fun b => ?_, fun b => ?_, fun b => ?_⟩
  all_goals
    rw [hactors]
    by_cases hb : b = a
  . subst hb
    simpa using hcheck
  . simpa [hb] using F.checkEmpty b
  . subst hb
    simpa using hclosed
  . simpa [hb, hother b hb] using F.closed b
  . subst hb
    simpa using hexits
  . simpa [hb, hother b hb] using F.exits b
  . subst hb
    simpa using hrunning
  . simpa [hb] using F.running b

theorem Inv.enqueue (I : s.Inv started place) {millisec : Int} {pc : PutStep}
    (h : s.stackOf thread = .put a task millisec pc :: rest) (hthread : thread ≠ .actor a)
    : Inv started
        { (s.setStack thread rest).setActor a
            { s.actors a with taskQueue := (s.actors a).taskQueue ++ [task] } with
          entered := Function.update s.entered a (s.entered a ++ [task])
          accepted := s.accepted ++ [(thread, a, task)] }
        (Function.update place task.work (.waiting a)) where
  places := by
    have P := I.places.enqueue h
    rwa [← field_update ActorState.taskQueue
      { s.actors a with taskQueue := (s.actors a).taskQueue ++ [task] }] at P
  logs := by
    refine ⟨fun b => ?_, I.logs.inOrder, fun b => ?_, fun b task' htask' => ?_, I.logs.closed⟩
    . by_cases hb : b = a
      . subst hb
        simp [setActor, I.logs.order, setStack]
      . simpa [setActor, hb, setStack] using I.logs.order b
    . rw [putByOthers, List.filter_append, List.map_append]
      by_cases hb : b = a
      . subst hb
        simp [I.logs.entered, putByOthers, hthread]
      . simp [I.logs.entered b, putByOthers, hb, Ne.symm hb]
    . rcases List.mem_append.mp htask' with htask' | htask'
      . exact I.logs.own b task' htask'
      . obtain ⟨hactor, hb⟩ := Prod.mk.inj (List.mem_singleton.mp htask')
        obtain ⟨rfl, -⟩ := Prod.mk.inj hb
        exact absurd hactor.symm hthread
  flags := I.flags.update rfl (fun _ _ => rfl) (I.flags.checkEmpty a) (I.flags.closed a) (I.flags.exits a)
    (I.flags.running a)
  callbacks := by
    refine I.callbacks.top h rfl (fun _ hf => hf) rfl (fun _ h => List.mem_append_left _ h)
      (stop_update fun h => h) (fun _ h => h) ?_
    rintro task' target pc' ⟨⟩ -
    exact .inr (.inl ⟨thread, by simp⟩)

theorem inOrder_append {taken : List Work} (h : taken.Sublist
      ((s.started.filter (·.1 = .actor a)).map Prod.snd)) (x : Thread × Work)
    : taken.Sublist (((s.started ++ [x]).filter (·.1 = .actor a)).map Prod.snd) := by
  rw [List.filter_append, List.map_append]
  exact h.trans (List.sublist_append_left _ _)

theorem Inv.runOwn (I : s.Inv started place) {millisec : Int} {pc : PutStep}
    (h : s.stackOf (.actor a) = .put a task millisec pc :: rest)
    : Inv started { s.run (.actor a) task rest with accepted := s.accepted ++ [(.actor a, a, task)] }
        (Function.update place task.work (.running (.actor a) rest.length)) where
  places := I.places.runOwn h
  logs := by
    refine ⟨I.logs.order, fun b => inOrder_append (I.logs.inOrder b) _, fun b => ?_,
      fun b task' htask' => ?_, I.logs.closed⟩
    . rw [putByOthers, List.filter_append, List.map_append]
      simp [run, setStack, I.logs.entered b, putByOthers]
    . rcases List.mem_append.mp htask' with htask' | htask'
      . exact List.mem_append_left _ (I.logs.own b task' htask')
      . obtain ⟨-, hb⟩ := Prod.mk.inj (List.mem_singleton.mp htask')
        obtain ⟨rfl, rfl⟩ := Prod.mk.inj hb
        simp [run]
  flags := ⟨I.flags.checkEmpty, I.flags.closed, I.flags.exits, I.flags.running⟩
  callbacks := by
    refine I.callbacks.top h rfl (fun _ hf => List.mem_cons_of_mem _ hf) rfl
      (fun _ h => List.mem_append_left _ h) (fun _ h => h) (fun _ h => List.mem_append_left _ h) ?_
    rintro task' target pc' ⟨⟩ -
    exact .inr (.inl ⟨.actor a, by simp⟩)

theorem Inv.proceed (I : s.Inv started place) (h : s.proceed thread = some s')
    : ∃ place', s'.Inv started place' := by
  unfold State.proceed at h
  split at h
  . next a task millisec rest hstack =>
    split at h
    . next hstop =>
      obtain rfl := Option.some.inj h
      exact ⟨_, I.refuse hstack fun _ _ => hstop⟩
    . obtain rfl := Option.some.inj h
      exact ⟨_, I.setPut hstack⟩
  . next a task millisec rest hstack =>
    split at h
    . obtain rfl := Option.some.inj h
      exact ⟨_, I.setPut hstack⟩
    . next hrunning =>
      obtain rfl := Option.some.inj h
      refine ⟨_, I.refuse hstack fun hstarted _ => ?_⟩
      have hdone := I.flags.running a hstarted (Bool.eq_false_iff.mpr hrunning)
      exact I.flags.closed a (I.flags.exits a hstarted (.inr hdone))
  . next a task millisec rest hstack =>
    split at h
    . next hthread =>
      subst hthread
      obtain rfl := Option.some.inj h
      exact ⟨_, I.runOwn hstack⟩
    . next hthread =>
      split at h
      . contradiction
      . obtain rfl := Option.some.inj h
        exact ⟨_, I.enqueue hstack hthread⟩
  . contradiction

@[simp]
theorem setStack_setStack {stack' : List Frame}
    : (s.setStack thread stack).setStack thread stack' = s.setStack thread stack' := by
  simp [setStack]

@[simp]
theorem setStack_run : (s.setStack thread stack).run thread task rest = s.run thread task rest := by
  simp [run, setStack]

theorem Inv.returned (I : s.Inv started place)
    (hanswered : task.callback = true → ∀ target, task.target = some target → started target = true
      → s.Answered task target)
    (hcalled : task.callback = true → task.target = none
      → ∃ thread, (thread, .callback task.work) ∈ s.started)
    : Inv started { s with returned := s.returned ++ [task] } place where
  places := I.places
  logs := ⟨I.logs.order, I.logs.inOrder, I.logs.entered, I.logs.own, I.logs.closed⟩
  flags := ⟨I.flags.checkEmpty, I.flags.closed, I.flags.exits, I.flags.running⟩
  callbacks := by
    refine ⟨fun task' htask' => ?_, fun task' htask' => ?_⟩
    . rcases List.mem_append.mp htask' with htask' | htask'
      . exact I.callbacks.answered task' htask'
      . rw [List.mem_singleton.mp htask']
        exact hanswered
    . rcases List.mem_append.mp htask' with htask' | htask'
      . exact I.callbacks.called task' htask'
      . rw [List.mem_singleton.mp htask']
        exact hcalled

section Callback

variable (I : s.Inv started place) (hstack : s.stackOf thread = rest)
  (hfinished : place work = .finished) (hnowhere : place (.callback work) = .nowhere)

include I hstack hfinished hnowhere

theorem Inv.putCallback {target : Nat}
    : Inv started
        (s.setStack thread (.put target ⟨.callback work, false, none⟩ (-1) .checkStop :: rest))
        (Function.update place (.callback work) (.putting thread rest.length)) where
  places := by
    refine I.places.pushPut hnowhere (Nat.le_refl _) nofun ?_ (hstack ▸ I.places.frames thread)
    rintro v ⟨⟩
    exact hfinished
  logs := ⟨I.logs.order, I.logs.inOrder, I.logs.entered, I.logs.own, I.logs.closed⟩
  flags := ⟨I.flags.checkEmpty, I.flags.closed, I.flags.exits, I.flags.running⟩
  callbacks := by
    refine I.callbacks.mono (fun _ _ h => mem_update (fun _ hf => ?_) h) rfl (fun _ h => h)
      (fun _ h => h) fun _ h => h
    exact List.mem_cons_of_mem _ (hstack ▸ hf)

theorem Inv.callCallback
    : Inv started (s.run thread ⟨.callback work, false, none⟩ rest)
        (Function.update place (.callback work) (.running thread rest.length)) where
  places := by
    refine I.places.pushRun hnowhere nofun ?_ (hstack ▸ I.places.frames thread)
    rintro v ⟨⟩
    exact hfinished
  logs := by
    exact ⟨I.logs.order, fun b => inOrder_append (I.logs.inOrder b) _, I.logs.entered,
      fun b task' htask' => List.mem_append_left _ (I.logs.own b task' htask'), I.logs.closed⟩
  flags := ⟨I.flags.checkEmpty, I.flags.closed, I.flags.exits, I.flags.running⟩
  callbacks := by
    refine I.callbacks.mono (fun _ _ h => mem_update (fun _ hf => ?_) h) rfl (fun _ h => h)
      (fun _ h => h) fun _ h => List.mem_append_left _ h
    exact List.mem_cons_of_mem _ (hstack ▸ hf)

end Callback

theorem Inv.answer (I : s.Inv started place) (h : s.stackOf thread = .run task :: rest)
    : ∃ place', Inv started { s.answer thread task rest with returned := s.returned ++ [task] } place' := by
  have hplace : place task.work = .running thread rest.length := (I.places.top h).1
  have hfinished : Function.update place task.work .finished task.work = .finished :=
    Function.update_self ..
  have hnowhere : Function.update place task.work .finished (.callback task.work) = .nowhere := by
    rw [Function.update_of_ne work_ne_callback.symm]
    by_contra hne
    rw [I.places.callback task.work hne] at hplace
    contradiction
  have I' := I.leave h
  have hstack : (s.setStack thread rest).stackOf thread = rest := Function.update_self ..
  by_cases hcallback : task.callback = true
  . cases htarget : task.target with
    | some target =>
      have hanswer : s.answer thread task rest
          = s.setStack thread (.put target ⟨.callback task.work, false, none⟩ (-1) .checkStop :: rest) := by
        simp [State.answer, hcallback, htarget]
      have I'' : Inv started ((s.setStack thread rest).setStack thread
          (.put target ⟨.callback task.work, false, none⟩ (-1) .checkStop :: rest)) _ :=
        I'.putCallback hstack hfinished hnowhere
      rw [setStack_setStack] at I''
      rw [hanswer]
      refine ⟨_, I''.returned (fun _ target' htarget' _ => .inl ⟨thread, .checkStop, ?_⟩)
        fun _ hnone => ?_⟩
      . rw [htarget] at htarget'
        obtain rfl := Option.some.inj htarget'
        simp [setStack]
      . rw [htarget] at hnone
        contradiction
    | none =>
      have hanswer : s.answer thread task rest = s.run thread ⟨.callback task.work, false, none⟩ rest := by
        simp [State.answer, hcallback, htarget]
      have I'' := I'.callCallback hstack hfinished hnowhere
      rw [setStack_run] at I''
      rw [hanswer]
      refine ⟨_, I''.returned (fun _ target' htarget' => ?_) fun _ _ => ⟨thread, ?_⟩⟩
      . rw [htarget] at htarget'
        contradiction
      . simp [run]
  . have hanswer : s.answer thread task rest = s.setStack thread rest := by
      simp [State.answer, hcallback]
    rw [hanswer]
    exact ⟨_, I'.returned (fun h => absurd h hcallback) fun h => absurd h hcallback⟩

theorem Inv.setActor (I : s.Inv started place) {actor : ActorState} {closed : Nat → Option Nat}
    (hqueue : actor.taskQueue = (s.actors a).taskQueue)
    (hstop : (s.actors a).stopWhenEmpty = true → actor.stopWhenEmpty = true)
    (hclosed : ∀ b n, closed b = some n → n ≤ (s.taken b).length)
    (F : Flags started { s.setActor a actor with closed })
    : Inv started { s.setActor a actor with closed } place where
  places := by
    have P := I.places
    rwa [← field_keep ActorState.taskQueue hqueue] at P
  logs := by
    have hkeep (b : Nat) : (Function.update s.actors a actor b).taskQueue = (s.actors b).taskQueue :=
      congrFun (field_keep ActorState.taskQueue hqueue) b
    refine ⟨fun b => ?_, I.logs.inOrder, I.logs.entered, I.logs.own, hclosed⟩
    rw [State.setActor, hkeep b]
    exact I.logs.order b
  flags := F
  callbacks := I.callbacks.mono (fun _ _ h => h) rfl (fun _ h => h) (stop_update hstop) fun _ h => h

theorem Inv.dequeue (I : s.Inv started place) {taskQueue : List ActorTask}
    (hstack : s.stackOf (.actor a) = []) (hrunner : (s.actors a).runner = .poll)
    (hqueue : (s.actors a).taskQueue = task :: taskQueue)
    : Inv started
        { (s.run (.actor a) task []).setActor a { s.actors a with taskQueue, runner := .loop } with
          taken := Function.update s.taken a (s.taken a ++ [task]) }
        (Function.update place task.work (.running (.actor a) 0)) where
  places := by
    have P : Places (Function.update s.stackOf (.actor a) [.run task]) _ _ _ _ := I.places.dequeue hqueue
    rwa [← field_update ActorState.taskQueue { s.actors a with taskQueue, runner := .loop }] at P
  logs := by
    refine ⟨fun b => ?_, fun b => ?_, I.logs.entered, fun b task' htask' => ?_, fun b n hn => ?_⟩
    . by_cases hb : b = a
      . subst hb
        simp [State.setActor, run, setStack, I.logs.order b, hqueue]
      . simpa [State.setActor, hb, run, setStack] using I.logs.order b
    . by_cases hb : b = a
      . subst hb
        simpa [State.setActor, run] using (I.logs.inOrder b).append (List.Sublist.refl [task.work])
      . simpa [State.setActor, run, setStack, hb] using inOrder_append (I.logs.inOrder b) _
    . exact List.mem_append_left _ (I.logs.own b task' htask')
    . have hle := I.logs.closed b n hn
      by_cases hb : b = a
      . subst hb
        simp only [Function.update_self, List.length_append]
        omega
      . simpa [hb] using hle
  flags := by
    have hne : (s.actors a).runner ≠ .done := by
      simp [hrunner]
    exact I.flags.update rfl (fun _ _ => rfl) nofun (I.flags.closed a) (by simp)
      fun hstarted hrunning => absurd (I.flags.running a hstarted hrunning) hne
  callbacks := by
    refine I.callbacks.mono (fun _ _ h => mem_update (fun _ hf => ?_) h) rfl (fun _ h => h)
      (stop_update fun h => h) fun _ h => List.mem_append_left _ h
    rw [hstack] at hf
    contradiction

theorem Inv.setRunner (I : s.Inv started place) {runner : TaskRunner}
    (hne : (s.actors a).runner ≠ .done)
    (hcheck : runner = .checkEmpty → (s.actors a).stopWhenEmpty = true)
    (hexits : started a = true → runner = .closing ∨ runner = .done → (s.closed a).isSome = true)
    : (s.setActor a { s.actors a with runner }).Inv started place :=
  I.setActor rfl id I.logs.closed (I.flags.update rfl (fun _ _ => rfl) hcheck (I.flags.closed a) hexits
    fun hstarted hrunning => absurd (I.flags.running a hstarted hrunning) hne)

theorem Inv.loop (I : s.Inv started place) (hstack : s.stackOf (.actor a) = [])
    (h : s.loop a = some s')
    : ∃ place', s'.Inv started place' := by
  simp only [State.loop] at h
  split at h
  . next hrunner =>
    have hne : (s.actors a).runner ≠ .done := by
      simp [hrunner]
    obtain rfl := Option.some.inj h
    refine ⟨place, I.setRunner hne (fun hcheck => ?_) fun hstarted hexit => ?_⟩
    . split at hcheck <;> contradiction
    . split at hexit
      . simp at hexit
      . next hrunning => exact absurd (I.flags.running a hstarted (Bool.eq_false_iff.mpr hrunning)) hne
  . next hrunner =>
    obtain rfl := Option.some.inj h
    refine ⟨place, I.setRunner (by simp [hrunner]) (fun hcheck => ?_) fun _ hexit => ?_⟩
    . split at hcheck
      . assumption
      . contradiction
    . split at hexit <;> simp at hexit
  . next hrunner =>
    have hstop := I.flags.checkEmpty a hrunner
    have hne : (s.actors a).runner ≠ .done := by
      simp [hrunner]
    split at h
    . next hempty =>
      obtain rfl := Option.some.inj h
      refine ⟨place, I.setActor rfl id (fun b n hn => ?_) (I.flags.update rfl (fun b hb => ?_) nofun
        (fun _ => hstop) (by simp) fun hstarted hrunning => absurd (I.flags.running a hstarted hrunning) hne)⟩
      . by_cases hb : b = a
        . subst hb
          rw [Function.update_self] at hn
          obtain rfl := Option.some.inj hn
          refine Nat.le_of_eq ?_
          rw [I.logs.order b, hempty, List.append_nil]
        . rw [Function.update_of_ne hb] at hn
          exact I.logs.closed b n hn
      . exact Function.update_of_ne hb ..
    . obtain rfl := Option.some.inj h
      exact ⟨place, I.setRunner hne nofun (by simp)⟩
  . next hrunner =>
    obtain rfl := Option.some.inj h
    exact ⟨place, I.setActor rfl id I.logs.closed (I.flags.update rfl (fun _ _ => rfl) nofun
      (I.flags.closed a) (fun hstarted _ => I.flags.exits a hstarted (.inl hrunner)) fun _ _ => rfl)⟩
  . next hrunner =>
    split at h
    . next task taskQueue hqueue =>
      obtain rfl := Option.some.inj h
      exact ⟨_, I.dequeue hstack hrunner hqueue⟩
    . contradiction
  . contradiction

theorem Inv.step (I : s.Inv started place) {action : Action} (h : s.step action = some s')
    : ∃ place', s'.Inv started place' := by
  cases action with
  | put thread a callback target millisec =>
    simp only [State.step] at h
    split at h
    . obtain rfl := Option.some.inj h
      exact ⟨_, I.put⟩
    . contradiction
  | proceed thread => exact I.proceed h
  | offerFails thread =>
    simp only [State.step] at h
    split at h
    . next a task millisec rest hstack =>
      split at h
      . next hfails =>
        obtain rfl := Option.some.inj h
        refine ⟨_, I.refuse hstack fun _ hmillisec => ?_⟩
        -- a callback waits until the queue has room
        omega
      . contradiction
    . contradiction
  | returns thread =>
    simp only [State.step] at h
    split at h
    . next task rest hstack =>
      obtain rfl := Option.some.inj h
      exact I.answer hstack
    . contradiction
  | throws thread =>
    simp only [State.step] at h
    split at h
    . next hstack =>
      obtain rfl := Option.some.inj h
      exact ⟨_, I.leave hstack⟩
    . contradiction
  | stopWhenEmpty a =>
    obtain rfl := Option.some.inj h
    exact ⟨place, I.setActor rfl (fun _ => rfl) I.logs.closed (I.flags.update rfl (fun _ _ => rfl)
      (fun _ => rfl) (fun _ => rfl) (I.flags.exits a) (I.flags.running a))⟩
  | loop a =>
    simp only [State.step] at h
    split at h
    . next hstack => exact I.loop hstack h
    . contradiction
  | pollFails a =>
    simp only [State.step] at h
    split at h
    . next hpoll =>
      obtain rfl := Option.some.inj h
      exact ⟨place, I.setRunner (by simp [hpoll.2.1]) nofun (by simp)⟩
    . contradiction

end State

def answers (a : Nat) : List Action :=
  [.returns (.actor a), .proceed (.actor a), .proceed (.actor a), .proceed (.actor a)]

end Actor

end WzGame
