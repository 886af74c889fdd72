import WzGame.Util.Runs

/-!
This module contains the actors of the servers: each has a queue of tasks that any thread may put one
into, and a thread that runs them, in turn with what these tasks put themselves.
-/

namespace WzGame

open Runs

namespace Actor

inductive Work where
  | put (n : Nat)
  | callback (work : Work)
deriving DecidableEq

structure ActorTask where
  work : Work
  callback : Bool
  target : Option Nat
deriving DecidableEq

inductive TaskRunner where
  | loop
  | checkStop
  | checkEmpty
  | closing
  | poll
  | done
deriving DecidableEq

-- the capacity is `none` where the queue is unlimited
structure ActorState where
  taskQueue : List ActorTask
  capacity : Option Nat
  running : Bool
  stopWhenEmpty : Bool
  runner : TaskRunner
deriving DecidableEq

inductive Thread where
  | actor (a : Nat)
  | other (n : Nat)
deriving DecidableEq

inductive PutStep where
  | checkStop
  | checkRunning
  | enter
deriving DecidableEq

inductive Frame where
  | put (a : Nat) (task : ActorTask) (millisec : Int) (pc : PutStep)
  | run (task : ActorTask)
deriving DecidableEq

def Frame.work : Frame → Work
  | .put _ task _ _ => task.work
  | .run task => task.work

/--
The actors, the threads with what they are in, and the number of tasks that have been put; then what has
happened: the tasks that have entered the queue of each actor, those that its thread has taken, how many
had entered when it found that it was to stop and its queue was empty, the tasks that a `put` returns true
for to which thread, what has been run by which thread, and the tasks whose runners have returned.
-/
structure State where
  actors : Nat → ActorState
  stackOf : Thread → List Frame
  puts : Nat
  entered : Nat → List ActorTask
  taken : Nat → List ActorTask
  closed : Nat → Option Nat
  accepted : List (Thread × Nat × ActorTask)
  started : List (Thread × Work)
  returned : List ActorTask

inductive Action where
  | put (thread : Thread) (a : Nat) (callback : Bool) (target : Option Nat) (millisec : Int)
  | proceed (thread : Thread)
  | offerFails (thread : Thread)
  | returns (thread : Thread)
  | throws (thread : Thread)
  | stopWhenEmpty (a : Nat)
  | loop (a : Nat)
  | pollFails (a : Nat)

def start (started : Nat → Bool) (capacity : Nat → Int) : State where
  actors := fun a =>
    ⟨[], if capacity a ≤ 0 then none else some (capacity a).toNat, started a, false,
      if started a then .loop else .done⟩
  stackOf := fun _ => []
  puts := 0
  entered := fun _ => []
  taken := fun _ => []
  closed := fun _ => none
  accepted := []
  started := []
  returned := []

def ActorState.full (actor : ActorState) : Bool :=
  actor.capacity.any fun capacity => capacity ≤ actor.taskQueue.length

namespace State

def setActor (s : State) (a : Nat) (actor : ActorState) : State :=
  { s with actors := Function.update s.actors a actor }

def setStack (s : State) (thread : Thread) (stack : List Frame) : State :=
  { s with stackOf := Function.update s.stackOf thread stack }

def run (s : State) (thread : Thread) (task : ActorTask) (rest : List Frame) : State :=
  { s.setStack thread (.run task :: rest) with started := s.started ++ [(thread, task.work)] }

def mayPut : Thread → List Frame → Bool
  | _, .run _ :: _ => true
  | .other _, [] => true
  | _, _ => false

def answer (s : State) (thread : Thread) (task : ActorTask) (rest : List Frame) : State :=
  let callback : ActorTask := ⟨.callback task.work, false, none⟩
  if task.callback then
    match task.target with
    | some target => s.setStack thread (.put target callback (-1) .checkStop :: rest)
    | none => s.run thread callback rest
  else
    s.setStack thread rest

def proceed (s : State) (thread : Thread) : Option State :=
  match s.stackOf thread with
  | .put a task millisec .checkStop :: rest =>
    if (s.actors a).stopWhenEmpty then
      some (s.setStack thread rest)
    else
      some (s.setStack thread (.put a task millisec .checkRunning :: rest))
  | .put a task millisec .checkRunning :: rest =>
    if (s.actors a).running then
      some (s.setStack thread (.put a task millisec .enter :: rest))
    else
      some (s.setStack thread rest)
  | .put a task _ .enter :: rest =>
    if thread = .actor a then
      some { s.run thread task rest with accepted := s.accepted ++ [(thread, a, task)] }
    else if (s.actors a).full then
      none
    else
      let actor := s.actors a
      some { (s.setStack thread rest).setActor a { actor with taskQueue := actor.taskQueue ++ [task] } with
        entered := Function.update s.entered a (s.entered a ++ [task])
        accepted := s.accepted ++ [(thread, a, task)] }
  | _ => none

def loop (s : State) (a : Nat) : Option State :=
  let actor := s.actors a
  match actor.runner with
  | .loop =>
    some (s.setActor a { actor with runner := if actor.running then .checkStop else .done })
  | .checkStop =>
    some (s.setActor a { actor with runner := if actor.stopWhenEmpty then .checkEmpty else .poll })
  | .checkEmpty =>
    if actor.taskQueue = [] then
      some { s.setActor a { actor with runner := .closing } with
        closed := Function.update s.closed a (some (s.entered a).length) }
    else
      some (s.setActor a { actor with runner := .poll })
  | .closing => some (s.setActor a { actor with running := false, runner := .done })
  | .poll =>
    match actor.taskQueue with
    | task :: taskQueue =>
      some { (s.run (.actor a) task []).setActor a { actor with taskQueue, runner := .loop } with
        taken := Function.update s.taken a (s.taken a ++ [task]) }
    | [] => none
  | .done => none

def step (s : State) : Action → Option State
  | .put thread a callback target millisec =>
    if mayPut thread (s.stackOf thread) then
      some { s.setStack thread
          (.put a ⟨.put s.puts, callback, target⟩ millisec .checkStop :: s.stackOf thread) with
        puts := s.puts + 1 }
    else
      none
  | .proceed thread => s.proceed thread
  | .offerFails thread =>
    match s.stackOf thread with
    | .put a _ millisec .enter :: rest =>
      if thread ≠ .actor a ∧ (s.actors a).full ∧ 0 ≤ millisec then
        some (s.setStack thread rest)
      else
        none
    | _ => none
  | .returns thread =>
    match s.stackOf thread with
    | .run task :: rest => some { s.answer thread task rest with returned := s.returned ++ [task] }
    | _ => none
  | .throws thread =>
    match s.stackOf thread with
    | .run _ :: rest => some (s.setStack thread rest)
    | _ => none
  | .stopWhenEmpty a => some (s.setActor a { s.actors a with stopWhenEmpty := true })
  | .loop a => if s.stackOf (.actor a) = [] then s.loop a else none
  | .pollFails a =>
    if s.stackOf (.actor a) = [] ∧ (s.actors a).runner = .poll ∧ (s.actors a).taskQueue = [] then
      some (s.setActor a { s.actors a with runner := .loop })
    else
      none

end State

end Actor

end WzGame
