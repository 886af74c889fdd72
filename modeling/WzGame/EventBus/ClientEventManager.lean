import WzGame.ObjectPool.ObjectPool

/-!
This module contains the events of the client: they are rented from a pool, wait until their time locks
have passed, are dispatched to the functions that are registered for them, and are recycled.
-/

namespace WzGame

open Runs

def geIdCount : Nat := 97

structure ClientEvent (τ ρ : Type) where
  mParameters : List ρ
  mID : Int
  mTimeLock : τ
  mDeleteFlg : Bool
deriving DecidableEq

def ClientEvent.fresh {τ ρ : Type} [Zero τ] : ClientEvent τ ρ := ⟨[], geIdCount, 0, false⟩

namespace ClientEventManager

def maxEventCount : Int := 512

def eventCount : Nat := 100

inductive Entry (τ ρ φ : Type) where
  | added (eve : ClientEvent τ ρ)
  | dispatched (function : φ)
  | recycled
deriving DecidableEq

structure State (τ ρ φ : Type) where
  mProcessEventsList : List Int
  mEventPool : ObjectPool (ClientEvent τ ρ)
  log : List (Int × Entry τ ρ φ)

inductive Action (τ ρ : Type) where
  | addEvent (type key : Int)
  | addParameter (key : Int) (parameter : ρ)
  | setTimelock (key : Int) (now timelock : τ)
  | immediatelyActiveEvent (key : Int)
  | onUpdate (unscaledTime : τ)

variable {τ ρ φ : Type} [Zero τ]

def start (shrinkPoint : Int) : State τ ρ φ :=
  ⟨[], .initializePool (some fun _ => .fresh) 50 maxEventCount shrinkPoint, []⟩

def functions (mAllEvents : Nat → List (Option φ)) (type : Int) : List φ :=
  if 0 ≤ type ∧ type < geIdCount then (mAllEvents type.toNat).reverse.filterMap id else []

namespace State

def event (s : State τ ρ φ) (key : Int) : ClientEvent τ ρ :=
  (s.mEventPool.hashTableObjs key).getD .fresh

def modify (s : State τ ρ φ) (key : Int) (f : ClientEvent τ ρ → ClientEvent τ ρ) : State τ ρ φ :=
  { s with mEventPool := { s.mEventPool with
      hashTableObjs := Function.update s.mEventPool.hashTableObjs key
        ((s.mEventPool.hashTableObjs key).map f) } }

def addEvent (s : State τ ρ φ) (type key : Int) : State τ ρ φ :=
  let (mEventPool, eve) := s.mEventPool.rentObject (some (key, .fresh))
  match eve with
  | some (key, eve) =>
    { { s with mEventPool }.modify key fun eve => { eve with mID := type } with
      mProcessEventsList := s.mProcessEventsList ++ [key]
      log := s.log ++ [(key, .added { eve with mID := type })] }
  | none => { s with mEventPool }

def destoryEvent (s : State τ ρ φ) (key : Int) : State τ ρ φ :=
  { s with
    mEventPool := s.mEventPool.giveBackObject key
    log := s.log ++ [(key, .recycled)] }

variable (mAllEvents : Nat → List (Option φ))

def activeFunction (s : State τ ρ φ) (key : Int) : State τ ρ φ :=
  { s with
    log := s.log ++ (functions mAllEvents (s.event key).mID).map fun function =>
      (key, .dispatched function) }

def immediatelyActiveEvent (s : State τ ρ φ) (key : Int) : State τ ρ φ :=
  let s := (s.activeFunction mAllEvents key).destoryEvent key
  { s with mProcessEventsList := s.mProcessEventsList.erase key }.modify key fun eve =>
    { eve with mDeleteFlg := true }

def processEvent (s : State τ ρ φ) (i : Nat) (key : Int) : State τ ρ φ :=
  let s := if (s.event key).mDeleteFlg then s else s.activeFunction mAllEvents key
  let s := s.destoryEvent key
  { s with mProcessEventsList := s.mProcessEventsList.eraseIdx i }

def checkLoop : Nat → State τ ρ φ → State τ ρ φ
  | 0, s => s
  | eventCount + 1, s =>
    match s.mProcessEventsList[0]? with
    | none => s
    | some key => checkLoop eventCount (s.processEvent mAllEvents 0 key)

def checkEventCount (s : State τ ρ φ) : State τ ρ φ :=
  s.checkLoop mAllEvents (s.mProcessEventsList.length - eventCount)

variable [LT τ] [DecidableLT τ]

def updateLoop (unscaledTime : τ) : Nat → State τ ρ φ → Nat → State τ ρ φ
  | 0, s, _ => s
  | fuel + 1, s, i =>
    match s.mProcessEventsList[i]? with
    | none => s
    | some key =>
      if (s.event key).mDeleteFlg = false ∧ unscaledTime < (s.event key).mTimeLock then
        updateLoop unscaledTime fuel s (i + 1)
      else
        updateLoop unscaledTime fuel (s.processEvent mAllEvents i key) i

def onUpdate (s : State τ ρ φ) (unscaledTime : τ) : State τ ρ φ :=
  let s := s.checkEventCount mAllEvents
  s.updateLoop mAllEvents unscaledTime s.mProcessEventsList.length 0

variable [Add τ]

def step (s : State τ ρ φ) : Action τ ρ → Option (State τ ρ φ)
  | .addEvent type key =>
    if key ∈ s.mEventPool.keyList then none else some (s.addEvent type key)
  | .addParameter key parameter =>
    if key ∈ s.mProcessEventsList then
      some (s.modify key fun eve => { eve with mParameters := eve.mParameters ++ [parameter] })
    else
      none
  | .setTimelock key now timelock =>
    if key ∈ s.mProcessEventsList then
      some (s.modify key fun eve => { eve with mTimeLock := now + timelock })
    else
      none
  | .immediatelyActiveEvent key =>
    if key ∈ s.mProcessEventsList then some (s.immediatelyActiveEvent mAllEvents key) else none
  | .onUpdate unscaledTime => some (s.onUpdate mAllEvents unscaledTime)

end State

end ClientEventManager

end WzGame
