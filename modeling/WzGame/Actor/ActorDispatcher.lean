import WzGame.Util.Remainders

/-!
This module contains the dispatcher that chooses the actor of a task by a number.
-/

namespace WzGame

-- a Java array has at least one element here and not more than an `int` counts
structure ActorDispatcher (A : Type) where
  actors : Array A
  nonempty : 0 < actors.size
  size_lt : actors.size < 2 ^ 31

namespace ActorDispatcher

variable {A : Type}

-- the constructors, where `actor` makes the actor of an index; `none` is an `IllegalArgumentException`
def new (poolSize : Int32) (actor : Nat → A) : Option (ActorDispatcher A) :=
  if h : poolSize.toInt ≤ 0 then
    none
  else
    some
      { actors := Array.ofFn fun i : Fin poolSize.toInt.toNat => actor i
        nonempty := by
          rw [Array.size_ofFn]
          omega
        size_lt := by
          have hlt := poolSize.toInt_lt
          rw [Array.size_ofFn]
          omega }

-- `actors.length`
def poolSize (d : ActorDispatcher A) : Int32 := .ofInt d.actors.size

def index (d : ActorDispatcher A) (dispatchId : Int32) : Int32 := dispatchId.abs % d.poolSize

-- `none` is an `ArrayIndexOutOfBoundsException`.
def getActor (d : ActorDispatcher A) (dispatchId : Int32) : Option A :=
  let idx := d.index dispatchId
  if 0 ≤ idx.toInt then d.actors[idx.toInt.toNat]? else none

variable {d : ActorDispatcher A} {dispatchId : Int32}

theorem toInt_poolSize (d : ActorDispatcher A) : d.poolSize.toInt = d.actors.size := by
  have hlt := d.size_lt
  exact Int32.toInt_ofInt_of_le (by omega) (by omega)

theorem poolSize_new {poolSize : Int32} {actor : Nat → A} (h : new poolSize actor = some d)
    : d.poolSize = poolSize := by
  rw [new] at h
  split at h
  . contradiction
  . obtain rfl := Option.some.inj h
    rw [← Int32.toInt_inj, toInt_poolSize, Array.size_ofFn]
    omega

theorem index_iff (d : ActorDispatcher A) (dispatchId : Int32)
    : (0 ≤ (d.index dispatchId).toInt ∧ (d.index dispatchId).toInt < d.poolSize.toInt)
        ↔ dispatchId ≠ Int32.minValue ∨ d.poolSize.toInt ∣ 2 ^ 31 := by
  have hpos := d.nonempty
  apply Int32.abs_mod_index_iff
  rw [toInt_poolSize]
  omega

theorem getActor_iff (d : ActorDispatcher A) (dispatchId : Int32)
    : (∃ actor, d.getActor dispatchId = some actor) ↔ dispatchId ≠ Int32.minValue ∨ d.poolSize.toInt ∣ 2 ^ 31 := by
  rw [← index_iff, toInt_poolSize, getActor]
  split
  . next hidx =>
    rw [and_iff_right hidx]
    simp only [Array.getElem?_eq_some_iff, exists_comm, exists_eq', exists_prop, and_true]
    omega
  . next hidx => simp [hidx]

end ActorDispatcher

end WzGame
