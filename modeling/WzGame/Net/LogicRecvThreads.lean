import WzGame.Net.LogicRecvBufQueue
import WzGame.Util.Runs

/-!
This module contains the two threads that share the queue of received buffers: the thread of the socket
fills buffers, and the thread of the game takes the filled ones.
-/

namespace WzGame

open CircularIndex Runs

namespace LogicRecvBufQueue

inductive SocketThread where
  | idle
  | looking (index : Nat) (buffer : Option Nat)
  | filling (i : Nat)
deriving DecidableEq

/--
In `GetUsedBuf` with the index of its loop and the number of buffers that had been filled when it began,
or consuming a buffer.
-/
inductive GameThread where
  | idle
  | looking (index filled : Nat)
  | consuming (i : Nat)
deriving DecidableEq

def SocketThread.looks : SocketThread → Bool
  | .looking _ _ => true
  | _ => false

def GameThread.looks : GameThread → Bool
  | .looking _ _ => true
  | _ => false

structure Threads (α : Type) where
  queue : LogicRecvBufQueue α
  socket : SocketThread
  game : GameThread
  filled : List α
  returned : List α
deriving DecidableEq

inductive Action (α : Type) where
  | getEmptyBuf
  | lookForEmpty
  | addBuf
  | fill (content : α)
  | getUsedBuf
  | lookForUsed
  | leave
  | release
deriving DecidableEq

variable {α : Type}

def Threads.start (iQueueSize : Nat) : Threads α := ⟨.create iQueueSize, .idle, .idle, [], []⟩

def step (s : Threads α) : Action α → Option (Threads α)
  | .getEmptyBuf =>
    if s.socket = .idle ∧ s.game.looks = false then
      some { s with socket := .looking 0 none }
    else
      none
  | .lookForEmpty =>
    match s.socket with
    | .looking index _ =>
      if index < s.queue.count then
        let (queue, i, free) := s.queue.lookForEmpty
        some { s with queue, socket := if free then .filling i else .looking (index + 1) (some i) }
      else
        none
    | _ => none
  | .addBuf =>
    match s.socket with
    | .looking index buffer =>
      if index < s.queue.count then
        none
      else
        let (queue, i) := s.queue.addBuf buffer
        some { s with queue, socket := .filling i }
    | _ => none
  | .fill content =>
    match s.socket with
    | .filling i => some { s with
        queue := s.queue.fill i content
        socket := .idle
        filled := s.filled ++ [content] }
    | _ => none
  | .getUsedBuf =>
    if s.game = .idle ∧ s.socket.looks = false then
      some { s with game := .looking 0 s.filled.length }
    else
      none
  | .lookForUsed =>
    match s.game with
    | .looking index filled =>
      if index < s.queue.count then
        let (queue, i, used) := s.queue.lookForUsed
        if used then
          some { s with
            queue
            game := .consuming i
            returned := s.returned ++ (s.queue.buffer i).content.toList }
        else
          some { s with queue, game := .looking (index + 1) filled }
      else
        none
    | _ => none
  | .leave =>
    match s.game with
    | .looking index _ =>
      if index < s.queue.count then
        none
      else
        some { s with game := .idle }
    | _ => none
  | .release =>
    match s.game with
    | .consuming i => some { s with queue := s.queue.setUsedFlag i false, game := .idle }
    | _ => none

/--
The contents are returned in the order in which buffers have been filled with them. Those that have not
been returned are in used buffers that `GetEmptyBuf` has not handed out; so is the one that is being
consumed. `GetUsedBuf` goes on looking only when all buffers that had been filled before it began have
been returned.
-/
structure Fifo (s : Threads α) : Prop where
  returned : s.returned <+: s.filled
  waiting : ∀ (n : Nat) (h : n < s.filled.length), s.returned.length ≤ n
    → ∃ i < s.queue.count, s.queue.buffer i = ⟨true, some s.filled[n]⟩ ∧ s.socket ≠ .filling i
  consuming : ∀ i, s.game = .consuming i
    → s.queue.buffer i = ⟨true, s.returned.getLast?⟩ ∧ s.socket ≠ .filling i
  complete : ∀ index filled, s.game = .looking index filled → 0 < index
    → filled ≤ s.returned.length

def Threads.waiting (s : Threads α) : Nat := s.filled.length - s.returned.length

def Threads.grows (s : Threads α) : Bool :=
  match s.socket with
  | .looking index buffer => s.queue.count ≤ index && s.queue.grows buffer
  | _ => false

/--
When a buffer is added to the list, the filled ones begin at the cursor of `GetUsedBuf` and end at the
end of the list.
-/
def GrowsInOrder (s : Threads α) (a : Action α) : Prop :=
  a = .addBuf → s.grows = true → s.queue.m_iUsedPos + s.waiting = s.queue.count

end LogicRecvBufQueue

end WzGame
