import WzGame.Util.CircularIndex
import Mathlib.Data.List.GetD

/-!
This module contains the queue of the buffers that the client receives bytes in.
-/

namespace WzGame

open CircularIndex

structure LogicRecvBuffer (α : Type) where
  m_bUsedFlag : Bool
  content : Option α
deriving DecidableEq

def LogicRecvBuffer.clear {α : Type} : LogicRecvBuffer α := ⟨false, none⟩

structure LogicRecvBufQueue (α : Type) where
  m_RecvList : List (LogicRecvBuffer α)
  m_iEmptyPos : Nat
  m_iUsedPos : Nat
deriving DecidableEq

namespace LogicRecvBufQueue

variable {α : Type}

def create (iQueueSize : Nat) : LogicRecvBufQueue α := ⟨.replicate iQueueSize .clear, 0, 0⟩

def count (q : LogicRecvBufQueue α) : Nat := q.m_RecvList.length

-- the cursors stay in the list, so that looking a buffer up does not throw
def buffer (q : LogicRecvBufQueue α) (i : Nat) : LogicRecvBuffer α := q.m_RecvList.getD i .clear

def set (q : LogicRecvBufQueue α) (i : Nat) (buffer : LogicRecvBuffer α) : LogicRecvBufQueue α :=
  { q with m_RecvList := q.m_RecvList.set i buffer }

def setUsedFlag (q : LogicRecvBufQueue α) (i : Nat) (bFlag : Bool) : LogicRecvBufQueue α :=
  q.set i { q.buffer i with m_bUsedFlag := bFlag }

-- `TSocket.OnReceive` fills a buffer and marks it as used.
def fill (q : LogicRecvBufQueue α) (i : Nat) (content : α) : LogicRecvBufQueue α :=
  q.set i ⟨true, some content⟩

def lookForEmpty (q : LogicRecvBufQueue α) : LogicRecvBufQueue α × Nat × Bool :=
  let i := wrap q.count q.m_iEmptyPos
  if (q.buffer i).m_bUsedFlag then
    ({ q with m_iEmptyPos := i + 1 }, i, false)
  else
    ({ q.set i .clear with m_iEmptyPos := wrap q.count (i + 1) }, i, true)

def grows (q : LogicRecvBufQueue α) (last : Option Nat) : Bool :=
  match last with
  | none => true
  | some i => (q.buffer i).m_bUsedFlag

def addBuf (q : LogicRecvBufQueue α) (last : Option Nat) : LogicRecvBufQueue α × Nat :=
  if q.grows last then
    let m_RecvList := q.m_RecvList ++ [.clear]
    ({ q with m_RecvList, m_iEmptyPos := wrap m_RecvList.length (q.m_iEmptyPos + 1) }, q.count)
  else
    let i := last.getD 0
    ({ q.set i .clear with m_iEmptyPos := wrap q.count (q.m_iEmptyPos + 1) }, i)

def lookForUsed (q : LogicRecvBufQueue α) : LogicRecvBufQueue α × Nat × Bool :=
  let i := wrap q.count q.m_iUsedPos
  if (q.buffer i).m_bUsedFlag then
    ({ q with m_iUsedPos := wrap q.count (i + 1) }, i, true)
  else
    ({ q with m_iUsedPos := i + 1 }, i, false)

def emptyLoop : Nat → LogicRecvBufQueue α → Option Nat → LogicRecvBufQueue α × Nat
  | 0, q, last => q.addBuf last
  | fuel + 1, q, _ =>
    let (q, i, free) := q.lookForEmpty
    if free then (q, i) else emptyLoop fuel q (some i)

def getEmptyBuf (q : LogicRecvBufQueue α) : LogicRecvBufQueue α × Nat := emptyLoop q.count q none

def usedLoop : Nat → LogicRecvBufQueue α → LogicRecvBufQueue α × Option Nat
  | 0, q => (q, none)
  | fuel + 1, q =>
    let (q, i, used) := q.lookForUsed
    if used then (q, some i) else usedLoop fuel q

def getUsedBuf (q : LogicRecvBufQueue α) : LogicRecvBufQueue α × Option Nat := usedLoop q.count q

def waitingAt (q : LogicRecvBufQueue α) (i : Nat) : Option α :=
  if (q.buffer i).m_bUsedFlag then (q.buffer i).content else none

def contents (q : LogicRecvBufQueue α) : List α :=
  (List.range q.count).filterMap fun j => q.waitingAt (slot q.count (wrap q.count q.m_iUsedPos) j)

variable {q : LogicRecvBufQueue α} {i j : Nat} {b : LogicRecvBuffer α}

@[simp]
theorem count_set : (q.set i b).count = q.count := by
  simp [count, set]

theorem buffer_set_self (h : i < q.count) : (q.set i b).buffer i = b := by
  rw [buffer, set, List.getD_eq_getElem?_getD, List.getElem?_set_self h, Option.getD_some]

theorem buffer_set_of_ne (h : i ≠ j) : (q.set i b).buffer j = q.buffer j := by
  rw [buffer, buffer, set, List.getD_eq_getElem?_getD, List.getElem?_set_ne h,
    List.getD_eq_getElem?_getD]

theorem buffer_create {iQueueSize : Nat}
    : (create iQueueSize : LogicRecvBufQueue α).buffer i = .clear := by
  rw [buffer, create, List.getD_eq_getElem?_getD, List.getElem?_replicate]
  split
  . rfl
  . rfl

theorem buffer_append (h : i < q.count) {m_iEmptyPos m_iUsedPos : Nat}
    : (⟨q.m_RecvList ++ [b], m_iEmptyPos, m_iUsedPos⟩ : LogicRecvBufQueue α).buffer i = q.buffer i :=
  List.getD_append _ _ _ _ h

theorem buffer_append_count {m_iEmptyPos m_iUsedPos : Nat}
    : (⟨q.m_RecvList ++ [b], m_iEmptyPos, m_iUsedPos⟩ : LogicRecvBufQueue α).buffer q.count = b := by
  rw [buffer, List.getD_eq_getElem?_getD, count, List.getElem?_concat_length, Option.getD_some]

end LogicRecvBufQueue

end WzGame
