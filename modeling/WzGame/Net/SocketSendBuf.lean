import Mathlib.Algebra.Ring.Nat

/-!
This module contains the buffers that the client sends its bytes from, and how a buffer is sent in
several transfers.
-/

namespace WzGame

structure SocketSendBuf (β : Type) where
  m_MemoryStream : List β
  m_bEmptyFlag : Bool
  m_iTransferNum : Nat

namespace SocketSendBuf

variable {β : Type}

def isFinished (buf : SocketSendBuf β) : Bool := buf.m_iTransferNum = buf.m_MemoryStream.length

def addTransferByteNum (buf : SocketSendBuf β) (iBytesTransferred : Nat) : SocketSendBuf β :=
  let m_iTransferNum := buf.m_iTransferNum + iBytesTransferred
  if buf.m_MemoryStream.length < m_iTransferNum then
    { buf with m_iTransferNum := buf.m_MemoryStream.length }
  else
    { buf with m_iTransferNum }

/--
What is being sent: the buffer, the bytes that an asynchronous send has been given, and the bytes that
have been transferred.
-/
structure Sending (β : Type) where
  sendBuff : SocketSendBuf β
  pending : Option (List β)
  transferred : List β

-- `TSocket.Send` gives all bytes of the buffer to the asynchronous send.
def send (s : Sending β) : Sending β :=
  if s.sendBuff.m_MemoryStream = [] then
    s
  else if s.sendBuff.isFinished then
    s
  else
    { s with pending := some s.sendBuff.m_MemoryStream }

-- `TSocket.OnSend` after a number of bytes has been transferred.
def onSend (s : Sending β) (bytesTransferred : Nat) : Sending β :=
  if 0 < bytesTransferred then
    let sendBuff := s.sendBuff.addTransferByteNum bytesTransferred
    if sendBuff.isFinished then
      { s with sendBuff := { sendBuff with m_bEmptyFlag := true } }
    else
      send { s with sendBuff }
  else
    s

def complete (s : Sending β) (bytesTransferred : Nat) : Option (Sending β) :=
  match s.pending with
  | none => none
  | some bytes =>
    if 0 < bytesTransferred ∧ bytesTransferred ≤ bytes.length then
      some (onSend { s with
        pending := none
        transferred := s.transferred ++ bytes.take bytesTransferred } bytesTransferred)
    else
      none

def run (content : List β) (completions : List Nat) : Option (Sending β) :=
  completions.foldlM complete (send ⟨⟨content, false, 0⟩, none, []⟩)

def Repeats (content : List β) : Nat → List Nat → Prop
  | _, [] => True
  | p, t :: ts =>
    p + t ≤ content.length ∧ (content.drop p).take t = content.take t ∧ Repeats content (p + t) ts

variable {content : List β} {s s' : Sending β} {p t : Nat} {ts ts' : List Nat}

structure Sent (content : List β) (ts : List Nat) (s : Sending β) : Prop where
  memoryStream : s.sendBuff.m_MemoryStream = content
  pending : ∀ bytes, s.pending = some bytes → bytes = content
  transferred : s.transferred = (ts.map fun t => content.take t).flatten
  transferNum : s.sendBuff.m_iTransferNum = min content.length ts.sum
  bounded : ∀ t ∈ ts, t ≤ content.length
  empty : s.sendBuff.m_bEmptyFlag = true → content.length ≤ ts.sum

theorem addTransferByteNum_spec {buf : SocketSendBuf β} (t : Nat) (h : buf.m_MemoryStream = content)
    : (buf.addTransferByteNum t).m_MemoryStream = content
        ∧ (buf.addTransferByteNum t).m_iTransferNum = min content.length (buf.m_iTransferNum + t)
        ∧ (buf.addTransferByteNum t).m_bEmptyFlag = buf.m_bEmptyFlag := by
  subst h
  unfold addTransferByteNum
  simp only
  split
  . next hlt => exact ⟨rfl, (Nat.min_eq_left (Nat.le_of_lt hlt)).symm, rfl⟩
  . next hle => exact ⟨rfl, (Nat.min_eq_right (Nat.not_lt.mp hle)).symm, rfl⟩

theorem Sent.send (S : Sent content ts s) : Sent content ts (SocketSendBuf.send s) := by
  unfold SocketSendBuf.send
  split
  . exact S
  . split
    . exact S
    . exact { S with pending := fun bytes h => (Option.some.inj h).symm.trans S.memoryStream }

theorem Sent.complete (S : Sent content ts s) (h : SocketSendBuf.complete s t = some s')
    : Sent content (ts ++ [t]) s' := by
  cases hpending : s.pending with
  | none => simp [SocketSendBuf.complete, hpending] at h
  | some bytes =>
    obtain rfl := S.pending bytes hpending
    simp only [SocketSendBuf.complete, hpending] at h
    split at h
    . next ht =>
      obtain rfl := Option.some.inj h
      have hsum : (ts ++ [t]).sum = ts.sum + t := by rw [List.sum_append, List.sum_singleton]
      have hbounded : ∀ t' ∈ ts ++ [t], t' ≤ bytes.length := by
        intro t' ht'
        rcases List.mem_append.mp ht' with ht' | ht'
        . exact S.bounded t' ht'
        . exact List.mem_singleton.mp ht' ▸ ht.2
      have htransferred : s.transferred ++ bytes.take t
          = ((ts ++ [t]).map fun t => bytes.take t).flatten := by
        rw [S.transferred, List.map_append, List.flatten_append, List.map_singleton,
          List.flatten_singleton]
      obtain ⟨hstream, hnum, hflag⟩ := addTransferByteNum_spec t S.memoryStream
      have hnum' : (s.sendBuff.addTransferByteNum t).m_iTransferNum
          = min bytes.length (ts ++ [t]).sum := by
        rw [hnum, S.transferNum, hsum]
        omega
      simp only [onSend, if_pos ht.1]
      split
      . next hfinished =>
        refine ⟨hstream, by simp, htransferred, hnum', hbounded, fun _ => ?_⟩
        rw [isFinished, decide_eq_true_iff, hnum', hstream] at hfinished
        omega
      . apply Sent.send
        refine ⟨hstream, by simp, htransferred, hnum', hbounded, fun hempty => ?_⟩
        have hle := S.empty (hflag ▸ hempty)
        omega
    . contradiction

theorem Sent.foldlM (S : Sent content ts s) (h : ts'.foldlM SocketSendBuf.complete s = some s')
    : Sent content (ts ++ ts') s' := by
  induction ts' generalizing ts s with
  | nil =>
    obtain rfl : s = s' := Option.some.inj h
    simpa using S
  | cons t ts' ih =>
    rw [List.foldlM_cons, Option.bind_eq_bind, Option.bind_eq_some_iff] at h
    obtain ⟨s₁, hcomplete, h⟩ := h
    have S' := ih (S.complete hcomplete) h
    rwa [List.append_assoc] at S'

theorem sent_of_run (h : run content ts = some s) : Sent content ts s := by
  have S : Sent content [] (⟨⟨content, false, 0⟩, none, []⟩ : Sending β) :=
    ⟨rfl, by simp, rfl, by simp, by simp, by simp⟩
  exact Sent.foldlM S.send h

theorem flatten_eq_drop_iff (hts : ∀ t ∈ ts, t ≤ content.length) (hsum : content.length ≤ p + ts.sum)
    (hp : p ≤ content.length)
    : (ts.map fun t => content.take t).flatten = content.drop p ↔ Repeats content p ts := by
  induction ts generalizing p with
  | nil =>
    have hend : p = content.length := by
      simp only [List.sum_nil] at hsum
      omega
    simp [Repeats, hend]
  | cons t ts ih =>
    have ht := hts t (by simp)
    have hlength : (content.take t).length = t := by
      rw [List.length_take]
      omega
    rw [List.sum_cons] at hsum
    rw [List.map_cons, List.flatten_cons, Repeats]
    constructor
    . intro h
      have hle : p + t ≤ content.length := by
        have hl := congrArg List.length h
        rw [List.length_append, hlength, List.length_drop] at hl
        omega
      have htake : (content.drop p).take t = content.take t := by
        rw [← h, List.take_left' hlength]
      have hdrop : (ts.map fun t => content.take t).flatten = content.drop (p + t) := by
        rw [← List.drop_drop, ← h, List.drop_left' hlength]
      exact ⟨hle, htake, (ih (fun t' ht' => hts t' (by simp [ht'])) (by omega) hle).mp hdrop⟩
    . rintro ⟨hle, htake, hrest⟩
      rw [(ih (fun t' ht' => hts t' (by simp [ht'])) (by omega) hle).mpr hrest, ← htake,
        ← List.drop_drop, List.take_append_drop]

/--
The content of a buffer is transferred exactly once if and only if every transfer would carry the same
bytes as the first one.
-/
theorem transferred_eq_iff (hrun : run content ts = some s) (hempty : s.sendBuff.m_bEmptyFlag = true)
    : s.transferred = content ↔ Repeats content 0 ts := by
  have S := sent_of_run hrun
  rw [S.transferred]
  have hsum : content.length ≤ 0 + ts.sum := by
    rw [Nat.zero_add]
    exact S.empty hempty
  have h := flatten_eq_drop_iff S.bounded hsum (Nat.zero_le _)
  rwa [List.drop_zero] at h

theorem transferred_eq_iff_halves
    : ([1, 2, 1, 2] : List UInt8) = [1, 2, 1, 2] ↔ Repeats ([1, 2, 1, 2] : List UInt8) 0 [2, 2] := by
  have hrun : run ([1, 2, 1, 2] : List UInt8) [2, 2]
      = some ⟨⟨[1, 2, 1, 2], true, 4⟩, none, [1, 2, 1, 2]⟩ := rfl
  exact transferred_eq_iff hrun rfl

theorem transferred_counterexample
    : run [1, 2, 3] [2, 2] = some (⟨⟨[1, 2, 3], true, 3⟩, none, [1, 2, 1, 2]⟩ : Sending UInt8)
        ∧ [1, 2, 1, 2] ≠ [1, 2, 3] := by
  exact ⟨rfl, by decide⟩

end SocketSendBuf

end WzGame
