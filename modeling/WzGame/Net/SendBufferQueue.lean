import WzGame.Net.SocketSendBuf
import WzGame.Util.CircularIndex
import WzGame.Util.Runs
import Mathlib.Data.List.GetD

/-!
This module contains the queue of the buffers that the client sends its bytes from: which buffer the
queue hands out, and when that is one that no asynchronous send owns any more.
-/

namespace WzGame

open CircularIndex Runs

namespace SocketSendBuf

variable {β : Type}

def clear : SocketSendBuf β := ⟨[], true, 0⟩

-- what `TSocket.SendToSocketBuf` writes into a buffer, which is not empty any more then
def write (buf : SocketSendBuf β) (bytes : List β) : SocketSendBuf β :=
  { buf with m_MemoryStream := buf.m_MemoryStream ++ bytes, m_bEmptyFlag := false }

end SocketSendBuf

structure SendBufferQueue (β : Type) where
  m_SendList : List (SocketSendBuf β)
  m_iPos : Nat

namespace SendBufferQueue

variable {β : Type}

def create (iQueueSize : Int) : SendBufferQueue β := ⟨.replicate iQueueSize.toNat .clear, 0⟩

def count (q : SendBufferQueue β) : Nat := q.m_SendList.length

-- the cursor stays in the list, so that looking a buffer up does not throw
def buffer (q : SendBufferQueue β) (i : Nat) : SocketSendBuf β := q.m_SendList.getD i .clear

def set (q : SendBufferQueue β) (i : Nat) (buffer : SocketSendBuf β) : SendBufferQueue β :=
  { q with m_SendList := q.m_SendList.set i buffer }

def lookForEmpty (q : SendBufferQueue β) : SendBufferQueue β × Nat × Bool :=
  let i := wrap q.count q.m_iPos
  if (q.buffer i).m_bEmptyFlag then
    ({ q.set i .clear with m_iPos := wrap q.count (i + 1) }, i, true)
  else
    ({ q with m_iPos := i + 1 }, i, false)

def grows (q : SendBufferQueue β) (last : Option Nat) : Bool :=
  match last with
  | none => true
  | some i => (q.buffer i).m_bEmptyFlag

def newSendBuffer (q : SendBufferQueue β) (last : Option Nat) : SendBufferQueue β × Nat :=
  if q.grows last then
    let m_SendList := q.m_SendList ++ [.clear]
    (⟨m_SendList, wrap m_SendList.length (q.m_iPos + 1)⟩, q.count)
  else
    -- the buffer is handed out though it was not empty
    let i := last.getD 0
    ({ q.set i .clear with m_iPos := wrap q.count (q.m_iPos + 1) }, i)

variable {q q' : SendBufferQueue β} {i j : Nat} {b : SocketSendBuf β}

@[simp]
theorem count_set : (q.set i b).count = q.count := by
  simp [count, set]

theorem buffer_set_self (h : i < q.count) : (q.set i b).buffer i = b := by
  rw [buffer, set, List.getD_eq_getElem?_getD, List.getElem?_set_self h, Option.getD_some]

theorem buffer_set_of_ne (h : i ≠ j) : (q.set i b).buffer j = q.buffer j := by
  rw [buffer, buffer, set, List.getD_eq_getElem?_getD, List.getElem?_set_ne h,
    List.getD_eq_getElem?_getD]

theorem buffer_of_count_le (h : q.count ≤ j) : q.buffer j = .clear := List.getD_eq_default _ _ h

structure Returns (q q' : SendBufferQueue β) (i : Nat) : Prop where
  lt : i < q'.count
  empty : (q.buffer i).m_bEmptyFlag = true
  cleared : q'.buffer i = .clear
  other : ∀ j, j ≠ i → q'.buffer j = q.buffer j
  count_le : q.count ≤ q'.count

theorem lookForEmpty_cases (h : 0 < q.count)
    : (∃ q' i, q.lookForEmpty = (q', i, true) ∧ Returns q q' i)
        ∨ ∃ q' i, q.lookForEmpty = (q', i, false) ∧ i < q.count ∧ q'.m_SendList = q.m_SendList := by
  have hlt : wrap q.count q.m_iPos < q.count := wrap_lt h
  unfold lookForEmpty
  simp only
  split
  . next hempty =>
    refine .inl ⟨_, _, rfl, ?_, hempty, ?_, ?_, ?_⟩
    . exact Nat.lt_of_lt_of_eq hlt count_set.symm
    . exact buffer_set_self hlt
    . exact fun j hj => buffer_set_of_ne (Ne.symm hj)
    . exact Nat.le_of_eq count_set.symm
  . exact .inr ⟨_, _, rfl, hlt, rfl⟩

theorem newSendBuffer_grows {last : Option Nat} (h : q.grows last = true)
    : ∃ q', q.newSendBuffer last = (q', q.count) ∧ q'.count = q.count + 1 ∧ Returns q q' q.count := by
  have hcount : (q.m_SendList ++ [SocketSendBuf.clear]).length = q.count + 1 := List.length_append
  rw [newSendBuffer, if_pos h]
  refine ⟨_, rfl, hcount, Nat.lt_of_lt_of_eq (Nat.lt_succ_self _) hcount.symm, ?_, ?_, ?_,
    Nat.le_of_lt (Nat.lt_of_lt_of_eq (Nat.lt_succ_self _) hcount.symm)⟩
  . rw [buffer_of_count_le (Nat.le_refl _)]
    rfl
  . rw [buffer, List.getD_eq_getElem?_getD, count, List.getElem?_concat_length, Option.getD_some]
  . intro j hj
    by_cases hlt : j < q.count
    . exact List.getD_append _ _ _ _ hlt
    . have hend : (q.m_SendList ++ [SocketSendBuf.clear]).length ≤ j := by omega
      rw [buffer_of_count_le (by omega : q.count ≤ j), buffer, List.getD_eq_default _ _ hend]

/--
In `GetBuf` with the index of its loop and the buffer it looked at last, or with the buffer that it has
returned, or about to send a buffer.
-/
inductive Sender (β : Type) where
  | idle
  | looking (content : List β) (index : Nat) (buffer : Option Nat)
  | filling (content : List β) (i : Nat)
  | sending (i : Nat)

/--
The asynchronous sends that are not completed, with their buffers and the bytes they have been given, and
the contents that buffers have been filled with and that are not transferred.
-/
structure Socket (β : Type) where
  queue : SendBufferQueue β
  sender : Sender β
  pending : List (Nat × List β)
  unsent : List (Nat × List β)

inductive Action (β : Type) where
  | sendToSocketBuf (content : List β)
  | lookForEmpty
  | newSendBuffer
  | fill
  | send (accepted : Bool)
  | onSend (k bytesTransferred : Nat) (accepted : Bool)

namespace Socket

def start (iQueueSize : Int) : Socket β := ⟨.create iQueueSize, .idle, [], []⟩

-- the sends of the bytes that `TSocket.Send` takes out of a buffer, when the socket accepts them
def accept (accepted : Bool) (i : Nat) (sending : SocketSendBuf.Sending β) : List (Nat × List β) :=
  if accepted then (sending.pending.map fun bytes => (i, bytes)).toList else []

def step (s : Socket β) : Action β → Option (Socket β)
  | .sendToSocketBuf content =>
    match s.sender with
    | .idle => if content = [] then none else some { s with sender := .looking content 0 none }
    | _ => none
  | .lookForEmpty =>
    match s.sender with
    | .looking content index _ =>
      if index < s.queue.count then
        let (queue, i, free) := s.queue.lookForEmpty
        some { s with
          queue
          sender := if free then .filling content i else .looking content (index + 1) (some i) }
      else
        none
    | _ => none
  | .newSendBuffer =>
    match s.sender with
    | .looking content index buffer =>
      if index < s.queue.count then
        none
      else
        let (queue, i) := s.queue.newSendBuffer buffer
        some { s with queue, sender := .filling content i }
    | _ => none
  | .fill =>
    match s.sender with
    | .filling content i => some { s with
        queue := s.queue.set i ((s.queue.buffer i).write content)
        sender := .sending i
        unsent := s.unsent ++ [(i, content)] }
    | _ => none
  | .send accepted =>
    match s.sender with
    | .sending i => some { s with
        sender := .idle
        pending := s.pending ++ accept accepted i (SocketSendBuf.send ⟨s.queue.buffer i, none, []⟩) }
    | _ => none
  | .onSend k bytesTransferred accepted =>
    match s.pending[k]? with
    | some (i, bytes) =>
      if bytesTransferred ≤ bytes.length then
        let sending := SocketSendBuf.onSend ⟨s.queue.buffer i, none, []⟩ bytesTransferred
        some { s with
          queue := s.queue.set i sending.sendBuff
          pending := s.pending.eraseIdx k ++ accept accepted i sending
          unsent := if sending.sendBuff.m_bEmptyFlag then s.unsent.filter (·.1 ≠ i) else s.unsent }
      else
        none
    | none => none

def Free (s : Socket β) (i : Nat) : Prop :=
  s.queue.buffer i = .clear ∧ (∀ p ∈ s.pending, p.1 ≠ i) ∧ ∀ p ∈ s.unsent, p.1 ≠ i

/--
`GetBuf` returns buffers that are cleared and that no pending send owns. What is not transferred is still
in its own buffer, which is not marked as empty; so is what the pending sends have been given.
-/
structure Safe (s : Socket β) : Prop where
  returned : ∀ content i, s.sender = .filling content i → s.Free i
  unsent : ∀ p ∈ s.unsent, (s.queue.buffer p.1).m_MemoryStream = p.2
    ∧ (s.queue.buffer p.1).m_bEmptyFlag = false
  unsent_nodup : (s.unsent.map Prod.fst).Nodup
  pending : ∀ p ∈ s.pending, p ∈ s.unsent
  pending_nodup : (s.pending.map Prod.fst).Nodup

def findsEmpty (s : Socket β) : Action β → Bool
  | .newSendBuffer =>
    match s.sender with
    | .looking _ _ last => s.queue.grows last
    | _ => true
  | _ => true

def FindsEmpty (s : Socket β) (a : Action β) : Prop := s.findsEmpty a = true

variable {s s' : Socket β} {content : List β} {a : Action β}

structure Inv (s : Socket β) : Prop extends Safe s where
  last_lt : ∀ content index i, s.sender = .looking content index (some i) → i < s.queue.count
  filling_lt : ∀ content i, s.sender = .filling content i → i < s.queue.count
  sending : ∀ i, s.sender = .sending i → (∃ bytes, (i, bytes) ∈ s.unsent) ∧ ∀ p ∈ s.pending, p.1 ≠ i
  unsent_lt : ∀ p ∈ s.unsent, p.1 < s.queue.count

theorem inv_start (iQueueSize : Int) : (start iQueueSize : Socket β).Inv where
  returned := nofun
  unsent := nofun
  unsent_nodup := List.nodup_nil
  pending := nofun
  pending_nodup := List.nodup_nil
  last_lt := nofun
  filling_lt := nofun
  sending := nofun
  unsent_lt := nofun

theorem Inv.ne_of_empty (I : s.Inv) (hempty : (s.queue.buffer i).m_bEmptyFlag = true)
    {p : Nat × List β} (hp : p ∈ s.unsent)
    : p.1 ≠ i := by
  rintro rfl
  have hbusy := (I.unsent p hp).2
  rw [hempty] at hbusy
  contradiction

theorem Inv.getBuf (I : s.Inv) {queue : SendBufferQueue β} (R : Returns s.queue queue i)
    : Inv { s with queue, sender := .filling content i } where
  returned := by
    rintro content i ⟨⟩
    exact ⟨R.cleared, fun p hp => I.ne_of_empty R.empty (I.pending p hp),
      fun p hp => I.ne_of_empty R.empty hp⟩
  unsent := by
    intro p hp
    rw [R.other _ (I.ne_of_empty R.empty hp)]
    exact I.unsent p hp
  unsent_nodup := I.unsent_nodup
  pending := I.pending
  pending_nodup := I.pending_nodup
  last_lt := nofun
  filling_lt := by
    rintro content i ⟨⟩
    exact R.lt
  sending := nofun
  unsent_lt := fun p hp => Nat.lt_of_lt_of_le (I.unsent_lt p hp) R.count_le

theorem Inv.lookOn (I : s.Inv) {queue : SendBufferQueue β} (hi : i < s.queue.count) {index : Nat}
    (hlist : queue.m_SendList = s.queue.m_SendList)
    : Inv { s with queue, sender := .looking content index (some i) } := by
  have hcount : queue.count = s.queue.count := congrArg List.length hlist
  have hbuffer : queue.buffer = s.queue.buffer := by
    funext j
    rw [buffer, buffer, hlist]
  refine ⟨⟨nofun, ?_, I.unsent_nodup, I.pending, I.pending_nodup⟩, ?_, nofun, nofun, ?_⟩
  . intro p hp
    rw [hbuffer]
    exact I.unsent p hp
  . rintro content index i ⟨⟩
    rwa [hcount]
  . intro p hp
    rw [hcount]
    exact I.unsent_lt p hp

theorem Inv.fill (I : s.Inv) (hsender : s.sender = .filling content i)
    : Inv { s with
        queue := s.queue.set i ((s.queue.buffer i).write content)
        sender := .sending i
        unsent := s.unsent ++ [(i, content)] } := by
  obtain ⟨hclear, hpending, hunsent⟩ := I.returned content i hsender
  have hi := I.filling_lt content i hsender
  refine ⟨⟨nofun, ?_, ?_, ?_, I.pending_nodup⟩, nofun, nofun, ?_, ?_⟩
  . intro p hp
    rcases List.mem_append.mp hp with hp | hp
    . rw [buffer_set_of_ne (hunsent p hp).symm]
      exact I.unsent p hp
    . obtain rfl := List.mem_singleton.mp hp
      rw [buffer_set_self hi, hclear]
      exact ⟨rfl, rfl⟩
  . rw [List.map_append, List.map_singleton]
    refine List.nodup_append.mpr ⟨I.unsent_nodup, by simp, ?_⟩
    intro j hj j' hj'
    obtain ⟨p, hp, rfl⟩ := List.mem_map.mp hj
    obtain rfl := List.mem_singleton.mp hj'
    exact hunsent p hp
  . exact fun p hp => List.mem_append_left _ (I.pending p hp)
  . rintro i ⟨⟩
    exact ⟨⟨content, by simp⟩, hpending⟩
  . intro p hp
    rw [count_set]
    rcases List.mem_append.mp hp with hp | hp
    . exact I.unsent_lt p hp
    . obtain rfl := List.mem_singleton.mp hp
      exact hi

theorem mem_accept {accepted : Bool} {sending : SocketSendBuf.Sending β} {p : Nat × List β}
    (h : p ∈ accept accepted i sending)
    : ∃ bytes, sending.pending = some bytes ∧ p = (i, bytes) := by
  unfold accept at h
  split at h
  . obtain ⟨bytes, hbytes, rfl⟩ := Option.map_eq_some_iff.mp (Option.mem_toList.mp h)
    exact ⟨bytes, hbytes, rfl⟩
  . contradiction

theorem nodup_accept {accepted : Bool} {sending : SocketSendBuf.Sending β}
    : ((accept accepted i sending).map Prod.fst).Nodup := by
  unfold accept
  split
  . cases sending.pending <;> simp
  . exact List.nodup_nil

theorem nodup_append_accept {pending : List (Nat × List β)} {accepted : Bool}
    {sending : SocketSendBuf.Sending β} (hnodup : (pending.map Prod.fst).Nodup)
    (hi : ∀ p ∈ pending, p.1 ≠ i)
    : ((pending ++ accept accepted i sending).map Prod.fst).Nodup := by
  rw [List.map_append]
  refine List.nodup_append.mpr ⟨hnodup, nodup_accept, ?_⟩
  intro j hj j' hj'
  obtain ⟨p, hp, rfl⟩ := List.mem_map.mp hj
  obtain ⟨p', hp', rfl⟩ := List.mem_map.mp hj'
  obtain ⟨bytes, -, rfl⟩ := mem_accept hp'
  exact hi p hp

theorem pending_send {buf : SocketSendBuf β} {bytes : List β}
    (h : (SocketSendBuf.send ⟨buf, none, []⟩).pending = some bytes)
    : bytes = buf.m_MemoryStream := by
  unfold SocketSendBuf.send at h
  split at h
  . contradiction
  . split at h
    . contradiction
    . exact (Option.some.inj h).symm

theorem Inv.eq_of_mem_unsent (I : s.Inv) {bytes : List β} (h : (i, bytes) ∈ s.unsent)
    : bytes = (s.queue.buffer i).m_MemoryStream := (I.unsent _ h).1.symm

theorem Inv.send (I : s.Inv) (hsender : s.sender = .sending i) (accepted : Bool)
    : Inv { s with
        sender := .idle
        pending := s.pending
          ++ accept accepted i (SocketSendBuf.send ⟨s.queue.buffer i, none, []⟩) } := by
  obtain ⟨⟨bytes, hbytes⟩, hpending⟩ := I.sending i hsender
  refine ⟨⟨nofun, I.unsent, I.unsent_nodup, ?_, nodup_append_accept I.pending_nodup hpending⟩, nofun,
    nofun, nofun, I.unsent_lt⟩
  intro p hp
  rcases List.mem_append.mp hp with hp | hp
  . exact I.pending p hp
  . obtain ⟨bytes', hbytes', rfl⟩ := mem_accept hp
    rwa [pending_send hbytes', ← I.eq_of_mem_unsent hbytes]

theorem onSend_cases (buf : SocketSendBuf β) (t : Nat)
    : (SocketSendBuf.onSend ⟨buf, none, []⟩ t).sendBuff.m_MemoryStream = buf.m_MemoryStream
        ∧ ((SocketSendBuf.onSend ⟨buf, none, []⟩ t).sendBuff.m_bEmptyFlag = true
            ∧ (SocketSendBuf.onSend ⟨buf, none, []⟩ t).pending = none
          ∨ (SocketSendBuf.onSend ⟨buf, none, []⟩ t).sendBuff.m_bEmptyFlag = buf.m_bEmptyFlag
            ∧ ∀ bytes, (SocketSendBuf.onSend ⟨buf, none, []⟩ t).pending = some bytes
              → bytes = buf.m_MemoryStream) := by
  obtain ⟨hstream, -, hflag⟩ := SocketSendBuf.addTransferByteNum_spec t (rfl : buf.m_MemoryStream = _)
  unfold SocketSendBuf.onSend
  split
  . simp only
    split
    . exact ⟨hstream, .inl ⟨rfl, rfl⟩⟩
    . have hsend (buf : SocketSendBuf β)
          : (SocketSendBuf.send ⟨buf, none, []⟩).sendBuff = buf := by
        unfold SocketSendBuf.send
        split
        . rfl
        . split <;> rfl
      rw [hsend]
      exact ⟨hstream, .inr ⟨hflag, fun bytes h => (pending_send h).trans hstream⟩⟩
  . exact ⟨rfl, .inr ⟨rfl, nofun⟩⟩

theorem Inv.ne_of_mem_eraseIdx (I : s.Inv) {k : Nat} {bytes : List β}
    (hk : s.pending[k]? = some (i, bytes)) {p : Nat × List β} (hp : p ∈ s.pending.eraseIdx k)
    : p.1 ≠ i := by
  rintro rfl
  obtain ⟨j, hj, hpj⟩ := List.mem_eraseIdx_iff_getElem?.mp hp
  have hlt : k < (s.pending.map Prod.fst).length := by
    rw [List.length_map]
    exact (List.getElem?_eq_some_iff.mp hk).1
  refine hj ((List.getElem?_inj hlt I.pending_nodup).mp ?_).symm
  rw [List.getElem?_map, List.getElem?_map, hk, hpj]
  rfl

theorem Inv.nodup_eraseIdx (I : s.Inv) (k : Nat)
    : ((s.pending.eraseIdx k).map Prod.fst).Nodup :=
  I.pending_nodup.sublist ((List.eraseIdx_sublist _ _).map _)

theorem Inv.filling_ne (I : s.Inv) {p : Nat × List β} (hp : p ∈ s.pending)
    (hsender : s.sender = .filling content i)
    : p.1 ≠ i := (I.returned content i hsender).2.1 p hp

theorem Inv.finish (I : s.Inv) {k : Nat} {bytes : List β} (hk : s.pending[k]? = some (i, bytes))
    (b : SocketSendBuf β)
    : Inv { s with
        queue := s.queue.set i b
        pending := s.pending.eraseIdx k
        unsent := s.unsent.filter (·.1 ≠ i) } := by
  have hmem : (i, bytes) ∈ s.pending := List.mem_of_getElem? hk
  have hunsent {p : Nat × List β} (hp : p ∈ s.unsent.filter (·.1 ≠ i)) : p ∈ s.unsent ∧ p.1 ≠ i := by
    simpa using hp
  refine ⟨⟨?_, ?_, I.unsent_nodup.sublist (List.filter_sublist.map _), ?_, I.nodup_eraseIdx k⟩, ?_, ?_,
    ?_, ?_⟩
  . intro content j hsender
    obtain ⟨hclear, hnot, hnot'⟩ := I.returned content j hsender
    refine ⟨?_, fun p hp => hnot p (List.mem_of_mem_eraseIdx hp), fun p hp => hnot' p (hunsent hp).1⟩
    exact (buffer_set_of_ne (I.filling_ne hmem hsender)).trans hclear
  . intro p hp
    rw [buffer_set_of_ne (hunsent hp).2.symm]
    exact I.unsent p (hunsent hp).1
  . intro p hp
    simpa using ⟨I.pending p (List.mem_of_mem_eraseIdx hp), I.ne_of_mem_eraseIdx hk hp⟩
  . simpa using I.last_lt
  . simpa using I.filling_lt
  . intro j hsender
    obtain ⟨⟨bytes', hbytes'⟩, hnot⟩ := I.sending j hsender
    refine ⟨⟨bytes', ?_⟩, fun p hp => hnot p (List.mem_of_mem_eraseIdx hp)⟩
    simpa using ⟨hbytes', (hnot _ hmem).symm⟩
  . intro p hp
    rw [count_set]
    exact I.unsent_lt p (hunsent hp).1

theorem Inv.sendAgain (I : s.Inv) {k : Nat} {bytes : List β} (hk : s.pending[k]? = some (i, bytes))
    (hstream : b.m_MemoryStream = (s.queue.buffer i).m_MemoryStream) (hbusy : b.m_bEmptyFlag = false)
    {accepted : Bool} {sending : SocketSendBuf.Sending β}
    (hsending : ∀ bytes', sending.pending = some bytes' → bytes' = bytes)
    : Inv { s with
        queue := s.queue.set i b
        pending := s.pending.eraseIdx k ++ accept accepted i sending } := by
  have hmem : (i, bytes) ∈ s.pending := List.mem_of_getElem? hk
  have hmem_of {p : Nat × List β} (hp : p ∈ s.pending.eraseIdx k ++ accept accepted i sending)
      : p ∈ s.pending := by
    rcases List.mem_append.mp hp with hp | hp
    . exact List.mem_of_mem_eraseIdx hp
    . obtain ⟨bytes', hbytes', rfl⟩ := mem_accept hp
      rwa [hsending bytes' hbytes']
  refine ⟨⟨?_, ?_, I.unsent_nodup, fun p hp => I.pending p (hmem_of hp), ?_⟩, ?_, ?_, ?_, ?_⟩
  . intro content j hsender
    obtain ⟨hclear, hnot, hnot'⟩ := I.returned content j hsender
    refine ⟨?_, fun p hp => hnot p (hmem_of hp), hnot'⟩
    exact (buffer_set_of_ne (I.filling_ne hmem hsender)).trans hclear
  . intro p hp
    by_cases hpi : p.1 = i
    . rw [hpi, buffer_set_self (I.unsent_lt _ (I.pending _ hmem)), hstream, hbusy, ← hpi]
      exact ⟨(I.unsent p hp).1, rfl⟩
    . rw [buffer_set_of_ne (Ne.symm hpi)]
      exact I.unsent p hp
  . exact nodup_append_accept (I.nodup_eraseIdx k) fun p hp => I.ne_of_mem_eraseIdx hk hp
  . simpa using I.last_lt
  . simpa using I.filling_lt
  . intro j hsender
    obtain ⟨hbytes', hnot⟩ := I.sending j hsender
    exact ⟨hbytes', fun p hp => hnot p (hmem_of hp)⟩
  . intro p hp
    rw [count_set]
    exact I.unsent_lt p hp

theorem Inv.onSend (I : s.Inv) {k t : Nat} {bytes : List β} (hk : s.pending[k]? = some (i, bytes))
    (accepted : Bool)
    : Inv { s with
        queue := s.queue.set i (SocketSendBuf.onSend ⟨s.queue.buffer i, none, []⟩ t).sendBuff
        pending := s.pending.eraseIdx k
          ++ accept accepted i (SocketSendBuf.onSend ⟨s.queue.buffer i, none, []⟩ t)
        unsent := if (SocketSendBuf.onSend ⟨s.queue.buffer i, none, []⟩ t).sendBuff.m_bEmptyFlag then
          s.unsent.filter (·.1 ≠ i) else s.unsent } := by
  have hmem : (i, bytes) ∈ s.unsent := I.pending _ (List.mem_of_getElem? hk)
  obtain ⟨hstream, ⟨hempty, hpending⟩ | ⟨hflag, hpending⟩⟩ := onSend_cases (s.queue.buffer i) t
  . have haccept : accept accepted i (SocketSendBuf.onSend ⟨s.queue.buffer i, none, []⟩ t) = [] := by
      simp [accept, hpending]
    rw [haccept, List.append_nil, if_pos hempty]
    exact I.finish hk _
  . rw [(I.unsent _ hmem).2] at hflag
    rw [if_neg (by simp [hflag])]
    refine I.sendAgain hk hstream hflag fun bytes' h => ?_
    rw [hpending bytes' h, ← I.eq_of_mem_unsent hmem]

theorem Inv.step (I : s.Inv) (hok : s.FindsEmpty a) (h : s.step a = some s') : s'.Inv := by
  cases a with
  | sendToSocketBuf content =>
    simp only [Socket.step] at h
    split at h
    . split at h
      . contradiction
      . obtain rfl := Option.some.inj h
        exact ⟨⟨nofun, I.unsent, I.unsent_nodup, I.pending, I.pending_nodup⟩, nofun, nofun, nofun,
          I.unsent_lt⟩
    . contradiction
  | lookForEmpty =>
    simp only [Socket.step] at h
    split at h
    . split at h
      . next hindex =>
        rcases lookForEmpty_cases (Nat.zero_lt_of_lt hindex)
          with ⟨queue, i, hlook, R⟩ | ⟨queue, i, hlook, hi, hlist⟩
        . rw [hlook] at h
          obtain rfl := Option.some.inj h
          exact I.getBuf R
        . rw [hlook] at h
          obtain rfl := Option.some.inj h
          exact I.lookOn hi hlist
      . contradiction
    . contradiction
  | newSendBuffer =>
    simp only [Socket.step] at h
    split at h
    . next content index last hsender =>
      split at h
      . contradiction
      . simp only [FindsEmpty, findsEmpty, hsender] at hok
        obtain ⟨queue, hnew, -, R⟩ := newSendBuffer_grows hok
        rw [hnew] at h
        obtain rfl := Option.some.inj h
        exact I.getBuf R
    . contradiction
  | fill =>
    simp only [Socket.step] at h
    split at h
    . next hsender =>
      obtain rfl := Option.some.inj h
      exact I.fill hsender
    . contradiction
  | send accepted =>
    simp only [Socket.step] at h
    split at h
    . next hsender =>
      obtain rfl := Option.some.inj h
      exact I.send hsender accepted
    . contradiction
  | onSend k bytesTransferred accepted =>
    simp only [Socket.step] at h
    split at h
    . next hk =>
      split at h
      . obtain rfl := Option.some.inj h
        exact I.onSend hk accepted
      . contradiction
    . contradiction

theorem count_newSendBuffer (hok : s.FindsEmpty .newSendBuffer) (h : s.step .newSendBuffer = some s')
    : s'.queue.count = s.queue.count + 1 := by
  simp only [Socket.step] at h
  split at h
  . next content index last hsender =>
    split at h
    . contradiction
    . simp only [FindsEmpty, findsEmpty, hsender] at hok
      obtain ⟨queue, hnew, hcount, -⟩ := newSendBuffer_grows hok
      rw [hnew] at h
      obtain rfl := Option.some.inj h
      exact hcount
  . contradiction

/--
As long as no search for a buffer ends with one that is not empty, no bytes that are to be sent are
overwritten, and the list grows when no buffer is found.
-/
theorem safe_of_run {iQueueSize : Int} {as : List (Action β)}
    (hrun : Run (stepOf step) FindsEmpty (start iQueueSize) as s)
    : s.Safe ∧ ∀ s', s.FindsEmpty .newSendBuffer → s.step .newSendBuffer = some s'
        → s'.queue.count = s.queue.count + 1 := by
  have I := hrun.invariant Inv (inv_start iQueueSize) fun _ _ _ I hok hstep => I.step hok hstep
  exact ⟨I.toSafe, fun s' hok h => count_newSendBuffer hok h⟩

def growing : List (Action UInt8) :=
  [.sendToSocketBuf [1, 2, 3], .lookForEmpty, .fill, .send true, .sendToSocketBuf [4, 5],
    .lookForEmpty, .onSend 0 3 true, .newSendBuffer, .fill, .send true]

theorem safe_of_run_growing
    : ∃ s, Run (stepOf step) FindsEmpty (start 1) growing s ∧ s.pending = [(1, [4, 5])] ∧ s.Safe := by
  obtain ⟨s, hrun, hpending⟩ : ∃ s, Run (stepOf step) FindsEmpty (start 1) growing s
      ∧ s.pending = [(1, [4, 5])] := Run.exists_of_guarded (by decide)
  exact ⟨s, hrun, hpending, (safe_of_run hrun).1⟩

def backPressure : List (Action UInt8) :=
  [.sendToSocketBuf [1, 2, 3], .lookForEmpty, .fill, .send true, .sendToSocketBuf [4, 5],
    .lookForEmpty, .newSendBuffer, .fill]

theorem safe_counterexample
    : ∃ s, Run (stepOf step) anyLabel (start 1) backPressure s ∧ s.pending = [(0, [1, 2, 3])]
        ∧ (s.queue.buffer 0).m_MemoryStream = [4, 5] ∧ s.queue.count = 1 ∧ ¬ s.Safe := by
  obtain ⟨s, hrun, hpending, hstream, hcount⟩ : ∃ s, Run (stepOf step) anyLabel (start 1) backPressure s
      ∧ s.pending = [(0, [1, 2, 3])] ∧ (s.queue.buffer 0).m_MemoryStream = [4, 5]
      ∧ s.queue.count = 1 := Run.exists_of_foldlM (by decide)
  refine ⟨s, hrun, hpending, hstream, hcount, fun S => ?_⟩
  have hmem := S.pending (0, [1, 2, 3]) (hpending ▸ List.mem_singleton_self _)
  have hlost := (S.unsent _ hmem).1
  rw [hstream] at hlost
  contradiction

end Socket

end SendBufferQueue

end WzGame
