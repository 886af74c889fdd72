import Mathlib.Data.List.Basic
import WzGame.Util.CircularIndex
import WzGame.Util.Runs

/-!
This module contains the bounded queue that threads wait at: a ring that producers put elements into and
consumers take them out of, under two semaphores.
-/

namespace WzGame

open CircularIndex Runs

-- elements may be `null`
structure InnerQueue (E : Type) where
  itemList : List (Option E)
  maxSize : Nat
  size : Nat
  beginPos : Nat
  endPos : Nat

namespace InnerQueue

variable {E : Type}

def init (maxSize : Nat) : Option (InnerQueue E) :=
  if 0 = maxSize then none else some ⟨.replicate maxSize none, maxSize, 0, 0, 0⟩

def front (q : InnerQueue E) : Option E :=
  if 0 = q.size then none else q.itemList.getD q.beginPos none

def push (q : InnerQueue E) (node : Option E) : InnerQueue E × Bool :=
  if q.maxSize ≤ q.size then
    (q, false)
  else
    ({ q with
      itemList := q.itemList.set q.endPos node
      endPos := wrap q.maxSize (q.endPos + 1)
      size := q.size + 1 }, true)

def pop (q : InnerQueue E) : InnerQueue E × Bool :=
  if 0 = q.size then
    (q, false)
  else
    ({ q with
      itemList := q.itemList.set q.beginPos none
      beginPos := wrap q.maxSize (q.beginPos + 1)
      size := q.size - 1 }, true)

structure Holds (q : InnerQueue E) (contents : List (Option E)) : Prop where
  length_itemList : q.itemList.length = q.maxSize
  size_eq : q.size = contents.length
  size_le : q.size ≤ q.maxSize
  beginPos_lt : q.beginPos < q.maxSize
  endPos_eq : q.endPos = slot q.maxSize q.beginPos q.size
  items : ∀ (j : Nat) (h : j < contents.length),
    q.itemList[slot q.maxSize q.beginPos j]? = some contents[j]

variable {q : InnerQueue E} {maxSize : Nat} {contents : List (Option E)} {node : Option E}

theorem init_spec (h : init maxSize = some q) : q.maxSize = maxSize ∧ q.Holds [] := by
  unfold init at h
  split at h
  . contradiction
  . next hpos =>
    obtain rfl := Option.some.inj h
    refine ⟨rfl, by simp, rfl, Nat.zero_le _, by simp only; omega, ?_, nofun⟩
    rw [slot_zero (by simp only; omega)]

theorem Holds.front (H : q.Holds (node :: contents)) : q.front = node := by
  have hitem := H.items 0 (by simp)
  rw [slot_zero H.beginPos_lt] at hitem
  have hsize := H.size_eq
  rw [List.length_cons] at hsize
  rw [InnerQueue.front, if_neg (by omega), List.getD_eq_getElem?_getD, hitem]
  rfl

theorem Holds.push (H : q.Holds contents) (hlt : contents.length < q.maxSize) (node : Option E)
    : ∃ q', q.push node = (q', true) ∧ q'.maxSize = q.maxSize ∧ q'.Holds (contents ++ [node]) := by
  have hsize := H.size_eq
  have hpos : 0 < q.maxSize := Nat.zero_lt_of_lt H.beginPos_lt
  rw [InnerQueue.push, if_neg (by omega)]
  refine ⟨_, rfl, rfl, ?_, ?_, ?_, H.beginPos_lt, ?_, ?_⟩
  . rw [List.length_set, H.length_itemList]
  . simp only [List.length_append, List.length_singleton, hsize]
  . simp only
    omega
  . simp only [H.endPos_eq]
    exact wrap_slot_succ hpos
  . intro j hj
    simp only [H.endPos_eq, hsize]
    rw [List.length_append, List.length_singleton] at hj
    by_cases hlast : j = contents.length
    . subst hlast
      have hend : slot q.maxSize q.beginPos contents.length < q.itemList.length := by
        rw [H.length_itemList]
        exact slot_lt hpos
      rw [List.getElem?_set_self hend, List.getElem_concat_length rfl]
    . have hold : j < contents.length := by omega
      rw [List.getElem?_set_ne (slot_ne hlt (by omega) (Ne.symm hlast)), H.items j hold,
        List.getElem_append_left hold]

theorem Holds.pop (H : q.Holds (node :: contents))
    : ∃ q', q.pop = (q', true) ∧ q'.maxSize = q.maxSize ∧ q'.Holds contents := by
  have hsize := H.size_eq
  have hle := H.size_le
  have hpos : 0 < q.maxSize := Nat.zero_lt_of_lt H.beginPos_lt
  rw [List.length_cons] at hsize
  have hbegin : wrap q.maxSize (q.beginPos + 1) = slot q.maxSize q.beginPos 1 := by
    rw [← slot_zero H.beginPos_lt, wrap_slot_succ hpos, slot_zero H.beginPos_lt]
  rw [InnerQueue.pop, if_neg (by omega), hbegin]
  refine ⟨_, rfl, rfl, ?_, ?_, ?_, slot_lt hpos, ?_, ?_⟩
  . rw [List.length_set, H.length_itemList]
  . simp only [hsize, Nat.add_sub_cancel]
  . simp only
    omega
  . simp only
    rw [H.endPos_eq, slot_slot, hsize, Nat.add_sub_cancel, Nat.add_comm]
  . intro j hj
    have hne : q.beginPos ≠ slot q.maxSize q.beginPos (1 + j) := by
      have hslots : slot q.maxSize q.beginPos 0 ≠ slot q.maxSize q.beginPos (1 + j) :=
        slot_ne hpos (by omega) (by omega)
      rwa [slot_zero H.beginPos_lt] at hslots
    have hitem := H.items (1 + j) (by rw [List.length_cons]; omega)
    simp only [slot_slot]
    rw [List.getElem?_set_ne hne, hitem]
    simp [Nat.add_comm 1 j]

end InnerQueue

/--
The permits of the semaphores, the nodes of the producers that have acquired `semEmpty` and the number of
the consumers that have acquired `semExist` and are not in the synchronized section yet; and the nodes
that have been pushed and those that have been returned.
-/
structure Queue (E : Type) where
  queue : InnerQueue E
  semExist : Nat
  semEmpty : Nat
  producers : List (Option E)
  consumers : Nat
  pushed : List (Option E)
  returned : List (Option E)

namespace Queue

variable {E : Type}

inductive Action (E : Type) where
  | acquireEmpty (node : Option E)
  | push (k : Nat)
  | acquireExist
  | pop

def init (maxNodeNum : Nat) : Option (Queue E) :=
  (InnerQueue.init maxNodeNum).map fun queue => ⟨queue, 0, maxNodeNum, [], 0, [], []⟩

def step (s : Queue E) : Action E → Option (Queue E)
  | .acquireEmpty node =>
    if 0 < s.semEmpty then
      some { s with semEmpty := s.semEmpty - 1, producers := s.producers ++ [node] }
    else
      none
  | .push k =>
    match s.producers[k]? with
    | some node => some { s with
        queue := (s.queue.push node).1
        semExist := s.semExist + 1
        producers := s.producers.eraseIdx k
        pushed := s.pushed ++ [node] }
    | none => none
  | .acquireExist =>
    if 0 < s.semExist then
      some { s with semExist := s.semExist - 1, consumers := s.consumers + 1 }
    else
      none
  | .pop =>
    if 0 < s.consumers then
      some { s with
        queue := s.queue.pop.1
        semEmpty := s.semEmpty + 1
        consumers := s.consumers - 1
        returned := s.returned ++ [s.queue.front] }
    else
      none

/--
What has been pushed has been returned in this order, but for the nodes that are still in the queue, each
of which has a permit or a consumer. No `Push` or `Pop` is refused.
-/
structure Delivers (s : Queue E) (maxNodeNum : Nat) : Prop where
  pushed : ∃ contents, s.pushed = s.returned ++ contents ∧ s.queue.Holds contents
  permits : s.semExist + s.consumers = s.queue.size
  places : s.semEmpty + s.producers.length + s.queue.size = maxNodeNum
  size_le : s.queue.size ≤ maxNodeNum
  push : ∀ node ∈ s.producers, (s.queue.push node).2 = true
  pop : 0 < s.consumers → s.queue.pop.2 = true

variable {s s' : Queue E} {maxNodeNum : Nat} {contents : List (Option E)} {a : Action E}

structure Inv (s : Queue E) (maxNodeNum : Nat) (contents : List (Option E)) : Prop where
  holds : s.queue.Holds contents
  pushed : s.pushed = s.returned ++ contents
  maxSize : s.queue.maxSize = maxNodeNum
  permits : s.semExist + s.consumers = contents.length
  places : s.semEmpty + s.producers.length + contents.length = maxNodeNum

theorem inv_init (h : init maxNodeNum = some s) : s.Inv maxNodeNum [] := by
  obtain ⟨queue, hinit, rfl⟩ := Option.map_eq_some_iff.mp h
  obtain ⟨hmax, H⟩ := InnerQueue.init_spec hinit
  exact ⟨H, rfl, hmax, rfl, rfl⟩

theorem Inv.step (I : s.Inv maxNodeNum contents) (h : s.step a = some s')
    : ∃ contents', s'.Inv maxNodeNum contents' := by
  have hpermits := I.permits
  have hplaces := I.places
  cases a with
  | acquireEmpty node =>
    simp only [Queue.step] at h
    split at h
    . obtain rfl := Option.some.inj h
      refine ⟨contents, I.holds, I.pushed, I.maxSize, I.permits, ?_⟩
      simp only [List.length_append, List.length_singleton]
      omega
    . contradiction
  | push k =>
    simp only [Queue.step] at h
    split at h
    . next node hk =>
      obtain rfl := Option.some.inj h
      have hlt : k < s.producers.length := (List.getElem?_eq_some_iff.mp hk).1
      obtain ⟨queue, hpush, hmax, H⟩ := I.holds.push (by rw [I.maxSize]; omega) node
      rw [hpush]
      refine ⟨contents ++ [node], H, ?_, hmax.trans I.maxSize, ?_, ?_⟩
      . rw [I.pushed, List.append_assoc]
      . simp only [List.length_append, List.length_singleton]
        omega
      . simp only [List.length_append, List.length_singleton, List.length_eraseIdx_of_lt hlt]
        omega
    . contradiction
  | acquireExist =>
    simp only [Queue.step] at h
    split at h
    . obtain rfl := Option.some.inj h
      refine ⟨contents, I.holds, I.pushed, I.maxSize, ?_, I.places⟩
      simp only
      omega
    . contradiction
  | pop =>
    simp only [Queue.step] at h
    split at h
    . next hconsumers =>
      obtain rfl := Option.some.inj h
      cases contents with
      | nil =>
        rw [List.length_nil] at hpermits
        omega
      | cons node contents =>
        rw [List.length_cons] at hpermits hplaces
        obtain ⟨queue, hpop, hmax, H⟩ := I.holds.pop
        rw [hpop, I.holds.front]
        refine ⟨contents, H, ?_, hmax.trans I.maxSize, ?_, ?_⟩
        . rw [I.pushed, List.append_assoc]
          rfl
        . simp only
          omega
        . simp only
          omega
    . contradiction

theorem Inv.delivers (I : s.Inv maxNodeNum contents) : s.Delivers maxNodeNum where
  pushed := ⟨contents, I.pushed, I.holds⟩
  permits := I.permits.trans I.holds.size_eq.symm
  places := I.holds.size_eq ▸ I.places
  size_le := I.maxSize ▸ I.holds.size_le
  push := by
    intro node hnode
    have hplaces := I.places
    have hpos := List.length_pos_of_mem hnode
    obtain ⟨queue, hpush, -⟩ := I.holds.push (by rw [I.maxSize]; omega) node
    rw [hpush]
  pop := by
    intro hconsumers
    have hpermits := I.permits
    cases contents with
    | nil =>
      rw [List.length_nil] at hpermits
      omega
    | cons node contents =>
      obtain ⟨queue, hpop, -⟩ := I.holds.pop
      rw [hpop]

theorem delivers_of_run {q₀ : Queue E} {as : List (Action E)} (hinit : init maxNodeNum = some q₀)
    (hrun : Run (stepOf step) anyLabel q₀ as s)
    : s.Delivers maxNodeNum := by
  have hinv := hrun.invariant (fun s => ∃ contents, s.Inv maxNodeNum contents) ⟨[], inv_init hinit⟩
    fun _ _ _ ⟨_, I⟩ _ hstep => I.step hstep
  obtain ⟨contents, I⟩ := hinv
  exact I.delivers

def exchange : List (Action Nat) :=
  [.acquireEmpty (some 7), .push 0, .acquireExist, .pop, .acquireEmpty none, .push 0, .acquireExist]

theorem delivers_of_run_exchange
    : ∃ q₀ s, init 1 = some q₀ ∧ Run (stepOf step) anyLabel q₀ exchange s ∧ s.returned = [some 7]
        ∧ s.Delivers 1 := by
  obtain ⟨q₀, hinit, hvalues⟩ := Option.bind_eq_some_iff.mp (show (init 1).bind (fun q₀ =>
    (exchange.foldlM step q₀).map returned) = some [some 7] from by decide)
  obtain ⟨s, hs, hreturned⟩ := Option.map_eq_some_iff.mp hvalues
  have hrun := Run.of_foldlM hs
  exact ⟨q₀, s, hinit, hrun, hreturned, delivers_of_run hinit hrun⟩

end Queue

end WzGame
