import Mathlib.Data.List.Rotate
import WzGame.Net.LogicRecvBufQueue

/-!
This module contains the order in which `GetUsedBuf` returns the buffers that are used.
-/

namespace WzGame

open CircularIndex

namespace LogicRecvBufQueue

variable {α : Type} {q q' : LogicRecvBufQueue α} {base p fuel : Nat} {c : α}

structure Looking (base p : Nat) (q : LogicRecvBufQueue α) : Prop where
  size : base < q.count
  cursor : q.m_iUsedPos ≤ q.count ∧ wrap q.count q.m_iUsedPos = slot q.count base p
  unused : ∀ j < p, (q.buffer (slot q.count base j)).m_bUsedFlag = false

theorem looking_start (hsize : 0 < q.count) (hcursor : q.m_iUsedPos ≤ q.count)
    : Looking (wrap q.count q.m_iUsedPos) 0 q := by
  exact ⟨wrap_lt hsize, ⟨hcursor, (slot_zero (wrap_lt hsize)).symm⟩, nofun⟩

theorem Looking.usedLoop (L : Looking base p q) (hfuel : p + fuel = q.count)
    : (∃ u, LogicRecvBufQueue.usedLoop fuel q = ({ q with m_iUsedPos := u }, none) ∧ u ≤ q.count
        ∧ wrap q.count u = base
        ∧ ∀ j < q.count, (q.buffer (slot q.count base j)).m_bUsedFlag = false)
      ∨ ∃ p < q.count, LogicRecvBufQueue.usedLoop fuel q
          = ({ q with m_iUsedPos := slot q.count base (p + 1) }, some (slot q.count base p))
        ∧ (q.buffer (slot q.count base p)).m_bUsedFlag = true
        ∧ ∀ j < p, (q.buffer (slot q.count base j)).m_bUsedFlag = false := by
  have hsize := L.size
  have hpos : 0 < q.count := by omega
  induction fuel generalizing q p with
  | zero =>
    obtain rfl : p = q.count := by omega
    refine .inl ⟨q.m_iUsedPos, rfl, L.cursor.1, ?_, L.unused⟩
    rw [L.cursor.2, slot_size hsize]
  | succ fuel ih =>
    rw [LogicRecvBufQueue.usedLoop, lookForUsed, L.cursor.2]
    cases hflag : (q.buffer (slot q.count base p)).m_bUsedFlag with
    | true =>
      refine .inr ⟨p, by omega, ?_, hflag, L.unused⟩
      simp [wrap_slot_succ hpos]
    | false =>
      have hlt : slot q.count base p < q.count := slot_lt hpos
      have L' : Looking base (p + 1) { q with m_iUsedPos := slot q.count base p + 1 } := by
        refine ⟨hsize, ⟨?_, wrap_slot_succ hpos⟩, fun j hj => ?_⟩
        . show slot q.count base p + 1 ≤ q.count
          omega
        . rcases Nat.eq_or_lt_of_le (Nat.le_of_lt_succ hj) with rfl | hlt'
          . exact hflag
          . exact L.unused j hlt'
      have hfuel' : p + 1 + fuel = q.count := by omega
      simp only [Bool.false_eq_true, if_false]
      exact ih L' hfuel' hsize hpos

theorem waitingAt_of_unused {i : Nat} (h : (q.buffer i).m_bUsedFlag = false) : q.waitingAt i = none := by
  rw [waitingAt, h]
  rfl

theorem contents_eq_nil {base : Nat} (hbase : wrap q.count q.m_iUsedPos = base)
    (hunused : ∀ j < q.count, (q.buffer (slot q.count base j)).m_bUsedFlag = false)
    : q.contents = [] := by
  rw [contents, hbase, List.filterMap_eq_nil_iff]
  intro j hj
  exact waitingAt_of_unused (hunused j (List.mem_range.mp hj))

theorem range_split {n : Nat} (hp : p < n)
    : List.range n = List.range p ++ p :: (List.range (n - p - 1)).map (p + 1 + ·) := by
  have hsum : n = p + 1 + (n - p - 1) := by omega
  conv_lhs => rw [hsum, List.range_add, List.range_succ, List.append_assoc, List.singleton_append]

theorem contents_take (hsize : base < q.count) (hbase : wrap q.count q.m_iUsedPos = base)
    (hp : p < q.count) (hused : q.buffer (slot q.count base p) = ⟨true, some c⟩)
    (hunused : ∀ j < p, (q.buffer (slot q.count base j)).m_bUsedFlag = false) (content : Option α)
    : q.contents = c :: (({ q with m_iUsedPos := slot q.count base (p + 1) } : LogicRecvBufQueue α).set
        (slot q.count base p) ⟨false, content⟩).contents := by
  have hpos : 0 < q.count := by omega
  have hlt : slot q.count base (p + 1) < q.count := slot_lt hpos
  have hwrap : wrap q.count (slot q.count base (p + 1)) = slot q.count base (p + 1) :=
    wrap_of_lt hlt
  have hrange := range_split hp
  have hrange' : List.range q.count
      = List.range (q.count - p - 1) ++ (List.range (p + 1)).map (q.count - p - 1 + ·) := by
    rw [← List.range_add]
    congr 1
    omega
  generalize hq' : ({ q with m_iUsedPos := slot q.count base (p + 1) } : LogicRecvBufQueue α).set
    (slot q.count base p) ⟨false, content⟩ = q'
  have hcount' : q'.count = q.count := by
    rw [← hq', count_set]
    rfl
  have husedPos' : q'.m_iUsedPos = slot q.count base (p + 1) := by
    rw [← hq']
    rfl
  have hreleased : (q'.buffer (slot q.count base p)).m_bUsedFlag = false := by
    rw [← hq', buffer_set_self (by exact slot_lt hpos)]
  have hother {j : Nat} (hj : j < q.count) (hne : p ≠ j)
      : q'.buffer (slot q.count base j) = q.buffer (slot q.count base j) := by
    rw [← hq']
    exact buffer_set_of_ne (slot_ne hp hj hne)
  have hfront : (List.range p).filterMap (fun j => q.waitingAt (slot q.count base j)) = [] := by
    rw [List.filterMap_eq_nil_iff]
    exact fun j hj => waitingAt_of_unused (hunused j (List.mem_range.mp hj))
  have hfirst : q.waitingAt (slot q.count base p) = some c := by
    rw [waitingAt, hused]
    rfl
  have hback : ((List.range (p + 1)).map (q.count - p - 1 + ·)).filterMap
      (fun j => q'.waitingAt (slot q.count base (p + 1 + j))) = [] := by
    rw [List.filterMap_map, List.filterMap_eq_nil_iff]
    intro j hj
    have hlt' := List.mem_range.mp hj
    have hsum : p + 1 + (q.count - p - 1 + j) = j + q.count := by omega
    show q'.waitingAt (slot q.count base (p + 1 + (q.count - p - 1 + j))) = none
    rw [hsum, slot_add_size]
    apply waitingAt_of_unused
    rcases Nat.eq_or_lt_of_le (Nat.le_of_lt_succ hlt') with rfl | hlt''
    . exact hreleased
    . rw [hother (by omega) (by omega)]
      exact hunused j hlt''
  have hmiddle : ((List.range (q.count - p - 1)).map (p + 1 + ·)).filterMap
      (fun j => q.waitingAt (slot q.count base j))
        = (List.range (q.count - p - 1)).filterMap
          (fun j => q'.waitingAt (slot q.count base (p + 1 + j))) := by
    rw [List.filterMap_map]
    apply List.filterMap_congr
    intro j hj
    have hlt' := List.mem_range.mp hj
    show q.waitingAt (slot q.count base (p + 1 + j)) = _
    rw [waitingAt, waitingAt, hother (by omega) (by omega)]
  have hcons : (p :: (List.range (q.count - p - 1)).map (p + 1 + ·)).filterMap
      (fun j => q.waitingAt (slot q.count base j))
        = c :: (List.range (q.count - p - 1)).filterMap
          (fun j => q'.waitingAt (slot q.count base (p + 1 + j))) := by
    rw [← hmiddle]
    exact List.filterMap_cons_some hfirst
  have hcontents' : q'.contents = (List.range (q.count - p - 1)).filterMap
      (fun j => q'.waitingAt (slot q.count base (p + 1 + j))) := by
    rw [contents, hcount', husedPos', hwrap]
    simp only [slot_slot]
    rw [hrange', List.filterMap_append, hback, List.append_nil]
  rw [hcontents', contents, hbase, hrange, List.filterMap_append, hfront, List.nil_append, hcons]

structure WellFormed (q : LogicRecvBufQueue α) : Prop where
  size : 0 < q.count
  cursor : q.m_iUsedPos ≤ q.count
  content : ∀ i < q.count, (q.buffer i).m_bUsedFlag = true → (q.buffer i).content.isSome

theorem wellFormed_create {iQueueSize : Nat} (h : 0 < iQueueSize)
    : WellFormed (create iQueueSize : LogicRecvBufQueue α) where
  size := Nat.lt_of_lt_of_eq h List.length_replicate.symm
  cursor := Nat.zero_le _
  content := by
    intro i _ hused
    rw [buffer_create] at hused
    contradiction

theorem WellFormed.moveCursor (W : WellFormed q) {m_iUsedPos : Nat} (h : m_iUsedPos ≤ q.count)
    : WellFormed { q with m_iUsedPos } := ⟨W.size, h, W.content⟩

theorem WellFormed.getUsedBuf (W : WellFormed q)
    : (∃ u, q.getUsedBuf = ({ q with m_iUsedPos := u }, none) ∧ u ≤ q.count ∧ q.contents = []
        ∧ ({ q with m_iUsedPos := u } : LogicRecvBufQueue α).contents = [])
      ∨ ∃ i u c, i < q.count ∧ q.getUsedBuf = ({ q with m_iUsedPos := u }, some i) ∧ u ≤ q.count
        ∧ q.buffer i = ⟨true, some c⟩
        ∧ ∀ content, q.contents = c :: (({ q with m_iUsedPos := u } : LogicRecvBufQueue α).set i
          ⟨false, content⟩).contents := by
  have L := looking_start W.size W.cursor
  rcases L.usedLoop (Nat.zero_add _) with ⟨u, hloop, hu, hbase, hunused⟩
    | ⟨p, hp, hloop, hused, hunused⟩
  . exact .inl ⟨u, hloop, hu, contents_eq_nil rfl hunused, contents_eq_nil hbase hunused⟩
  . have hlt : slot q.count (wrap q.count q.m_iUsedPos) p < q.count := slot_lt W.size
    have hlt' : slot q.count (wrap q.count q.m_iUsedPos) (p + 1) < q.count := slot_lt W.size
    obtain ⟨c, hc⟩ := Option.isSome_iff_exists.mp (W.content _ hlt hused)
    have hbuffer : q.buffer (slot q.count (wrap q.count q.m_iUsedPos) p) = ⟨true, some c⟩ := by
      rw [← hused, ← hc]
    exact .inr ⟨_, _, c, hlt, hloop, hlt'.le, hbuffer,
      contents_take L.size rfl hp hbuffer hunused⟩

theorem contents_eq (W : WellFormed q)
    : q.contents = (q.m_RecvList.drop q.m_iUsedPos ++ q.m_RecvList.take q.m_iUsedPos).filterMap
        fun buffer => if buffer.m_bUsedFlag then buffer.content else none := by
  have hcursor : q.m_iUsedPos ≤ q.m_RecvList.length := W.cursor
  have hmap : (List.range q.count).map (fun j => q.buffer (slot q.count
      (wrap q.count q.m_iUsedPos) j)) = q.m_RecvList.rotate q.m_iUsedPos := by
    apply List.ext_getElem
    . rw [List.length_map, List.length_range, List.length_rotate]
      rfl
    . intro k hk hk'
      have hlt : slot q.count (wrap q.count q.m_iUsedPos) k < q.m_RecvList.length := slot_lt W.size
      rw [List.getElem_map, List.getElem_range, List.getElem_rotate, buffer,
        List.getD_eq_getElem?_getD, List.getElem?_eq_getElem hlt, Option.getD_some]
      congr 1
      rw [slot, wrap_eq_mod W.cursor W.size, Nat.mod_add_mod, Nat.add_comm]
      rfl
  rw [← List.rotate_eq_drop_append_take hcursor, ← hmap, List.filterMap_map]
  rfl

theorem WellFormed.setClear (W : WellFormed q) {i : Nat} (h : (q.buffer i).m_bUsedFlag = false)
    (m_iEmptyPos : Nat)
    : WellFormed { q.set i .clear with m_iEmptyPos }
        ∧ ({ q.set i .clear with m_iEmptyPos } : LogicRecvBufQueue α).contents = q.contents := by
  have hsame (j : Nat) : (q.set i .clear).buffer j = q.buffer j
      ∨ j = i ∧ (q.set i .clear).buffer j = .clear := by
    by_cases hij : i = j
    . subst hij
      by_cases hlt : i < q.count
      . exact .inr ⟨rfl, buffer_set_self hlt⟩
      . have hset : q.set i .clear = q := by
          rw [set, List.set_eq_of_length_le (Nat.not_lt.mp hlt)]
        rw [hset]
        exact .inl rfl
    . exact .inl (buffer_set_of_ne hij)
  have hwaiting (j : Nat) : (q.set i .clear).waitingAt j = q.waitingAt j := by
    rcases hsame j with heq | ⟨rfl, hclear⟩
    . rw [waitingAt, waitingAt, heq]
    . rw [waitingAt_of_unused h, waitingAt, hclear]
      rfl
  have hcount : (q.set i .clear).count = q.count := count_set
  constructor
  . refine ⟨hcount.symm ▸ W.size, hcount.symm ▸ W.cursor, fun j hj hused => ?_⟩
    have hused' : ((q.set i .clear).buffer j).m_bUsedFlag = true := hused
    show ((q.set i .clear).buffer j).content.isSome
    rcases hsame j with heq | ⟨rfl, hclear⟩
    . rw [heq] at hused' ⊢
      exact W.content j (hcount ▸ hj) hused'
    . rw [hclear] at hused'
      contradiction
  . show (List.range (q.set i .clear).count).filterMap (fun j => (q.set i .clear).waitingAt
      (slot (q.set i .clear).count (wrap (q.set i .clear).count q.m_iUsedPos) j)) = _
    simp only [hcount, hwaiting]
    rfl

theorem WellFormed.append (W : WellFormed q) (m_iEmptyPos : Nat)
    : WellFormed { q with m_RecvList := q.m_RecvList ++ [.clear], m_iEmptyPos }
        ∧ ({ q with m_RecvList := q.m_RecvList ++ [.clear], m_iEmptyPos }
          : LogicRecvBufQueue α).contents = q.contents := by
  have hcursor : q.m_iUsedPos ≤ q.m_RecvList.length := W.cursor
  have hcount : (q.m_RecvList ++ [LogicRecvBuffer.clear]).length = q.count + 1 := by
    rw [List.length_append]
    rfl
  have W' : WellFormed { q with m_RecvList := q.m_RecvList ++ [.clear], m_iEmptyPos } := by
    refine ⟨?_, ?_, fun j hj hused => ?_⟩
    . show 0 < (q.m_RecvList ++ [_]).length
      omega
    . show q.m_iUsedPos ≤ (q.m_RecvList ++ [_]).length
      have hle := W.cursor
      omega
    . have hj' : j < (q.m_RecvList ++ [LogicRecvBuffer.clear]).length := hj
      rw [hcount] at hj'
      rcases Nat.eq_or_lt_of_le (Nat.le_of_lt_succ hj') with rfl | hlt
      . rw [buffer_append_count] at hused
        contradiction
      . rw [buffer_append hlt] at hused ⊢
        exact W.content j hlt hused
  refine ⟨W', ?_⟩
  rw [contents_eq W', contents_eq W]
  show ((q.m_RecvList ++ [LogicRecvBuffer.clear]).drop q.m_iUsedPos
    ++ (q.m_RecvList ++ [LogicRecvBuffer.clear]).take q.m_iUsedPos).filterMap _ = _
  rw [List.drop_append_of_le_length hcursor, List.take_append_of_le_length hcursor]
  simp [LogicRecvBuffer.clear]

theorem WellFormed.addBuf (W : WellFormed q) (last : Option Nat)
    : WellFormed (q.addBuf last).1 ∧ (q.addBuf last).1.contents = q.contents := by
  unfold LogicRecvBufQueue.addBuf
  split
  . exact W.append _
  . next hgrows =>
    cases last with
    | none => simp [grows] at hgrows
    | some i => exact W.setClear (by simpa [grows] using hgrows) _

theorem WellFormed.emptyLoop (W : WellFormed q) (fuel : Nat) (last : Option Nat)
    : WellFormed (LogicRecvBufQueue.emptyLoop fuel q last).1
        ∧ (LogicRecvBufQueue.emptyLoop fuel q last).1.contents = q.contents := by
  induction fuel generalizing q last with
  | zero => exact W.addBuf last
  | succ fuel ih =>
    rw [LogicRecvBufQueue.emptyLoop, lookForEmpty]
    cases hflag : (q.buffer (wrap q.count q.m_iEmptyPos)).m_bUsedFlag with
    | true =>
      simp only [if_true, Bool.false_eq_true, if_false]
      exact ih (q := { q with m_iEmptyPos := wrap q.count q.m_iEmptyPos + 1 })
        ⟨W.size, W.cursor, W.content⟩ _
    | false =>
      simp only [if_true, Bool.false_eq_true, if_false]
      exact W.setClear hflag _

theorem WellFormed.getEmptyBuf (W : WellFormed q)
    : WellFormed q.getEmptyBuf.1 ∧ q.getEmptyBuf.1.contents = q.contents := W.emptyLoop _ _

theorem emptyLoop_lt (hsize : 0 < q.count) {last : Option Nat}
    (hlast : ∀ i, last = some i → i < q.count)
    : (LogicRecvBufQueue.emptyLoop fuel q last).2
        < (LogicRecvBufQueue.emptyLoop fuel q last).1.count := by
  induction fuel generalizing q last with
  | zero =>
    rw [LogicRecvBufQueue.emptyLoop, LogicRecvBufQueue.addBuf]
    split
    . show q.m_RecvList.length < (q.m_RecvList ++ [_]).length
      rw [List.length_append]
      exact Nat.lt_succ_self _
    . next hgrows =>
      cases last with
      | none => simp [grows] at hgrows
      | some i => exact Nat.lt_of_lt_of_eq (hlast i rfl) count_set.symm
  | succ fuel ih =>
    rw [LogicRecvBufQueue.emptyLoop, lookForEmpty]
    cases hflag : (q.buffer (wrap q.count q.m_iEmptyPos)).m_bUsedFlag with
    | true =>
      simp only [if_true, Bool.false_eq_true, if_false]
      refine ih (q := { q with m_iEmptyPos := wrap q.count q.m_iEmptyPos + 1 }) hsize ?_
      rintro i ⟨rfl⟩
      exact wrap_lt hsize
    | false =>
      simp only [if_true, Bool.false_eq_true, if_false]
      exact Nat.lt_of_lt_of_eq (wrap_lt hsize) count_set.symm

theorem WellFormed.set (W : WellFormed q) (i : Nat) {b : LogicRecvBuffer α}
    (hb : b.m_bUsedFlag = true → b.content.isSome)
    : WellFormed (q.set i b) where
  size := Nat.lt_of_lt_of_eq W.size count_set.symm
  cursor := W.cursor.trans_eq count_set.symm
  content := by
    intro j hj hused
    rw [count_set] at hj
    by_cases hij : i = j
    . subst hij
      rw [buffer_set_self hj] at hused ⊢
      exact hb hused
    . rw [buffer_set_of_ne hij] at hused ⊢
      exact W.content j hj hused

/--
No used buffer stands between the buffer that `GetEmptyBuf` returns and the cursor of `GetUsedBuf`,
when the list is gone through from that cursor on.
-/
def FillsBehind (q : LogicRecvBufQueue α) : Prop :=
  let (q, i) := q.getEmptyBuf
  let base := wrap q.count q.m_iUsedPos
  ∀ j < q.count, slot q.count base j = i
    → ∀ j' < q.count, j ≤ j' → (q.buffer (slot q.count base j')).m_bUsedFlag = false

instance : Decidable q.FillsBehind := inferInstanceAs (Decidable (∀ _, _))

theorem contents_fill {p : Nat} (hp : p < q.count)
    (hunused : ∀ j < q.count, p ≤ j
      → (q.buffer (slot q.count (wrap q.count q.m_iUsedPos) j)).m_bUsedFlag = false)
    : (q.fill (slot q.count (wrap q.count q.m_iUsedPos) p) c).contents = q.contents ++ [c] := by
  have hpos : 0 < q.count := by omega
  generalize hbase : wrap q.count q.m_iUsedPos = base at hunused ⊢
  generalize hq' : q.fill (slot q.count base p) c = q'
  have hcount' : q'.count = q.count := hq' ▸ count_set
  have husedPos' : q'.m_iUsedPos = q.m_iUsedPos := hq' ▸ rfl
  have hself : q'.waitingAt (slot q.count base p) = some c := by
    rw [waitingAt, ← hq', LogicRecvBufQueue.fill, buffer_set_self (by exact slot_lt hpos)]
    rfl
  have hother {j : Nat} (hj : j < q.count) (hne : p ≠ j)
      : q'.waitingAt (slot q.count base j) = q.waitingAt (slot q.count base j) := by
    rw [waitingAt, waitingAt, ← hq']
    rw [LogicRecvBufQueue.fill, buffer_set_of_ne (slot_ne hp hj hne)]
  have hfront : (List.range p).filterMap (fun j => q'.waitingAt (slot q.count base j))
      = (List.range p).filterMap (fun j => q.waitingAt (slot q.count base j)) := by
    apply List.filterMap_congr
    intro j hj
    have hlt := List.mem_range.mp hj
    exact hother (by omega) (by omega)
  have hback : ∀ j ∈ (List.range (q.count - p - 1)).map (p + 1 + ·),
      q.waitingAt (slot q.count base j) = none
        ∧ q'.waitingAt (slot q.count base j) = none := by
    intro j hj
    obtain ⟨i, hi, rfl⟩ := List.mem_map.mp hj
    have hlt := List.mem_range.mp hi
    have hnone := waitingAt_of_unused (hunused (p + 1 + i) (by omega) (by omega))
    exact ⟨hnone, (hother (by omega) (by omega)).trans hnone⟩
  have hnone : q.waitingAt (slot q.count base p) = none :=
    waitingAt_of_unused (hunused p hp (Nat.le_refl p))
  rw [contents, contents, hcount', husedPos', hbase, range_split hp, List.filterMap_append,
    List.filterMap_append, hfront, List.append_assoc]
  congr 1
  rw [List.filterMap_cons, hself, List.filterMap_cons, hnone]
  simp only
  rw [List.filterMap_eq_nil_iff.mpr fun j hj => (hback j hj).1,
    List.filterMap_eq_nil_iff.mpr fun j hj => (hback j hj).2, List.nil_append]

theorem WellFormed.fill (W : WellFormed q) (h : q.FillsBehind)
    : (q.getEmptyBuf.1.fill q.getEmptyBuf.2 c).contents = q.contents ++ [c] := by
  have W' := W.getEmptyBuf.1
  have hlt : q.getEmptyBuf.2 < q.getEmptyBuf.1.count := emptyLoop_lt W.size nofun
  obtain ⟨p, hp, hslot⟩ := exists_slot (wrap_lt W'.size (i := q.getEmptyBuf.1.m_iUsedPos)) hlt
  rw [← W.getEmptyBuf.2, ← hslot]
  exact contents_fill hp fun j hj hle => h p hp hslot j hj hle

end LogicRecvBufQueue

end WzGame
