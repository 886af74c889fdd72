import WzGame.Net.LogicRecvThreads

/-!
This module contains the order of the buffers that the client receives bytes in: the list is a ring as
long as buffers are only added to it behind the last one that is filled.
-/

namespace WzGame

open CircularIndex Runs

namespace LogicRecvBufQueue

variable {α : Type}

def GameThread.index : GameThread → Nat
  | .looking index _ => index
  | _ => 0

/--
Of the `n` buffers, `k` are filled and have not been returned. They stand one behind the other from
`base` on, and behind them is the one that `GetEmptyBuf` looks at next, or that the socket is filling.
The buffer that the game is consuming is the one in front of `base`.
-/
structure Ring (base n k : Nat) (s : Threads α) : Prop where
  size : base < n
  count : s.queue.count = n
  length : s.filled.length = s.returned.length + k
  le : k ≤ n
  returned : s.returned <+: s.filled
  filled : ∀ j < k, s.queue.buffer (slot n base j) = ⟨true, s.filled[s.returned.length + j]?⟩
  free : ∀ j < n, k ≤ j → s.game ≠ .consuming (slot n base j)
    → (s.queue.buffer (slot n base j)).m_bUsedFlag = false
  usedPos : s.game.index = 0 → s.queue.m_iUsedPos ≤ n ∧ wrap n s.queue.m_iUsedPos = base
  looking : ∀ index filled, s.game = .looking index filled → 0 < index
    → index ≤ n ∧ s.queue.m_iUsedPos = slot n base (index - 1) + 1
      ∧ filled ≤ s.returned.length ∧ k ≤ 1 ∧ ∀ i, s.socket = .filling i → k = 0
  begun : ∀ index filled, s.game = .looking index filled → filled ≤ s.filled.length
  consuming : ∀ i, s.game = .consuming i
    → i = slot n base (n - 1) ∧ s.queue.buffer i = ⟨true, s.returned.getLast?⟩
      ∧ s.queue.m_iUsedPos < n ∧ k < n
  idle : s.socket = .idle → s.queue.m_iEmptyPos = slot n base k
  filling : ∀ i, s.socket = .filling i
    → k < n ∧ i = slot n base k ∧ (s.queue.buffer i).m_bUsedFlag = false
      ∧ s.queue.m_iEmptyPos = slot n base (k + 1)
  looks : ∀ index last, s.socket = .looking index last
    → s.game.looks = false ∧ index ≤ n ∧ (index = 0 → s.queue.m_iEmptyPos = slot n base k)
      ∧ (0 < index → n ≤ k + 1 ∧ last = some (slot n base (k + index - 1))
        ∧ s.queue.m_iEmptyPos = slot n base (k + index - 1) + 1)

variable {base n k : Nat} {s s' : Threads α}

theorem Ring.pos (R : Ring base n k s) : 0 < n := by
  have h := R.size
  omega

theorem Ring.slot_lt (R : Ring base n k s) (j : Nat) : slot n base j < n :=
  CircularIndex.slot_lt R.pos

theorem Ring.slot_lt_count (R : Ring base n k s) (j : Nat) : slot n base j < s.queue.count := by
  rw [R.count]
  exact R.slot_lt j

theorem Ring.fifo (R : Ring base n k s) : Fifo s where
  returned := R.returned
  waiting := by
    intro m hm hle
    have hlength := R.length
    have hbuffer := R.filled (m - s.returned.length) (by omega)
    have hsum : s.returned.length + (m - s.returned.length) = m := by omega
    rw [hsum, List.getElem?_eq_getElem hm] at hbuffer
    refine ⟨_, R.slot_lt_count _, hbuffer, fun hfilling => ?_⟩
    have hflag := (R.filling _ hfilling).2.2.1
    simp [hbuffer] at hflag
  consuming := by
    intro i hi
    obtain ⟨-, hbuffer, -, -⟩ := R.consuming i hi
    refine ⟨hbuffer, fun hfilling => ?_⟩
    have hflag := (R.filling _ hfilling).2.2.1
    simp [hbuffer] at hflag
  complete := fun index filled hlooking hpos => (R.looking index filled hlooking hpos).2.2.1

theorem ring_start {iQueueSize : Nat} (h : 0 < iQueueSize)
    : Ring 0 iQueueSize 0 (.start iQueueSize : Threads α) where
  size := h
  count := List.length_replicate
  length := rfl
  le := Nat.zero_le _
  returned := List.prefix_rfl
  filled := nofun
  free := by
    intro j _ _ _
    exact congrArg LogicRecvBuffer.m_bUsedFlag buffer_create
  usedPos := fun _ => ⟨Nat.zero_le _, if_neg (Nat.not_le.mpr h)⟩
  looking := nofun
  begun := nofun
  consuming := nofun
  idle := fun _ => (slot_zero h).symm
  filling := nofun
  looks := nofun

theorem Ring.notLooking (R : Ring base n k s) {index : Nat} {last : Option Nat}
    (hsocket : s.socket = .looking index last) (index' filled : Nat)
    : s.game ≠ .looking index' filled := by
  intro hgame
  have hfree := (R.looks index last hsocket).1
  rw [hgame] at hfree
  exact nomatch hfree

theorem Ring.getEmptyBuf (R : Ring base n k s) (h : step s .getEmptyBuf = some s')
    : Ring base n k s' := by
  simp only [step] at h
  split at h
  . next hidle =>
    obtain rfl := Option.some.inj h
    exact { R with
      looking := by
        rintro index filled (hlooking : s.game = _)
        rw [hlooking] at hidle
        exact nomatch hidle.2
      idle := nofun
      filling := nofun
      looks := by
        rintro index last ⟨rfl, rfl⟩
        exact ⟨hidle.2, Nat.zero_le _, fun _ => R.idle hidle.1, fun h => absurd h (Nat.lt_irrefl 0)⟩ }
  . contradiction

theorem Ring.getUsedBuf (R : Ring base n k s) (h : step s .getUsedBuf = some s')
    : Ring base n k s' := by
  simp only [step] at h
  split at h
  . next hidle =>
    obtain rfl := Option.some.inj h
    have hgame : s.game.index = 0 := by
      rw [hidle.1]
      rfl
    exact { R with
      free := fun j hj hle _ => R.free j hj hle (by simp [hidle.1])
      usedPos := fun _ => R.usedPos hgame
      looking := by
        rintro index filled ⟨rfl, rfl⟩ hpos
        exact absurd hpos (Nat.lt_irrefl 0)
      begun := by
        rintro index filled ⟨rfl, rfl⟩
        exact Nat.le_refl _
      consuming := nofun
      looks := by
        rintro index last (hlooks : s.socket = _)
        rw [hlooks] at hidle
        exact nomatch hidle.2 }
  . contradiction

theorem Ring.leave (R : Ring base n k s) (h : step s .leave = some s') : Ring base n k s' := by
  cases hgame : s.game with
  | idle => simp [step, hgame] at h
  | consuming i => simp [step, hgame] at h
  | looking index filled =>
    simp only [step, hgame, R.count] at h
    split at h
    . contradiction
    . next hindex =>
      obtain rfl := Option.some.inj h
      have hpos := R.pos
      obtain ⟨hle, husedPos, -⟩ := R.looking index filled hgame (by omega)
      exact { R with
        free := fun j hj hwaiting _ => R.free j hj hwaiting (by simp [hgame])
        usedPos := by
          rintro -
          have hlt := R.slot_lt (index - 1)
          have hlast : index - 1 + 1 = n := by omega
          have hwrap : wrap n s.queue.m_iUsedPos = base := by
            rw [husedPos, wrap_slot_succ hpos, hlast, slot_size R.size]
          refine ⟨?_, hwrap⟩
          show s.queue.m_iUsedPos ≤ n
          omega
        looking := nofun
        begun := nofun
        consuming := nofun
        looks := by
          rintro _ _ (hlooks : s.socket = _)
          exact absurd hgame (R.notLooking hlooks index filled) }

theorem buffer_set_slot {q : LogicRecvBufQueue α} {i j : Nat} (hi : i < n) (hj : j < n) (hne : i ≠ j)
    (b : LogicRecvBuffer α)
    : (q.set (slot n base i) b).buffer (slot n base j) = q.buffer (slot n base j) :=
  buffer_set_of_ne (slot_ne hi hj hne)

theorem Ring.release (R : Ring base n k s) (h : step s .release = some s') : Ring base n k s' := by
  cases hgame : s.game with
  | idle => simp [step, hgame] at h
  | looking index filled => simp [step, hgame] at h
  | consuming i =>
    simp only [step, hgame, Option.some.injEq] at h
    subst h
    have hpos := R.pos
    obtain ⟨rfl, hbuffer, husedPos, hlt⟩ := R.consuming i hgame
    have hused : s.game.index = 0 := by
      rw [hgame]
      rfl
    refine
      { R with
        count := count_set.trans R.count
        filled := fun j hj => ?_
        free := fun j hj hle _ => ?_
        usedPos := fun _ => R.usedPos hused
        looking := nofun
        begun := nofun
        consuming := nofun
        filling := fun i hi => ?_
        looks := fun index last hlooks => ?_ }
    . exact (buffer_set_slot (by omega) (by omega) (by omega) _).trans (R.filled j hj)
    . show ((s.queue.set _ _).buffer _).m_bUsedFlag = false
      by_cases hend : n - 1 = j
      . rw [← hend, buffer_set_self (R.slot_lt_count _)]
      . rw [buffer_set_slot (by omega) hj hend]
        apply R.free j hj hle
        rw [hgame, Ne, GameThread.consuming.injEq]
        exact slot_ne (by omega) hj hend
    . obtain ⟨hk, rfl, hflag, hempty⟩ := R.filling i hi
      have hne : n - 1 ≠ k := by
        rintro rfl
        simp [hbuffer] at hflag
      refine ⟨hk, rfl, ?_, hempty⟩
      exact (congrArg LogicRecvBuffer.m_bUsedFlag (buffer_set_slot (by omega) hk hne _)).trans hflag
    . obtain ⟨-, hlooks'⟩ := R.looks index last hlooks
      exact ⟨rfl, hlooks'⟩

theorem Ring.fill (R : Ring base n k s) {content : α} (h : step s (.fill content) = some s')
    : Ring base n (k + 1) s' := by
  cases hsocket : s.socket with
  | idle => simp [step, hsocket] at h
  | looking index last => simp [step, hsocket] at h
  | filling i =>
    simp only [step, hsocket, Option.some.injEq] at h
    subst h
    obtain ⟨hk, rfl, hflag, hempty⟩ := R.filling i hsocket
    have hlength := R.length
    have hset := R.slot_lt_count k
    have hother {j : Nat} (hj : j < n) (hne : k ≠ j)
        : (s.queue.fill (slot n base k) content).buffer (slot n base j)
          = s.queue.buffer (slot n base j) := buffer_set_slot hk hj hne _
    refine
      { R with
        count := count_set.trans R.count
        length := ?_
        le := hk
        returned := R.returned.trans (List.prefix_append _ _)
        filled := fun j hj => ?_
        free := fun j hj hle hconsuming => ?_
        looking := fun index filled hlooking hpos => ?_
        begun := fun index filled hlooking => ?_
        consuming := fun i hi => ?_
        idle := fun _ => hempty
        filling := nofun
        looks := nofun }
    . show (s.filled ++ [content]).length = s.returned.length + (k + 1)
      rw [List.length_append, List.length_singleton]
      omega
    . show (s.queue.fill _ content).buffer _ = ⟨true, (s.filled ++ [content])[s.returned.length + j]?⟩
      by_cases hlast : j = k
      . subst hlast
        rw [LogicRecvBufQueue.fill, buffer_set_self hset, ← hlength, List.getElem?_concat_length]
      . rw [hother (by omega) (by omega), R.filled j (by omega),
          List.getElem?_append_left (by omega)]
    . show ((s.queue.fill _ content).buffer _).m_bUsedFlag = false
      rw [hother hj (by omega)]
      exact R.free j hj (by omega) hconsuming
    . obtain ⟨hle, husedPos, hfilled, -, hnone⟩ := R.looking index filled hlooking hpos
      have hzero := hnone _ hsocket
      exact ⟨hle, husedPos, hfilled, by omega, nofun⟩
    . have hle := R.begun index filled hlooking
      exact hle.trans (List.prefix_append _ _).length_le
    . obtain ⟨rfl, hbuffer, husedPos, -⟩ := R.consuming i hi
      have hne : k ≠ n - 1 := by
        rintro rfl
        simp [hbuffer] at hflag
      exact ⟨rfl, (hother (by omega) hne).trans hbuffer, husedPos, by omega⟩

theorem Ring.cursor (R : Ring base n k s) {index filled : Nat} (hgame : s.game = .looking index filled)
    (hindex : index < n)
    : wrap n s.queue.m_iUsedPos = slot n base index := by
  rcases Nat.eq_zero_or_pos index with rfl | hpos
  . rw [slot_zero R.size]
    exact (R.usedPos (by rw [hgame]; rfl)).2
  . obtain ⟨-, husedPos, -⟩ := R.looking index filled hgame hpos
    have hsum : index - 1 + 1 = index := by omega
    rw [husedPos, wrap_slot_succ R.pos, hsum]

theorem Ring.take (R : Ring base n k s) {filled : Nat} (hgame : s.game = .looking 0 filled)
    (hk : 0 < k)
    : Ring (slot n base 1) n (k - 1) { s with
        queue := { s.queue with m_iUsedPos := wrap n (slot n base 0 + 1) }
        game := .consuming (slot n base 0)
        returned := s.returned ++ (s.queue.buffer (slot n base 0)).content.toList } := by
  have hpos := R.pos
  have hlength := R.length
  have hlt : s.returned.length < s.filled.length := by omega
  have hfirst := R.filled 0 hk
  rw [Nat.add_zero, List.getElem?_eq_getElem hlt] at hfirst
  have hslot (j : Nat) : slot n (slot n base 1) j = slot n base (1 + j) := slot_slot
  have hsum : 1 + (k - 1) = k := by omega
  have hround : 1 + (n - 1) = n := by omega
  have hend : slot n (slot n base 1) (n - 1) = slot n base 0 := by
    rw [hslot, hround, slot_size R.size, slot_zero R.size]
  rw [hfirst, Option.toList_some]
  refine
    { R with
      size := R.slot_lt 1
      length := ?_
      le := by have hle := R.le; omega
      returned := ?_
      filled := fun j hj => ?_
      free := fun j hj hle hconsuming => ?_
      usedPos := fun _ => ?_
      looking := nofun
      begun := nofun
      consuming := ?_
      idle := fun hidle => ?_
      filling := fun i hi => ?_
      looks := fun index last hlooks => ?_ }
  . show s.filled.length = (s.returned ++ [_]).length + (k - 1)
    rw [List.length_append, List.length_singleton]
    omega
  . show s.returned ++ [_] <+: s.filled
    have hreturned : s.returned = s.filled.take s.returned.length := List.prefix_iff_eq_take.mp R.returned
    have htake : s.returned ++ [s.filled[s.returned.length]] = s.filled.take (s.returned.length + 1) := by
      rw [List.take_add_one, ← hreturned, List.getElem?_eq_getElem hlt, Option.toList_some]
    rw [htake]
    exact List.take_prefix _ _
  . show s.queue.buffer _ = ⟨true, s.filled[(s.returned ++ [_]).length + j]?⟩
    rw [hslot, R.filled (1 + j) (by omega), List.length_append, List.length_singleton, Nat.add_assoc]
  . show (s.queue.buffer _).m_bUsedFlag = false
    rw [hslot]
    by_cases hlast : 1 + j = n
    . refine absurd ?_ hconsuming
      rw [hslot, hlast, slot_size R.size, slot_zero R.size]
    . exact R.free (1 + j) (by omega) (by omega) (by simp [hgame])
  . show wrap n (slot n base 0 + 1) ≤ n ∧ wrap n (wrap n (slot n base 0 + 1)) = slot n base 1
    have hlt' := R.slot_lt 1
    rw [wrap_slot_succ hpos, wrap_of_lt hlt']
    exact ⟨hlt'.le, rfl⟩
  . rintro i ⟨rfl⟩
    refine ⟨hend.symm, ?_, ?_, ?_⟩
    . show s.queue.buffer _ = ⟨true, (s.returned ++ [_]).getLast?⟩
      rw [hfirst, List.getLast?_concat]
    . show wrap n (slot n base 0 + 1) < n
      rw [wrap_slot_succ hpos]
      exact R.slot_lt _
    . have hle := R.le
      omega
  . rw [hslot, hsum]
    exact R.idle hidle
  . obtain ⟨hk', rfl, hflag, hempty⟩ := R.filling i hi
    have hnext : 1 + (k - 1 + 1) = k + 1 := by omega
    rw [hslot, hslot, hsum, hnext]
    exact ⟨by omega, rfl, hflag, hempty⟩
  . exact absurd hgame (R.notLooking hlooks 0 filled)

theorem Ring.lookForUsed (R : Ring base n k s) (h : step s .lookForUsed = some s')
    : ∃ base k, Ring base n k s' := by
  cases hgame : s.game with
  | idle => simp [step, hgame] at h
  | consuming i => simp [step, hgame] at h
  | looking index filled =>
    simp only [step, hgame, R.count] at h
    split at h
    . next hindex =>
      have hcursor := R.cursor hgame hindex
      simp only [LogicRecvBufQueue.lookForUsed, R.count, hcursor] at h
      have hlooks : ∀ index last, s.socket ≠ .looking index last := fun _ _ hlooks =>
        R.notLooking hlooks index filled hgame
      cases hflag : (s.queue.buffer (slot n base index)).m_bUsedFlag with
      | false =>
        simp only [hflag, Bool.false_eq_true, if_false, Option.some.injEq] at h
        subst h
        have hnone : index = 0 → k = 0 := by
          rintro rfl
          by_contra hk
          have hfirst := R.filled 0 (by omega)
          simp [hfirst] at hflag
        have hlength := R.length
        have hbegun := R.begun index filled hgame
        refine ⟨base, k, { R with
          free := fun j hj hle _ => R.free j hj hle (by simp [hgame])
          usedPos := nofun
          looking := ?_
          begun := ?_
          consuming := nofun
          looks := fun index last h => absurd h (hlooks index last) }⟩
        . rintro _ _ ⟨rfl, rfl⟩ -
          rcases Nat.eq_zero_or_pos index with hzero | hpos
          . exact ⟨hindex, rfl, by show filled ≤ s.returned.length; omega, by omega,
              fun _ _ => hnone hzero⟩
          . obtain ⟨-, -, hfilled, hk, hfilling⟩ := R.looking index filled hgame hpos
            exact ⟨hindex, rfl, hfilled, hk, hfilling⟩
        . rintro _ _ ⟨rfl, rfl⟩
          exact hbegun
      | true =>
        simp only [hflag, if_true, Option.some.injEq] at h
        subst h
        obtain rfl : index = 0 := by
          by_contra hne
          obtain ⟨-, -, -, hk, -⟩ := R.looking index filled hgame (by omega)
          have hfree := R.free index hindex (by omega) (by simp [hgame])
          simp [hflag] at hfree
        have hk : 0 < k := by
          by_contra hzero
          have hfree := R.free 0 hindex (by omega) (by simp [hgame])
          simp [hflag] at hfree
        exact ⟨slot n base 1, k - 1, R.take hgame hk⟩
    . contradiction

theorem Ring.handOut (R : Ring base n k s) {index m_iEmptyPos : Nat} {last : Option Nat}
    (hsocket : s.socket = .looking index last) (hk : k < n)
    (hflag : (s.queue.buffer (slot n base k)).m_bUsedFlag = false)
    (hempty : m_iEmptyPos = slot n base (k + 1))
    : Ring base n k { s with
        queue := { s.queue.set (slot n base k) .clear with m_iEmptyPos }
        socket := .filling (slot n base k) } := by
  have hother {j : Nat} (hj : j < n) (hne : k ≠ j)
      : (s.queue.set (slot n base k) .clear).buffer (slot n base j)
        = s.queue.buffer (slot n base j) := buffer_set_slot hk hj hne _
  have hself : (s.queue.set (slot n base k) .clear).buffer (slot n base k) = .clear :=
    buffer_set_self (R.slot_lt_count k)
  refine
    { R with
      count := count_set.trans R.count
      filled := fun j hj => (hother (by omega) (by omega)).trans (R.filled j hj)
      free := fun j hj hle hconsuming => ?_
      looking := fun index' filled hlooking => absurd hlooking (R.notLooking hsocket index' filled)
      consuming := fun i hi => ?_
      idle := nofun
      filling := ?_
      looks := nofun }
  . by_cases hlast : k = j
    . rw [← hlast]
      exact congrArg LogicRecvBuffer.m_bUsedFlag hself
    . exact (congrArg LogicRecvBuffer.m_bUsedFlag (hother hj hlast)).trans
        (R.free j hj hle hconsuming)
  . obtain ⟨rfl, hbuffer, husedPos, hlt⟩ := R.consuming i hi
    have hne : k ≠ n - 1 := by
      rintro rfl
      simp [hbuffer] at hflag
    exact ⟨rfl, (hother (by omega) hne).trans hbuffer, husedPos, hlt⟩
  . rintro i ⟨rfl⟩
    exact ⟨hk, rfl, congrArg LogicRecvBuffer.m_bUsedFlag hself, hempty⟩

theorem Ring.emptyCursor (R : Ring base n k s) {index : Nat} {last : Option Nat}
    (hsocket : s.socket = .looking index last)
    : wrap n s.queue.m_iEmptyPos = slot n base (k + index) := by
  obtain ⟨-, -, hfirst, hnext⟩ := R.looks index last hsocket
  rcases Nat.eq_zero_or_pos index with rfl | hpos
  . have hlt := R.slot_lt k
    rw [hfirst rfl, Nat.add_zero, wrap_of_lt hlt]
  . have hsum : k + index - 1 + 1 = k + index := by omega
    rw [(hnext hpos).2.2, wrap_slot_succ R.pos, hsum]

theorem Ring.le_of_used (R : Ring base n k s)
    (hflag : (s.queue.buffer (slot n base k)).m_bUsedFlag = true) : n ≤ k + 1 := by
  have hle := R.le
  by_contra hlt
  have hconsuming : s.game = .consuming (slot n base k) := by
    by_contra hne
    have hfree := R.free k (by omega) (Nat.le_refl k) hne
    simp [hflag] at hfree
  obtain ⟨hi, -⟩ := R.consuming _ hconsuming
  have heq := slot_inj (by omega) (by omega) hi
  omega

theorem Ring.used_of_pos (R : Ring base n k s) {index : Nat} {last : Option Nat}
    (hsocket : s.socket = .looking index last) (hpos : 0 < index) (hindex : index < n)
    : (s.queue.buffer (slot n base (k + index))).m_bUsedFlag = true := by
  obtain ⟨hle, -, -⟩ := (R.looks index last hsocket).2.2.2 hpos
  have hk := R.le
  have hsum : k + index = k + index - n + n := by omega
  rw [hsum, slot_add_size, R.filled _ (by omega)]

theorem Ring.lookForEmpty (R : Ring base n k s) (h : step s .lookForEmpty = some s')
    : Ring base n k s' := by
  cases hsocket : s.socket with
  | idle => simp [step, hsocket] at h
  | filling i => simp [step, hsocket] at h
  | looking index last =>
    simp only [step, hsocket, R.count] at h
    split at h
    . next hindex =>
      have hcursor := R.emptyCursor hsocket
      simp only [LogicRecvBufQueue.lookForEmpty, R.count, hcursor] at h
      cases hflag : (s.queue.buffer (slot n base (k + index))).m_bUsedFlag with
      | true =>
        simp only [hflag, if_true, Bool.false_eq_true, if_false, Option.some.injEq] at h
        subst h
        refine { R with
          looking := fun index' filled hlooking =>
            absurd hlooking (R.notLooking hsocket index' filled)
          idle := nofun
          filling := nofun
          looks := ?_ }
        rintro _ _ ⟨rfl, rfl⟩
        obtain ⟨hgame, -, -, hnext⟩ := R.looks index last hsocket
        refine ⟨hgame, hindex, nofun, fun _ => ⟨?_, rfl, rfl⟩⟩
        rcases Nat.eq_zero_or_pos index with rfl | hpos
        . exact R.le_of_used hflag
        . exact (hnext hpos).1
      | false =>
        simp only [hflag, Bool.false_eq_true, if_false, if_true, Option.some.injEq] at h
        subst h
        obtain rfl : index = 0 := by
          by_contra hne
          have hused := R.used_of_pos hsocket (by omega) hindex
          simp [hflag] at hused
        have hk : k < n := by
          have hle := R.le
          by_contra hfull
          obtain rfl : k = n := by omega
          have hfirst := R.filled 0 (by omega)
          rw [slot_zero R.size] at hfirst
          rw [Nat.add_zero, slot_size R.size] at hflag
          simp [hfirst] at hflag
        exact R.handOut hsocket hk hflag (wrap_slot_succ R.pos)
    . contradiction

theorem Ring.grow (R : Ring base n k s) {index m_iEmptyPos : Nat} {last : Option Nat}
    (hsocket : s.socket = .looking index last) (hend : base + k = n) (hk : 0 < k)
    (husedPos : s.queue.m_iUsedPos = base) (hempty : m_iEmptyPos = slot (n + 1) base (k + 1))
    : Ring base (n + 1) k { s with
        queue := { s.queue with m_RecvList := s.queue.m_RecvList ++ [.clear], m_iEmptyPos }
        socket := .filling n } := by
  have hsize := R.size
  have hcount : s.queue.m_RecvList.length = n := R.count
  have hnew : slot (n + 1) base k = n := by rw [slot_of_lt (by omega), hend]
  have hclear : (⟨s.queue.m_RecvList ++ [.clear], m_iEmptyPos, s.queue.m_iUsedPos⟩
      : LogicRecvBufQueue α).buffer n = .clear := by
    rw [← R.count]
    exact buffer_append_count
  refine
    { R with
      size := by omega
      count := ?_
      le := by omega
      filled := fun j hj => ?_
      free := fun j hj hle hconsuming => ?_
      usedPos := fun _ => ?_
      looking := fun index' filled hlooking => absurd hlooking (R.notLooking hsocket index' filled)
      consuming := fun i hi => ?_
      idle := nofun
      filling := ?_
      looks := nofun }
  . show (s.queue.m_RecvList ++ [_]).length = n + 1
    rw [List.length_append, hcount, List.length_singleton]
  . rw [slot_grow_of_lt hend hj]
    exact (buffer_append (R.slot_lt_count j)).trans (R.filled j hj)
  . rcases Nat.eq_or_lt_of_le hle with rfl | hlt
    . rw [hnew]
      exact congrArg LogicRecvBuffer.m_bUsedFlag hclear
    . rw [slot_grow hend hk hlt (by omega)] at hconsuming ⊢
      exact (congrArg LogicRecvBuffer.m_bUsedFlag (buffer_append (R.slot_lt_count _))).trans
        (R.free (j - 1) (by omega) (by omega) hconsuming)
  . show s.queue.m_iUsedPos ≤ n + 1 ∧ wrap (n + 1) s.queue.m_iUsedPos = base
    rw [husedPos]
    exact ⟨by omega, if_neg (by omega)⟩
  . obtain ⟨rfl, hbuffer, hlt, hle⟩ := R.consuming i hi
    refine ⟨?_, (buffer_append (R.slot_lt_count _)).trans hbuffer, ?_, by omega⟩
    . rw [Nat.add_sub_cancel, slot_grow hend hk hle (Nat.le_refl n)]
    . show s.queue.m_iUsedPos < n + 1
      omega
  . rintro i ⟨rfl⟩
    exact ⟨by omega, hnew.symm, congrArg LogicRecvBuffer.m_bUsedFlag hclear, hempty⟩

theorem Ring.addBuf (R : Ring base n k s) (hgrows : s.grows = true → s.queue.m_iUsedPos + k = n)
    (h : step s .addBuf = some s') : ∃ base n, Ring base n k s' := by
  cases hsocket : s.socket with
  | idle => simp [step, hsocket] at h
  | filling i => simp [step, hsocket] at h
  | looking index last =>
    simp only [step, hsocket, R.count] at h
    split at h
    . contradiction
    . next hindex =>
      have hpos := R.pos
      have hle := R.le
      obtain ⟨hgame, hindex', -, hnext⟩ := R.looks index last hsocket
      obtain rfl : index = n := by omega
      obtain ⟨hfull, rfl, hempty⟩ := hnext hpos
      simp only [LogicRecvBufQueue.addBuf, LogicRecvBufQueue.grows] at h
      cases hflag : (s.queue.buffer (slot index base (k + index - 1))).m_bUsedFlag with
      | true =>
        simp only [hflag, if_true, Option.some.injEq] at h
        subst h
        have hend : s.queue.m_iUsedPos + k = index := by
          apply hgrows
          rw [Threads.grows, hsocket]
          simp [R.count, LogicRecvBufQueue.grows, hflag]
        have hk : 0 < k := by
          by_contra hzero
          obtain rfl : k = 0 := by omega
          obtain rfl : index = 1 := by omega
          have hconsuming : s.game = .consuming (slot 1 base 0) := by
            by_contra hne
            have hfree := R.free 0 hpos (Nat.le_refl 0) hne
            simp [hflag] at hfree
          obtain ⟨-, -, hlt, -⟩ := R.consuming _ hconsuming
          omega
        have hbase : s.queue.m_iUsedPos = base := by
          have hused : s.game.index = 0 := by
            cases hg : s.game with
            | looking index' filled => exact absurd hg (R.notLooking hsocket index' filled)
            | _ => rfl
          obtain ⟨-, hwrap⟩ := R.usedPos hused
          rwa [wrap, if_neg (by omega)] at hwrap
        have hlast : slot index base (k + index - 1) = index - 1 := by
          have hsum : base + (k + index - 1) = index - 1 + index := by omega
          rw [slot, hsum, Nat.add_mod_right, Nat.mod_eq_of_lt (by omega)]
        have hnext : slot (index + 1) base (k + 1) = 0 := by
          have hsum : base + (k + 1) = index + 1 := by omega
          rw [slot, hsum, Nat.mod_self]
        refine ⟨base, index + 1, ?_⟩
        rw [R.count]
        apply R.grow hsocket (by omega) hk hbase
        have hcount : s.queue.m_RecvList.length = index := R.count
        rw [hnext, hempty, hlast, List.length_append, hcount, wrap, if_pos]
        simp only [List.length_singleton]
        omega
      | false =>
        simp only [hflag, Bool.false_eq_true, if_false, Option.some.injEq] at h
        subst h
        obtain rfl : k = 0 := by
          by_contra hne
          have hsum : k + index - 1 = k - 1 + index := by omega
          rw [hsum, slot_add_size, R.filled (k - 1) (by omega)] at hflag
          contradiction
        obtain rfl : index = 1 := by omega
        refine ⟨base, 1, R.handOut hsocket hpos hflag ?_⟩
        rw [R.count, hempty, wrap, if_pos (by omega), slot, Nat.mod_one]

theorem Ring.step (R : Ring base n k s) {a : Action α} (hgrows : GrowsInOrder s a)
    (h : stepOf step s a s') : ∃ base n k, Ring base n k s' := by
  cases a with
  | getEmptyBuf => exact ⟨base, n, k, R.getEmptyBuf h⟩
  | lookForEmpty => exact ⟨base, n, k, R.lookForEmpty h⟩
  | addBuf =>
    have hwaiting : s.waiting = k := by
      have hlength := R.length
      rw [Threads.waiting]
      omega
    rw [GrowsInOrder, hwaiting, R.count] at hgrows
    obtain ⟨base, n, R'⟩ := R.addBuf (hgrows rfl) h
    exact ⟨base, n, k, R'⟩
  | fill content => exact ⟨base, n, k + 1, R.fill h⟩
  | getUsedBuf => exact ⟨base, n, k, R.getUsedBuf h⟩
  | lookForUsed =>
    obtain ⟨base, k, R'⟩ := R.lookForUsed h
    exact ⟨base, n, k, R'⟩
  | leave => exact ⟨base, n, k, R.leave h⟩
  | release => exact ⟨base, n, k, R.release h⟩

/-- As long as buffers are added behind the filled ones, the queue is first in, first out. -/
theorem fifo_of_run {iQueueSize : Nat} (hsize : 0 < iQueueSize) {as : List (Action α)}
    (hrun : Run (stepOf step) GrowsInOrder (.start iQueueSize) as s)
    : Fifo s := by
  obtain ⟨base, n, k, R⟩ := hrun.invariant (fun s => ∃ base n k, Ring base n k s)
    ⟨0, iQueueSize, 0, ring_start hsize⟩
    fun s a s' ⟨base, n, k, R⟩ hgrows hstep => R.step hgrows hstep
  exact R.fifo

def fillFree (content : Nat) : List (Action Nat) := [.getEmptyBuf, .lookForEmpty, .fill content]

def fillAdded (n content : Nat) : List (Action Nat) :=
  .getEmptyBuf :: .replicate n .lookForEmpty ++ [.addBuf, .fill content]

def growAndTake : List (Action Nat) :=
  fillFree 0 ++ fillFree 1 ++ fillAdded 2 2 ++ [.getUsedBuf, .lookForUsed, .release]

theorem fifo_of_run_growAndTake
    : ∃ s, Run (stepOf step) GrowsInOrder (.start 2) growAndTake s ∧ Fifo s := by
  let _ (s : Threads Nat) (a : Action Nat) : Decidable (GrowsInOrder s a) :=
    inferInstanceAs (Decidable (a = .addBuf → s.grows = true
      → s.queue.m_iUsedPos + s.waiting = s.queue.count))
  obtain ⟨s, hrun, -⟩ : ∃ s, Run (stepOf step) GrowsInOrder (.start 2) growAndTake s ∧ True :=
    Run.exists_of_decide rfl
  exact ⟨s, hrun, fifo_of_run (by decide) hrun⟩

def burst : List (Action Nat) :=
  .getUsedBuf :: .replicate 10 .lookForUsed ++ .leave :: (List.range 10).flatMap fillFree
    ++ fillAdded 10 10 ++ [.getUsedBuf, .lookForUsed]

theorem fifo_counterexample
    : ∃ s, Run (stepOf step) anyLabel (.start 10) burst s ∧ s.filled = List.range 11
        ∧ s.returned = [10] ∧ ¬ Fifo s := by
  obtain ⟨s, hrun, hfilled, hreturned⟩ : ∃ s, Run (stepOf step) anyLabel (.start 10) burst s
      ∧ s.filled = List.range 11 ∧ s.returned = [10] := Run.exists_of_foldlM (by decide)
  refine ⟨s, hrun, hfilled, hreturned, fun F => ?_⟩
  have hfirst := F.returned
  rw [hfilled, hreturned] at hfirst
  revert hfirst
  decide

end LogicRecvBufQueue

end WzGame
