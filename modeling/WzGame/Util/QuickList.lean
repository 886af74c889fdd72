import WzGame.Util.Cells
import Mathlib.Algebra.Order.Ring.Int

/-!
This module contains the class `QuickList` of the client: a list in a buffer that grows, is trimmed and may be `null`.
-/

namespace WzGame

open Cells

-- a buffer is `none` where it is `null`
structure QuickList (T : Type) where
  buffer : Option (List T)
  size : Int

namespace QuickList

variable {T : Type}

def Shows (list : QuickList T) (xs : List T) : Prop := list.size = xs.length ∧ xs <+: list.buffer.getD []

theorem Shows.eq_nil {list : QuickList T} {xs : List T} (h : list.Shows xs) (hbuffer : list.buffer = none)
    : xs = [] := by
  have hprefix := h.2
  rw [hbuffer] at hprefix
  exact List.prefix_nil.mp hprefix

-- an error is an exception, with the list as it is by then
def trim (list : QuickList T) : Except (QuickList T) (QuickList T) :=
  if 0 < list.size then
    match list.buffer with
    | none => .error list
    | some buffer =>
      if list.size < buffer.length then
        .ok { list with buffer := some (buffer.take list.size.toNat) }
      else
        .ok list
  else
    .ok { list with buffer := none }

theorem trim_eq {list : QuickList T} {xs : List T} (h : list.Shows xs) (hpos : 0 < list.size)
    : list.trim = .ok ⟨some xs, list.size⟩ := by
  obtain ⟨buffer, size⟩ := list
  obtain ⟨rfl, hprefix⟩ := h
  cases buffer with
  | none =>
    obtain rfl : xs = [] := List.prefix_nil.mp hprefix
    contradiction
  | some buffer =>
    obtain ⟨rest, rfl⟩ : xs <+: buffer := hprefix
    rw [trim, if_pos hpos]
    simp only [Int.toNat_natCast, List.take_left]
    split
    . rfl
    . next hfull =>
      rw [List.length_append] at hfull
      obtain rfl : rest = [] := List.length_eq_zero_iff.mp (by omega)
      rw [List.append_nil]

variable [Inhabited T] (equals : T → T → Bool)

-- `new QuickList<T>(size)`
def new (size : Nat) : QuickList T := ⟨some (List.replicate size default), 0⟩

-- `Mathf.Max(buffer.Length << 1, 32)`, where the shift is one of an `int`.
def grown (length : Nat) : Nat := (max ((2 * length : Int).bmod (2 ^ 32)) 32).toNat

def allocateMore (list : QuickList T) : Except (QuickList T) (QuickList T) :=
  match list.buffer with
  | none => .ok { list with buffer := some (List.replicate 32 default) }
  | some buffer =>
    let length := grown buffer.length
    if 0 < list.size then
      -- `CopyTo` throws where the new array is too short.
      if buffer.length ≤ length then
        .ok { list with buffer := some (buffer ++ List.replicate (length - buffer.length) default) }
      else
        .error list
    else
      .ok { list with buffer := some (List.replicate length default) }

def clear (list : QuickList T) : QuickList T := { list with size := 0 }

def release (_ : QuickList T) : QuickList T := ⟨none, 0⟩

def ensureRoom (list : QuickList T) : Except (QuickList T) (QuickList T) :=
  match list.buffer with
  | none => list.allocateMore
  | some buffer => if list.size = buffer.length then list.allocateMore else .ok list

def add (list : QuickList T) (item : T) : Except (QuickList T) (QuickList T) := do
  let list ← list.ensureRoom
  match list.buffer.bind fun buffer => store buffer list.size item with
  | some buffer => .ok ⟨some buffer, list.size + 1⟩
  -- The size is counted up before the item is stored.
  | none => .error { list with size := list.size + 1 }

def deleteAt (list : QuickList T) (buffer : List T) (index : Int) : Except (QuickList T) (QuickList T) :=
  let size := list.size - 1
  match store buffer index default with
  | none => .error ⟨some buffer, size⟩
  | some buffer =>
    match shiftDown buffer index (size - index).toNat with
    | .error buffer => .error ⟨some buffer, size⟩
    | .ok buffer => .ok ⟨some buffer, size⟩

def remove (list : QuickList T) (item : T) : Except (QuickList T) (QuickList T) :=
  match list.buffer with
  | none => .ok list
  | some buffer =>
    match search buffer (fun x => equals x item) 0 list.size.toNat with
    | none => .error list
    | some none => .ok list
    | some (some i) => list.deleteAt buffer i

def removeAt (list : QuickList T) (index : Int) : Except (QuickList T) (QuickList T) :=
  match list.buffer with
  | none => .ok list
  | some buffer => if index < list.size then list.deleteAt buffer index else .ok list

def toArray (list : QuickList T) : Except (QuickList T) (QuickList T × Option (List T)) := do
  let list ← list.trim
  return (list, list.buffer)

inductive Op (T : Type) where
  | add (item : T)
  | remove (item : T)
  | removeAt (index : Int)
  | clear
  | release
  | toArray

inductive Out (T : Type) where
  | threw
  | returned
  | array (buffer : Option (List T))

def out : Except (QuickList T) (QuickList T) → QuickList T × Out T
  | .error list => (list, .threw)
  | .ok list => (list, .returned)

def exec (list : QuickList T) : Op T → QuickList T × Out T
  | .add item => out (list.add item)
  | .remove item => out (list.remove equals item)
  | .removeAt index => out (list.removeAt index)
  | .clear => (list.clear, .returned)
  | .release => (list.release, .returned)
  | .toArray =>
    match list.toArray with
    | .error list => (list, .threw)
    | .ok (list, buffer) => (list, .array buffer)

def Op.effect (xs : List T) : Op T → List T
  | .add item => xs ++ [item]
  | .remove item => xs.eraseP fun x => equals x item
  | .removeAt index => if 0 ≤ index ∧ index < xs.length then xs.eraseIdx index.toNat else xs
  | .clear => []
  | .release => []
  | .toArray => xs

def Serves (list : QuickList T) (xs : List T) (op : Op T) : Prop :=
  (list.exec equals op).1.Shows (op.effect equals xs) ∧ (op = .toArray → (list.exec equals op).2 = .array (some xs))

def ServesAll : QuickList T → List T → List (Op T) → Prop
  | _, _, [] => True
  | list, xs, op :: ops =>
    list.Serves equals xs op ∧ ServesAll (list.exec equals op).1 (op.effect equals xs) ops

/--
No index is negative while there is a buffer, no array is asked for while the list is empty, and no element is added to
a full buffer with `2 ^ 30` elements or more.
-/
def Allowed (list : QuickList T) : Op T → Prop
  | .add _ => ∀ buffer, list.buffer = some buffer → list.size = buffer.length → buffer.length < 2 ^ 30
  | .remove _ => True
  | .removeAt index => list.buffer = none ∨ 0 ≤ index
  | .clear => True
  | .release => True
  | .toArray => 0 < list.size

def AllAllowed : QuickList T → List (Op T) → Prop
  | _, [] => True
  | list, op :: ops => list.Allowed op ∧ AllAllowed (list.exec equals op).1 ops

variable {equals} {list : QuickList T} {xs front back buffer : List T} {x item : T} {index : Int}

theorem lt_grown {length : Nat} (h : length < 2 ^ 30) : length < grown length := by
  have hshift : (2 * length : Int).bmod (2 ^ 32) = 2 * length := Int.bmod_eq_of_le (by omega) (by omega)
  unfold grown
  simp only [hshift]
  omega

theorem grown_lt {length : Nat} (h : 2 ^ 30 ≤ length) : grown length < length := by
  have hshift := Int.bmod_def (2 * length : Int) (2 ^ 32)
  unfold grown
  split at hshift
  . omega
  . omega

theorem shows_new (size : Nat) : (new size : QuickList T).Shows [] := ⟨rfl, List.nil_prefix⟩

theorem ensureRoom_eq (h : list.Shows xs) (hallowed : list.Allowed (.add item))
    : ∃ y rest, list.ensureRoom = .ok ⟨some (xs ++ y :: rest), list.size⟩ := by
  obtain ⟨buffer, size⟩ := list
  obtain ⟨rfl, hprefix⟩ := h
  cases buffer with
  | none =>
    obtain rfl : xs = [] := List.prefix_nil.mp hprefix
    exact ⟨default, List.replicate 31 default, rfl⟩
  | some buffer =>
    obtain ⟨rest, rfl⟩ : xs <+: buffer := hprefix
    cases rest with
    | cons y rest =>
      refine ⟨y, rest, ?_⟩
      rw [ensureRoom]
      simp only [List.length_append, List.length_cons]
      rw [if_neg (by omega)]
    | nil =>
      have hlt : xs.length < 2 ^ 30 := by simpa using hallowed _ rfl (by simp)
      obtain ⟨k, hk⟩ := Nat.exists_eq_add_of_lt (lt_grown hlt)
      refine ⟨default, List.replicate k default, ?_⟩
      rw [ensureRoom, List.append_nil]
      simp only [if_true, allocateMore, hk]
      split
      . rw [if_pos (by omega), Nat.add_assoc, Nat.add_sub_cancel_left, List.replicate_succ]
      . obtain rfl : xs = [] := List.length_eq_zero_iff.mp (by omega)
        rw [List.length_nil, Nat.zero_add, List.replicate_succ, List.nil_append]

theorem serves_add (h : list.Shows xs) (hallowed : list.Allowed (.add item))
    : list.Serves equals xs (.add item) := by
  obtain ⟨y, rest, hroom⟩ := ensureRoom_eq h hallowed
  have hstore : store (xs ++ y :: rest) list.size item = some (xs ++ item :: rest) := by
    rw [h.1]
    exact store_append
  have hadd : list.add item = .ok ⟨some (xs ++ item :: rest), list.size + 1⟩ := by
    rw [add, hroom]
    show (match store (xs ++ y :: rest) list.size item with
      | some buffer => _
      | none => _) = _
    rw [hstore]
  refine ⟨?_, nofun⟩
  rw [exec, hadd]
  refine ⟨?_, ?_⟩
  . show list.size + 1 = _
    rw [h.1, Op.effect]
    simp
  . show xs ++ [item] <+: xs ++ item :: rest
    simp

theorem not_serves_add (h : list.Shows xs) (hallowed : ¬ list.Allowed (.add item))
    : ¬ list.Serves equals xs (.add item) := by
  simp only [Allowed, not_forall, Nat.not_lt] at hallowed
  obtain ⟨buffer, hbuffer, hfull, hlong⟩ := hallowed
  have hroom : list.ensureRoom = .error list := by
    rw [ensureRoom, hbuffer]
    simp only [hfull, if_true]
    have hgrown := grown_lt hlong
    rw [allocateMore, hbuffer]
    simp only
    rw [if_pos (by omega), if_neg (by omega)]
  have hadd : list.add item = .error list := by
    rw [add, hroom]
    rfl
  rintro ⟨⟨hsize, -⟩, -⟩
  rw [exec, hadd, Op.effect, List.length_append, List.length_singleton] at hsize
  have hbefore := h.1
  simp only [out] at hsize
  omega

theorem deleteAt_eq (hsize : list.size = (front ++ x :: back).length) (rest : List T)
    : ∃ z, list.deleteAt (front ++ x :: (back ++ rest)) front.length
        = .ok ⟨some (front ++ (back ++ z :: rest)), (front ++ back).length⟩ := by
  obtain ⟨z, hshift⟩ := @shiftDown_append _ front back rest (default : T)
  have hrounds : (list.size - 1 - front.length).toNat = back.length := by
    rw [hsize, List.length_append, List.length_cons]
    omega
  have hcount : list.size - 1 = (front ++ back).length := by
    rw [hsize, List.length_append, List.length_append, List.length_cons]
    omega
  refine ⟨z, ?_⟩
  rw [deleteAt, store_append]
  simp only [hrounds, hshift]
  rw [hcount]

theorem shows_deleteAt (h : list.Shows (front ++ x :: back)) (hbuffer : list.buffer = some buffer)
    : ∃ list', list.deleteAt buffer front.length = .ok list' ∧ list'.Shows (front ++ back) := by
  have hprefix := h.2
  rw [hbuffer] at hprefix
  obtain ⟨rest, rfl⟩ : front ++ x :: back <+: buffer := hprefix
  obtain ⟨z, hdelete⟩ := deleteAt_eq h.1 rest
  rw [List.append_assoc, List.cons_append]
  refine ⟨_, hdelete, rfl, z :: rest, ?_⟩
  rw [List.append_assoc]
  rfl

theorem serves_remove (h : list.Shows xs) : list.Serves equals xs (.remove item) := by
  refine ⟨?_, nofun⟩
  rw [exec, Op.effect, remove]
  cases hbuffer : list.buffer with
  | none =>
    obtain rfl := h.eq_nil hbuffer
    exact h
  | some buffer =>
    have hprefix := h.2
    rw [hbuffer] at hprefix
    obtain ⟨rest, rfl⟩ : xs <+: buffer := hprefix
    have hrounds : list.size.toNat = xs.length := by
      rw [h.1]
      exact Int.toNat_natCast _
    rcases @search_append _ [] rest xs fun x => equals x item with ⟨hsearch, hnone⟩
      | ⟨before, y, behind, rfl, hbefore, hy, hsearch⟩
    . rw [List.nil_append] at hsearch
      have hremove : search (xs ++ rest) (fun x => equals x item) 0 list.size.toNat = some none := hrounds ▸ hsearch
      simp only [hremove]
      rw [List.eraseP_of_forall_not hnone]
      exact h
    . rw [List.nil_append, List.nil_append] at hsearch
      have hremove : search (before ++ y :: behind ++ rest) (fun x => equals x item) 0 list.size.toNat
          = some (some (before.length : Int)) := hrounds ▸ hsearch
      obtain ⟨list', hdelete, hshows⟩ := shows_deleteAt h hbuffer
      have herase : (before ++ y :: behind).eraseP (fun x => equals x item) = before ++ behind := by
        rw [List.eraseP_append_right _ hbefore, List.eraseP_cons_of_pos (p := fun x => equals x item) hy]
      simp only [hremove, hdelete]
      rw [herase]
      exact hshows

theorem serves_removeAt_iff (h : list.Shows xs)
    : list.Serves equals xs (.removeAt index) ↔ list.Allowed (.removeAt index) := by
  cases hbuffer : list.buffer with
  | none =>
    obtain rfl := h.eq_nil hbuffer
    refine iff_of_true ⟨?_, nofun⟩ (.inl hbuffer)
    rw [exec, Op.effect, removeAt, hbuffer]
    simpa [out] using h
  | some buffer =>
    have hallowed : list.Allowed (.removeAt index) ↔ 0 ≤ index := by simp [Allowed, hbuffer]
    have hsize := h.1
    rw [hallowed]
    by_cases hneg : 0 ≤ index
    . refine iff_of_true ⟨?_, nofun⟩ hneg
      rw [exec, Op.effect, removeAt, hbuffer]
      by_cases hlt : index < xs.length
      . obtain ⟨front, x, back, rfl, hindex⟩ : ∃ front x back, xs = front ++ x :: back ∧ index = front.length := by
          have hcut := List.take_append_drop index.toNat xs
          rw [List.drop_eq_getElem_cons (by omega)] at hcut
          refine ⟨xs.take index.toNat, _, _, hcut.symm, ?_⟩
          rw [List.length_take]
          omega
        obtain ⟨list', hdelete, hshows⟩ := shows_deleteAt h hbuffer
        have herase : (front ++ x :: back).eraseIdx index.toNat = front ++ back := by
          rw [hindex, Int.toNat_natCast, List.eraseIdx_append_of_length_le (Nat.le_refl _)]
          simp
        rw [if_pos ⟨hneg, hlt⟩, herase]
        simp only
        rw [if_pos (by omega), hindex, hdelete]
        exact hshows
      . rw [if_neg (by omega)]
        simp only
        rw [if_neg (by omega)]
        exact h
    . refine iff_of_false ?_ hneg
      have hdelete : list.removeAt index = .error ⟨some buffer, list.size - 1⟩ := by
        rw [removeAt, hbuffer]
        simp only
        rw [if_pos (by omega), deleteAt, store_neg (by omega)]
      rintro ⟨⟨hsize', -⟩, -⟩
      rw [exec, Op.effect, hdelete, if_neg (by omega)] at hsize'
      simp only [out] at hsize'
      omega

theorem serves_toArray_iff (h : list.Shows xs) : list.Serves equals xs .toArray ↔ list.Allowed .toArray := by
  rw [Allowed]
  by_cases hpos : 0 < list.size
  . have harray : list.toArray = .ok (⟨some xs, list.size⟩, some xs) := by
      rw [toArray, trim_eq h hpos]
      rfl
    refine iff_of_true ?_ hpos
    rw [Serves, exec, harray]
    exact ⟨⟨h.1, List.prefix_rfl⟩, fun _ => rfl⟩
  . refine iff_of_false ?_ hpos
    rintro ⟨-, harray⟩
    have hout := harray rfl
    rw [exec, toArray, trim, if_neg hpos] at hout
    cases hout

theorem serves_iff (h : list.Shows xs) (op : Op T) : list.Serves equals xs op ↔ list.Allowed op := by
  cases op with
  | add item => exact ⟨fun hserves => by_contra fun hallowed => not_serves_add h hallowed hserves, serves_add h⟩
  | remove item => exact iff_of_true (serves_remove h) trivial
  | removeAt index => exact serves_removeAt_iff h
  | clear => exact iff_of_true ⟨⟨rfl, List.nil_prefix⟩, nofun⟩ trivial
  | release => exact iff_of_true ⟨⟨rfl, List.nil_prefix⟩, nofun⟩ trivial
  | toArray => exact serves_toArray_iff h

theorem servesAll_iff (h : list.Shows xs) (ops : List (Op T))
    : list.ServesAll equals xs ops ↔ list.AllAllowed equals ops := by
  induction ops generalizing list xs with
  | nil => exact Iff.rfl
  | cons op ops ih =>
    rw [ServesAll, AllAllowed, ← serves_iff h]
    exact and_congr_right fun hserves => ih hserves.1

/-- The list is right in all states of a run exactly if no call of it is of the kinds that go wrong. -/
theorem servesAll_new_iff (capacity : Nat) (ops : List (Op T))
    : (new capacity).ServesAll equals [] ops ↔ (new capacity).AllAllowed equals ops :=
  servesAll_iff (shows_new capacity) ops

theorem servesAll_counterexample
    : ¬ ∀ (capacity : Nat) (ops : List (Op Nat)), (new capacity).ServesAll (fun x y => x == y) [] ops := by
  intro h
  have hsize := (h 8 [.add 5, .removeAt (-1)]).2.1.1.1
  exact absurd hsize (by decide)

end QuickList

end WzGame
