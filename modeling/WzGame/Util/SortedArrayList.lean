import WzGame.Util.Runs
import Mathlib.Algebra.Ring.Int.Defs
import Mathlib.Algebra.Ring.Nat
import Mathlib.Data.List.InsertIdx
import Mathlib.Data.List.Sort

/-!
This module contains the class `SortedArrayList`: a list that is kept in order by a binary search for the place
of each new element.
-/

namespace WzGame

open Runs

structure Comparator (E : Type) where
  compare : E → E → Int
  swap : ∀ x y, compare x y ≤ 0 ↔ 0 ≤ compare y x
  trans : ∀ x y z, compare x y ≤ 0 → compare y z ≤ 0 → compare x z ≤ 0

namespace SortedArrayList

variable {E : Type} (comparator : Comparator E)

inductive Exception where
  | indexOutOfBounds
  | nullPointer
  | outOfMemory
  -- the search has taken more rounds than there are elements, which `bsearch_eq` rules out
  | stuck
deriving DecidableEq

-- the value that an `int` has after `x` has been computed
def int (x : Int) : Int := x.bmod (2 ^ 32)

def get (list : List (Option E)) (index : Int) : Except Exception (Option E) :=
  if 0 ≤ index ∧ index < list.length then
    .ok (list.getD index.toNat none)
  else
    .error .indexOutOfBounds

def bsearchLoop (list : List (Option E)) (e : E) : Nat → Int → Int → Except Exception Int
  | 0, _, _ => .error .stuck
  | n + 1, begin, end' =>
    if end' ≥ begin then do
      let mid := (int (begin + end')).tdiv 2
      let x ← get list mid
      match x with
      | none => .error .nullPointer
      | some x =>
        let cmp := comparator.compare x e
        if cmp = 0 then
          .ok mid
        else if cmp < 0 then
          bsearchLoop list e n (mid + 1) end'
        else
          bsearchLoop list e n begin (mid - 1)
    else
      .ok (begin - 1)

def bsearch (list : List (Option E)) (begin end' : Int) (e : E) : Except Exception Int :=
  if end' < begin then
    .ok (begin - 1)
  else
    bsearchLoop comparator list e (list.length + 1) begin end'

-- `add(int index, E e)` of `ArrayList`
def addAt (list : List (Option E)) (index : Int) (e : E) : Except Exception (List (Option E)) :=
  if index < 0 ∨ list.length < index then
    .error .indexOutOfBounds
  else if list.length = 2 ^ 31 - 1 then
    .error .outOfMemory
  else
    .ok (list.insertIdx index.toNat (some e))

def add (list : List (Option E)) (e : E) : Except Exception (List (Option E)) :=
  if list.length ≤ 0 then
    .ok (list ++ [some e])
  else do
    let pos ← bsearch comparator list 0 (list.length - 1) e
    addAt list (pos + 1) e

def clearNullLoop : Nat → Nat → Nat → List (Option E) → Nat × List (Option E)
  | 0, _, curr, list => (curr, list)
  | n + 1, i, curr, list =>
    match list.getD i none with
    | none => clearNullLoop n (i + 1) curr list
    | some x =>
      let list := if curr ≠ i then list.set curr (some x) else list
      clearNullLoop n (i + 1) (curr + 1) list

def clearNull (list : List (Option E)) : List (Option E) :=
  let (curr, list) := clearNullLoop list.length 0 0 list
  if curr < list.length then list.take curr else list

/--
The index that the search finds for `e` among `xs`, of which it has left those from `begin` on in front of
`stop`, where there is no bound on the integers.
-/
def insertPos (xs : List E) (e : E) (begin stop : Nat) : Nat :=
  if begin < stop then
    let mid := (begin + (stop - 1)) / 2
    match xs[mid]? with
    | none => begin
    | some x =>
      if comparator.compare x e = 0 then
        mid + 1
      else if comparator.compare x e < 0 then
        insertPos xs e (mid + 1) stop
      else
        insertPos xs e begin mid
  else
    begin
termination_by stop - begin

-- the sums of all bounds that the search goes through are values of an `int`
def SumsFit (xs : List E) (e : E) (begin stop : Nat) : Prop :=
  if begin < stop then
    let mid := (begin + (stop - 1)) / 2
    begin + (stop - 1) < 2 ^ 31 ∧
      match xs[mid]? with
      | none => True
      | some x =>
        if comparator.compare x e = 0 then
          True
        else if comparator.compare x e < 0 then
          SumsFit xs e (mid + 1) stop
        else
          SumsFit xs e begin mid
  else
    True
termination_by stop - begin

variable {comparator : Comparator E} {xs : List E} {e x : E} {begin stop : Nat}

theorem int_of_lt {sum : Nat} (h : sum < 2 ^ 31) : (int sum).tdiv 2 = (sum / 2 : Nat) := by
  rw [int, Int.bmod_eq_of_le (by omega) (by omega), Int.tdiv_eq_ediv_of_nonneg (by omega)]
  omega

theorem int_of_ge {sum : Nat} (h : 2 ^ 31 ≤ sum) (hlt : sum < 2 ^ 32 - 1) : (int sum).tdiv 2 < 0 := by
  have hint : int sum = -((2 ^ 32 - sum : Nat) : Int) := by
    rw [int, Int.bmod_def]
    omega
  rw [hint, Int.neg_tdiv, Int.tdiv_eq_ediv_of_nonneg (by omega)]
  omega

theorem get_map {i : Nat} (hi : xs[i]? = some x) : get (xs.map some) i = .ok (some x) := by
  obtain ⟨hlt, rfl⟩ := List.getElem?_eq_some_iff.mp hi
  simp [get, hlt]

theorem get_of_neg {list : List (Option E)} {i : Int} (hi : i < 0) : get list i = .error .indexOutOfBounds := by
  rw [get, if_neg (by omega)]

theorem bind_of_error {α β : Type} {result : Except Exception α} {next : α → Except Exception β}
    {exception : Exception} (h : result = .error exception)
    : result >>= next = .error exception := by
  rw [h]
  rfl

theorem bsearchLoop_eq (hlength : xs.length < 2 ^ 31) (n : Nat) (hn : stop - begin < n)
    (hstop : stop ≤ xs.length)
    : (SumsFit comparator xs e begin stop
          → bsearchLoop comparator (xs.map some) e n begin (stop - 1)
              = .ok (insertPos comparator xs e begin stop - 1))
        ∧ (¬ SumsFit comparator xs e begin stop
            → bsearchLoop comparator (xs.map some) e n begin (stop - 1) = .error .indexOutOfBounds) := by
  induction n generalizing begin stop with
  | zero => omega
  | succ n ih =>
    rw [SumsFit, insertPos, bsearchLoop]
    by_cases hlt : begin < stop
    . have hsum : (begin : Int) + (stop - 1) = ((begin + (stop - 1) : Nat) : Int) := by omega
      rw [if_pos hlt, if_pos hlt, if_pos (by omega), hsum]
      by_cases hfit : begin + (stop - 1) < 2 ^ 31
      . rw [int_of_lt hfit]
        generalize hmid : (begin + (stop - 1)) / 2 = mid
        have hget := List.getElem?_eq_getElem (l := xs) (show mid < xs.length by omega)
        have hleft := @ih begin mid (by omega) (by omega)
        have hright := @ih (mid + 1) stop (by omega) hstop
        rw [Int.natCast_add, Int.natCast_one] at hright
        simp only [hfit, true_and, get_map hget, hget, Except.bind, bind]
        rcases Int.lt_trichotomy (comparator.compare xs[mid] e) 0 with hneg | hzero | hpos
        . simpa only [if_neg (Int.ne_of_lt hneg), if_pos hneg] using hright
        . simp [hzero]
        . simpa only [if_neg (Int.ne_of_gt hpos), if_neg (Int.lt_asymm hpos)] using hleft
      . have hneg := int_of_ge (Nat.le_of_not_lt hfit) (by omega)
        refine ⟨fun h => absurd h.1 hfit, fun _ => ?_⟩
        exact bind_of_error (get_of_neg hneg)
    . rw [if_neg hlt, if_neg hlt, if_neg (by omega)]
      simp

theorem bsearch_eq (hlength : xs.length < 2 ^ 31)
    : (SumsFit comparator xs e 0 xs.length
          → bsearch comparator (xs.map some) 0 (xs.length - 1) e
              = .ok (insertPos comparator xs e 0 xs.length - 1))
        ∧ (¬ SumsFit comparator xs e 0 xs.length
            → bsearch comparator (xs.map some) 0 (xs.length - 1) e = .error .indexOutOfBounds) := by
  rw [bsearch]
  split
  . next hempty =>
    have hnil : xs.length = 0 := by omega
    rw [SumsFit, insertPos, hnil]
    simp
  . rw [List.length_map]
    exact bsearchLoop_eq hlength _ (by omega) (Nat.le_refl _)

variable (comparator) in
structure Place (xs : List E) (e : E) (p : Nat) : Prop where
  before : ∀ (i : Nat) (x : E), i < p → xs[i]? = some x → comparator.compare x e ≤ 0
  behind : ∀ (i : Nat) (x : E), p ≤ i → xs[i]? = some x → 0 ≤ comparator.compare x e

variable (comparator) in
def Sorted (xs : List E) : Prop := xs.Pairwise fun x y => comparator.compare x y ≤ 0

theorem refl (x : E) : comparator.compare x x ≤ 0 := by
  rcases Int.le_total (comparator.compare x x) 0 with hle | hge
  . exact hle
  . exact (comparator.swap x x).mpr hge

theorem Sorted.le {i j : Nat} {x y : E} (h : Sorted comparator xs) (hij : i ≤ j) (hx : xs[i]? = some x)
    (hy : xs[j]? = some y)
    : comparator.compare x y ≤ 0 := by
  rcases Nat.lt_or_eq_of_le hij with hlt | rfl
  . obtain ⟨hi, rfl⟩ := List.getElem?_eq_some_iff.mp hx
    obtain ⟨hj, rfl⟩ := List.getElem?_eq_some_iff.mp hy
    exact List.pairwise_iff_getElem.mp h i j hi hj hlt
  . obtain rfl := Option.some.inj (hx.symm.trans hy)
    exact refl x

theorem Sorted.before {mid : Nat} (h : Sorted comparator xs) (hmid : xs[mid]? = some x)
    (hle : comparator.compare x e ≤ 0) (i : Nat) (y : E) (hi : i < mid + 1) (hy : xs[i]? = some y)
    : comparator.compare y e ≤ 0 :=
  comparator.trans y x e (h.le (Nat.le_of_lt_succ hi) hy hmid) hle

theorem Sorted.behind {mid : Nat} (h : Sorted comparator xs) (hmid : xs[mid]? = some x)
    (hge : 0 ≤ comparator.compare x e) (i : Nat) (y : E) (hi : mid ≤ i) (hy : xs[i]? = some y)
    : 0 ≤ comparator.compare y e :=
  (comparator.swap e y).mp (comparator.trans e x y ((comparator.swap e x).mpr hge) (h.le hi hmid hy))

theorem insertPos_place (h : Sorted comparator xs) (hbegin : begin ≤ stop) (hstop : stop ≤ xs.length)
    (hbefore : ∀ (i : Nat) (x : E), i < begin → xs[i]? = some x → comparator.compare x e ≤ 0)
    (hbehind : ∀ (i : Nat) (x : E), stop ≤ i → xs[i]? = some x → 0 ≤ comparator.compare x e)
    : insertPos comparator xs e begin stop ≤ stop
        ∧ Place comparator xs e (insertPos comparator xs e begin stop) := by
  fun_induction insertPos comparator xs e begin stop with
  | case1 begin stop hlt mid hnone =>
    have hmid : xs.length ≤ mid := List.getElem?_eq_none_iff.mp hnone
    omega
  | case2 begin stop hlt mid x hx hzero =>
    refine ⟨by omega, h.before hx (Int.le_of_eq hzero), ?_⟩
    exact fun i y hi => h.behind hx (Int.le_of_eq hzero.symm) i y (by omega)
  | case3 begin stop hlt mid x hx _ hneg ih =>
    exact ih (by omega) hstop (h.before hx (Int.le_of_lt hneg)) hbehind
  | case4 begin stop hlt mid x hx hne hnonneg ih =>
    obtain ⟨hle, hplace⟩ := ih (by omega) (by omega) hbefore (h.behind hx (Int.not_lt.mp hnonneg))
    exact ⟨by omega, hplace⟩
  | case5 begin stop hge =>
    exact ⟨hbegin, hbefore, fun i x hi => hbehind i x (by omega)⟩

theorem insertPos_spec (h : Sorted comparator xs) (e : E)
    : insertPos comparator xs e 0 xs.length ≤ xs.length
        ∧ Place comparator xs e (insertPos comparator xs e 0 xs.length) := by
  apply insertPos_place h (Nat.zero_le _) (Nat.le_refl _)
  . exact fun i _ hi => absurd hi (Nat.not_lt_zero i)
  . intro i x hi hx
    rw [List.getElem?_eq_none hi] at hx
    contradiction

theorem sorted_insertIdx {p : Nat} (h : Sorted comparator xs) (hplace : Place comparator xs e p)
    : Sorted comparator (xs.insertIdx p e) := by
  induction p generalizing xs with
  | zero =>
    rw [List.insertIdx_zero]
    refine List.pairwise_cons.mpr ⟨fun y hy => ?_, h⟩
    obtain ⟨i, hi⟩ := List.getElem?_of_mem hy
    exact (comparator.swap e y).mpr (hplace.behind i y (Nat.zero_le _) hi)
  | succ p ih =>
    cases xs with
    | nil => exact List.Pairwise.nil
    | cons x xs =>
      obtain ⟨hx, h⟩ := List.pairwise_cons.mp h
      rw [List.insertIdx_succ_cons]
      refine List.pairwise_cons.mpr ⟨fun y hy => ?_, ih h ⟨?_, ?_⟩⟩
      . rcases List.eq_or_mem_of_mem_insertIdx hy with rfl | hy
        . exact hplace.before 0 x (by omega) rfl
        . exact hx y hy
      . exact fun i y hi => hplace.before (i + 1) y (by omega)
      . exact fun i y hi => hplace.behind (i + 1) y (by omega)

-- the elements that are not `null`
def values (list : List (Option E)) : List E := list.filterMap id

theorem values_map : values (xs.map some) = xs := by
  rw [values, List.filterMap_map]
  exact List.filterMap_some

theorem map_values {list : List (Option E)} (h : list.all Option.isSome = true)
    : (values list).map some = list := by
  induction list with
  | nil => rfl
  | cons x list ih =>
    obtain ⟨hx, hlist⟩ : x.isSome = true ∧ list.all Option.isSome = true := by simpa using h
    obtain ⟨x, rfl⟩ := Option.isSome_iff_exists.mp hx
    rw [values, List.filterMap_cons_some (f := id) (b := x) rfl, List.map_cons]
    exact congrArg (some x :: ·) (ih hlist)

theorem length_values {list : List (Option E)} (h : list.all Option.isSome = true)
    : (values list).length = list.length := by
  rw [← List.length_map, map_values h]

theorem add_eq (h : Sorted comparator xs) (hlength : xs.length < 2 ^ 31 - 1)
    (hfit : SumsFit comparator xs e 0 xs.length)
    : add comparator (xs.map some) e
        = .ok ((xs.insertIdx (insertPos comparator xs e 0 xs.length) e).map some) := by
  have hle := (insertPos_spec h e).1
  rw [add]
  split
  . next hempty =>
    obtain rfl : xs = [] := by simpa using hempty
    simp [insertPos]
  . have hsearch := (bsearch_eq (by omega)).1 hfit
    rw [List.length_map, hsearch]
    show addAt _ _ e = _
    rw [addAt, Int.sub_add_cancel, List.length_map, if_neg (by omega), if_neg (by omega), Int.toNat_natCast,
      List.map_insertIdx]

theorem add_error (hlength : xs.length < 2 ^ 31)
    (h : ¬ (xs.length < 2 ^ 31 - 1 ∧ SumsFit comparator xs e 0 xs.length))
    : ∃ exception, add comparator (xs.map some) e = .error exception := by
  have hne : ¬ (xs.map some).length ≤ 0 := by
    intro hempty
    obtain rfl : xs = [] := by simpa using hempty
    apply h
    rw [SumsFit]
    simp
  by_cases hfit : SumsFit comparator xs e 0 xs.length
  . have hfull : xs.length = 2 ^ 31 - 1 := by
      have hnot : ¬ xs.length < 2 ^ 31 - 1 := fun hlt => h ⟨hlt, hfit⟩
      omega
    rw [add, if_neg hne, List.length_map, (bsearch_eq hlength).1 hfit]
    show ∃ exception, addAt _ _ e = _
    rw [addAt, List.length_map, if_pos hfull]
    split
    . exact ⟨_, rfl⟩
    . exact ⟨_, rfl⟩
  . refine ⟨.indexOutOfBounds, ?_⟩
    rw [add, if_neg hne, List.length_map]
    exact bind_of_error ((bsearch_eq hlength).2 hfit)

theorem clearNullLoop_eq {list : List (Option E)} (n i curr : Nat) (hn : i + n = list.length)
    (hcurr : curr ≤ i)
    : (clearNullLoop n i curr list).2.length = list.length
        ∧ (clearNullLoop n i curr list).1 ≤ list.length
        ∧ (clearNullLoop n i curr list).2.take (clearNullLoop n i curr list).1
          = list.take curr ++ (list.drop i).filter Option.isSome := by
  induction n generalizing i curr list with
  | zero =>
    rw [clearNullLoop, List.drop_eq_nil_of_le (by omega)]
    exact ⟨rfl, by omega, by simp⟩
  | succ n ih =>
    have hi : i < list.length := by omega
    rw [clearNullLoop, List.drop_eq_getElem_cons hi]
    rw [List.getD_eq_getElem?_getD, List.getElem?_eq_getElem hi, Option.getD_some]
    cases hx : list[i] with
    | none =>
      simpa using ih (i + 1) curr (by omega) (by omega)
    | some x =>
      have hset : (if curr ≠ i then list.set curr (some x) else list) = list.set curr (some x) := by
        split
        . rfl
        . next heq =>
          obtain rfl : curr = i := by simpa using heq
          rw [← hx, List.set_getElem_self]
      simp only [hset]
      obtain ⟨hlength, hle, htake⟩ := @ih (list.set curr (some x)) (i + 1) (curr + 1)
        (by rw [List.length_set]; omega) (by omega)
      rw [List.length_set] at hlength hle
      refine ⟨hlength, hle, htake.trans ?_⟩
      rw [List.drop_set_of_lt (by omega), List.filter_cons_of_pos rfl,
        List.take_succ_eq_append_getElem (by rw [List.length_set]; omega), List.take_set_of_le (Nat.le_refl _)]
      simp

theorem clearNull_eq (list : List (Option E)) : clearNull list = list.filter Option.isSome := by
  obtain ⟨hlength, hle, htake⟩ := @clearNullLoop_eq E list list.length 0 0 (by omega) (by omega)
  rw [List.take_zero, List.nil_append, List.drop_zero] at htake
  rw [← htake]
  show (if _ < _ then _ else _) = _
  split
  . rfl
  . exact (List.take_of_length_le (by omega)).symm

theorem sumsFit_iff {mid : Nat} (hlt : begin < stop) (hmid : (begin + (stop - 1)) / 2 = mid)
    (hx : xs[mid]? = some x)
    : SumsFit comparator xs e begin stop
        ↔ begin + (stop - 1) < 2 ^ 31
            ∧ (comparator.compare x e < 0 → SumsFit comparator xs e (mid + 1) stop)
            ∧ (0 < comparator.compare x e → SumsFit comparator xs e begin mid) := by
  rw [SumsFit, if_pos hlt]
  simp only [hmid, hx]
  apply and_congr_right'
  rcases Int.lt_trichotomy (comparator.compare x e) 0 with hneg | hzero | hpos
  . simp [Int.ne_of_lt hneg, hneg, Int.lt_asymm hneg]
  . simp [hzero]
  . simp [Int.ne_of_gt hpos, hpos, Int.lt_asymm hpos]

theorem sumsFit_of_le (hstop : stop ≤ xs.length) (hle : stop ≤ 2 ^ 30)
    : SumsFit comparator xs e begin stop := by
  induction begin, stop using insertPos.induct comparator xs e with
  | case1 begin stop hlt mid hnone =>
    have hmid : xs.length ≤ mid := List.getElem?_eq_none_iff.mp hnone
    omega
  | case2 begin stop hlt mid x hx hzero =>
    exact (sumsFit_iff hlt rfl hx).mpr ⟨by omega, by omega, by omega⟩
  | case3 begin stop hlt mid x hx _ hneg ih =>
    exact (sumsFit_iff hlt rfl hx).mpr ⟨by omega, fun _ => ih hstop hle, by omega⟩
  | case4 begin stop hlt mid x hx _ hnonneg ih =>
    exact (sumsFit_iff hlt rfl hx).mpr ⟨by omega, by omega, fun _ => ih (by omega) (by omega)⟩
  | case5 begin stop hge =>
    rw [SumsFit, if_neg hge]
    trivial

theorem not_sumsFit (hless : ∀ x ∈ xs, comparator.compare x e < 0) (hstop : stop ≤ xs.length)
    (hlast : 2 ^ 30 < stop) (hbegin : begin < stop)
    : ¬ SumsFit comparator xs e begin stop := by
  induction begin, stop using insertPos.induct comparator xs e with
  | case1 begin stop hlt mid hnone =>
    have hmid : xs.length ≤ mid := List.getElem?_eq_none_iff.mp hnone
    omega
  | case2 begin stop hlt mid x hx hzero =>
    have hneg := hless x (List.mem_of_getElem? hx)
    omega
  | case3 begin stop hlt mid x hx _ hneg ih =>
    intro hfit
    obtain ⟨hsum, hright, -⟩ := (sumsFit_iff hlt rfl hx).mp hfit
    exact ih hstop hlast (by omega) (hright hneg)
  | case4 begin stop hlt mid x hx hne hnonneg ih =>
    exact absurd (hless x (List.mem_of_getElem? hx)) hnonneg
  | case5 begin stop hge => exact absurd hbegin hge

inductive Op (E : Type) where
  | add (e : E)
  | remove (index : Nat)
  | setNull (index : Nat)
  | clearNull

-- nothing is added to a list that holds a `null`, and an index is one of the list
def Op.Allowed (list : List (Option E)) : Op E → Bool
  | .add _ => list.all Option.isSome
  | .remove index => index < list.length
  | .setNull index => index < list.length
  | .clearNull => true

variable (comparator) in
def Op.run (list : List (Option E)) : Op E → Except Exception (List (Option E))
  | .add e => SortedArrayList.add comparator list e
  | .remove index => .ok (list.eraseIdx index)
  | .setNull index => .ok (list.set index none)
  | .clearNull => .ok (SortedArrayList.clearNull list)

structure Call (E : Type) where
  op : Op E
  before : List (Option E)
  after : Except Exception (List (Option E))

structure History (E : Type) where
  list : List (Option E)
  calls : List (Call E)

variable (comparator) in
def Call.Good (call : Call E) : Prop :=
  match call.op with
  | .add e =>
    ∃ list, call.after = .ok list ∧ Sorted comparator (values list) ∧ list.Perm (some e :: call.before)
  | .clearNull => call.after = .ok (call.before.filter Option.isSome)
  | _ => True

namespace History

def new : History E := ⟨[], []⟩

variable (comparator) in
-- a call that throws leaves the list as it was
def step (s : History E) (op : Op E) : Option (History E) :=
  if op.Allowed s.list then
    let after := op.run comparator s.list
    some ⟨after.toOption.getD s.list, s.calls ++ [⟨op, s.list, after⟩]⟩
  else
    none

variable (comparator) in
def Holds (s : History E) : Prop := ∀ call ∈ s.calls, call.Good comparator

variable (comparator) in
-- the list has room, and the sums of the search are values of an `int`
def Fits (s : History E) : Op E → Prop
  | .add e => s.list.length < 2 ^ 31 - 1 ∧ SumsFit comparator (values s.list) e 0 s.list.length
  | _ => True

variable (comparator) in
def Inv (s : History E) : Prop := Sorted comparator (values s.list) ∧ s.list.length < 2 ^ 31

variable {s s' : History E} {op : Op E}

theorem step_cases (hstep : s.step comparator op = some s')
    : op.Allowed s.list = true ∧ s'.list = (op.run comparator s.list).toOption.getD s.list
        ∧ s'.calls = s.calls ++ [⟨op, s.list, op.run comparator s.list⟩] := by
  rw [step] at hstep
  split at hstep
  . next hallowed =>
    obtain rfl := Option.some.inj hstep
    exact ⟨hallowed, rfl, rfl⟩
  . contradiction

theorem holds_iff_good (h : s.Holds comparator) (hstep : s.step comparator op = some s')
    : s'.Holds comparator ↔ Call.Good comparator ⟨op, s.list, op.run comparator s.list⟩ := by
  rw [Holds, (step_cases hstep).2.2]
  simp only [List.mem_append, List.mem_singleton]
  constructor
  . exact fun hall => hall _ (.inr rfl)
  . rintro hgood call (hcall | rfl)
    . exact h call hcall
    . exact hgood

theorem add_spec (hinv : s.Inv comparator) (hnull : s.list.all Option.isSome = true)
    (hfits : s.Fits comparator (.add e))
    : ∃ list, SortedArrayList.add comparator s.list e = .ok list ∧ Sorted comparator (values list)
        ∧ list.Perm (some e :: s.list) := by
  have hlist := map_values hnull
  obtain ⟨hroom, hfit⟩ := hfits
  rw [← length_values hnull] at hroom hfit
  obtain ⟨hle, hplace⟩ := insertPos_spec hinv.1 e
  have hadd := add_eq hinv.1 hroom hfit
  rw [hlist] at hadd
  refine ⟨_, hadd, ?_, ?_⟩
  . rw [values_map]
    exact sorted_insertIdx hinv.1 hplace
  . rw [← hlist, ← List.map_cons, hlist]
    exact (List.perm_insertIdx e _ hle).map some

theorem sorted_eraseIdx {list : List (Option E)} (h : Sorted comparator (values list)) (i : Nat)
    : Sorted comparator (values (list.eraseIdx i)) :=
  h.sublist ((List.eraseIdx_sublist list i).filterMap id)

theorem values_set_none {list : List (Option E)} {i : Nat} (hi : i < list.length)
    : values (list.set i none) = values (list.eraseIdx i) := by
  rw [List.set_eq_take_append_cons_drop, if_pos hi, List.eraseIdx_eq_take_drop_succ, values, values,
    List.filterMap_append, List.filterMap_append, List.filterMap_cons_none rfl]

theorem values_filter (list : List (Option E)) : values (list.filter Option.isSome) = values list := by
  rw [values, List.filterMap_filter]
  apply List.filterMap_congr
  intro x _
  cases x with
  | none => rfl
  | some x => rfl

theorem inv_step (hinv : s.Inv comparator) (hfits : s.Fits comparator op)
    (hstep : s.step comparator op = some s')
    : s'.Inv comparator := by
  obtain ⟨hallowed, hlist, -⟩ := step_cases hstep
  obtain ⟨hsorted, hlength⟩ := hinv
  rw [Inv, hlist]
  cases op with
  | add e =>
    obtain ⟨list, hadd, hsorted', hperm⟩ := add_spec ⟨hsorted, hlength⟩ hallowed hfits
    have hroom := hfits.1
    rw [Op.run, hadd]
    refine ⟨hsorted', ?_⟩
    show list.length < 2 ^ 31
    rw [hperm.length_eq, List.length_cons]
    omega
  | remove index =>
    exact ⟨sorted_eraseIdx hsorted index, Nat.lt_of_le_of_lt (List.eraseIdx_sublist _ _).length_le hlength⟩
  | setNull index =>
    have hindex : index < s.list.length := by simpa [Op.Allowed] using hallowed
    constructor
    . show Sorted comparator (values (s.list.set index none))
      rw [values_set_none hindex]
      exact sorted_eraseIdx hsorted index
    . show (s.list.set index none).length < 2 ^ 31
      rw [List.length_set]
      exact hlength
  | clearNull =>
    show Sorted comparator (values (clearNull s.list)) ∧ (clearNull s.list).length < 2 ^ 31
    rw [clearNull_eq, values_filter]
    exact ⟨hsorted, Nat.lt_of_le_of_lt (List.length_filter_le _ _) hlength⟩

theorem holds_step_iff (hinv : s.Inv comparator) (h : s.Holds comparator)
    (hstep : s.step comparator op = some s')
    : s'.Holds comparator ↔ s.Fits comparator op := by
  rw [holds_iff_good h hstep]
  have hallowed := (step_cases hstep).1
  cases op with
  | add e =>
    constructor
    . rintro ⟨list, hadd, -⟩
      by_contra hfits
      have hlength := length_values hallowed
      rw [Fits, ← hlength] at hfits
      obtain ⟨exception, herror⟩ := add_error (by rw [hlength]; exact hinv.2) hfits
      rw [map_values hallowed] at herror
      exact absurd (herror.symm.trans hadd) (by simp)
    . exact add_spec hinv hallowed
  | remove index => exact Iff.rfl
  | setNull index => exact Iff.rfl
  | clearNull => exact iff_of_true (congrArg Except.ok (clearNull_eq s.list)) trivial

/--
All calls do what is expected of them exactly if the list has room for each new element and no search for its
place meets a sum that is too large for an `int`.
-/
theorem calls_good_iff (comparator : Comparator E) {ops : List (Op E)}
    : Run (stepOf (step comparator)) (fun s _ => s.Holds comparator) new ops s ∧ s.Holds comparator
        ↔ Run (stepOf (step comparator)) (Fits comparator) new ops s := by
  apply holds_iff (Inv comparator) (Holds comparator)
  . exact ⟨⟨List.Pairwise.nil, Nat.two_pow_pos 31⟩, by simp [Holds, new]⟩
  . intro s op s' hinv _ hfits hstep
    exact inv_step hinv hfits hstep
  . intro s op s' hinv h hstep
    exact holds_step_iff hinv h hstep

def natural : Comparator Nat where
  compare x y := x - y
  swap _ _ := by omega
  trans _ _ _ := by omega

theorem sorted_replicate (n : Nat) : Sorted natural (List.replicate n 0) := by
  rw [Sorted, List.pairwise_replicate]
  exact .inr (refl 0)

theorem add_replicate {n : Nat} (hn : n ≤ 2 ^ 30)
    : SortedArrayList.add natural (List.replicate n (some 0)) 0 = .ok (List.replicate (n + 1) (some 0)) := by
  have hlength : (List.replicate n 0).length = n := List.length_replicate
  have hle := (insertPos_spec (sorted_replicate n) 0).1
  have hinsert : (List.replicate n 0).insertIdx (insertPos natural (List.replicate n 0) 0 0
      (List.replicate n 0).length) 0 = List.replicate (n + 1) 0 := by
    apply List.eq_replicate_iff.mpr
    constructor
    . rw [List.length_insertIdx_of_le_length hle, hlength]
    . intro x hx
      rcases List.eq_or_mem_of_mem_insertIdx hx with rfl | hx
      . rfl
      . exact List.eq_of_mem_replicate hx
  have hadd := add_eq (sorted_replicate n) (e := 0) (by omega) (sumsFit_of_le (Nat.le_refl _) (by omega))
  rw [hinsert, List.map_replicate, List.map_replicate] at hadd
  exact hadd

theorem run_replicate (n : Nat) (hn : n ≤ 2 ^ 30 + 1)
    : ∃ s, Run (stepOf (step natural)) anyLabel new (List.replicate n (.add 0)) s
        ∧ s.list = List.replicate n (some 0) := by
  induction n with
  | zero => exact ⟨new, .start, rfl⟩
  | succ n ih =>
    obtain ⟨s, hrun, hlist⟩ := ih (by omega)
    refine ⟨⟨List.replicate (n + 1) (some 0), s.calls ++ [⟨.add 0, s.list, .ok (List.replicate (n + 1) (some 0))⟩]⟩,
      ?_, rfl⟩
    rw [List.replicate_succ']
    refine .next hrun trivial ?_
    have hallowed : Op.Allowed s.list (.add 0) = true := by
      rw [hlist]
      simp [Op.Allowed]
    rw [stepOf, step, if_pos hallowed, Op.run, hlist, add_replicate (by omega)]
    rfl

theorem run_add_one (n : Nat) (hn : n = 2 ^ 30 + 1)
    : ∃ s, Run (stepOf (step natural)) anyLabel new (List.replicate n (.add 0) ++ [.add 1]) s
        ∧ ¬ s.Holds natural := by
  obtain ⟨s, hrun, hlist⟩ := run_replicate n (by omega)
  have hlength : (List.replicate n 0).length = n := List.length_replicate
  have hsearch : ¬ SumsFit natural (List.replicate n 0) 1 0 (List.replicate n 0).length := by
    refine not_sumsFit (fun x hx => ?_) (Nat.le_refl _) (by omega) (by omega)
    rw [List.eq_of_mem_replicate hx]
    decide
  obtain ⟨exception, hadd⟩ := add_error (by omega) fun hfits => hsearch hfits.2
  rw [List.map_replicate, ← hlist] at hadd
  have hallowed : Op.Allowed s.list (.add 1) = true := by
    rw [hlist]
    simp [Op.Allowed]
  refine ⟨⟨s.list, s.calls ++ [⟨.add 1, s.list, .error exception⟩]⟩, .next hrun trivial ?_, ?_⟩
  . rw [stepOf, step, if_pos hallowed, Op.run, hadd]
    rfl
  . intro hholds
    obtain ⟨list, hok, -⟩ := hholds ⟨.add 1, s.list, .error exception⟩ (by simp)
    contradiction

theorem calls_good_counterexample
    : ¬ ∀ (E : Type) (comparator : Comparator E) (ops : List (Op E)) (s : History E),
        Run (stepOf (step comparator)) anyLabel new ops s → s.Holds comparator := by
  intro hclaim
  obtain ⟨s, hrun, hnot⟩ := run_add_one (2 ^ 30 + 1) rfl
  exact hnot (hclaim Nat natural _ s hrun)

end History

end SortedArrayList

end WzGame
