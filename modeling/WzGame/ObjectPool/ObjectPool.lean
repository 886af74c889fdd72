import Mathlib.Data.List.Nodup
import WzGame.Util.Runs

/-!
This module contains the pool that the client rents its objects from: which objects are idle is kept in a
table, in a counter and in the list of the keys.
-/

namespace WzGame

open Runs

/--
The keys are the hash codes of the objects, the status of an object says whether it is idle, and
`supporter` is the `Reset` of the objects if their type supports it.
-/
structure ObjectPool (α : Type) where
  minObjCount : Int
  maxObjCount : Int
  shrinkPoint : Int
  hashTableObjs : Int → Option α
  hashTableStatus : Int → Option Bool
  keyList : List Int
  supporter : Option (α → α)
  mIdleObjCount : Int

namespace ObjectPool

variable {α : Type}

-- `shrinkPoint` is `(1 - minNum / maxNum) * minNum` in floating-point arithmetic, as an integer.
def initializePool (supporter : Option (α → α)) (minNum maxNum shrinkPoint : Int) : ObjectPool α where
  minObjCount := if minNum < 1 then 1 else minNum
  maxObjCount := if maxNum < 2 then 2 else maxNum
  shrinkPoint := shrinkPoint
  hashTableObjs := fun _ => none
  hashTableStatus := fun _ => none
  keyList := []
  supporter := supporter
  mIdleObjCount := 0

def curObjCount (pool : ObjectPool α) : Int := pool.keyList.length

def isIdle (pool : ObjectPool α) (key : Int) : Bool := pool.hashTableStatus key = some true

def createOneObject (pool : ObjectPool α) (created : Option (Int × α)) : ObjectPool α × Int :=
  match created with
  | none =>
    ({ pool with
      maxObjCount := pool.curObjCount
      minObjCount := if pool.curObjCount < pool.minObjCount then pool.curObjCount
        else pool.minObjCount }, -1)
  | some (key, obj) =>
    ({ pool with
      hashTableObjs := Function.update pool.hashTableObjs key (some obj)
      hashTableStatus := Function.update pool.hashTableStatus key (some true)
      keyList := pool.keyList ++ [key]
      mIdleObjCount := pool.mIdleObjCount + 1 }, key)

def distroyOneObject (pool : ObjectPool α) (key : Int) : ObjectPool α :=
  { pool with
    mIdleObjCount := if pool.isIdle key then pool.mIdleObjCount - 1 else pool.mIdleObjCount
    hashTableObjs := Function.update pool.hashTableObjs key none
    hashTableStatus := Function.update pool.hashTableStatus key none
    keyList := pool.keyList.erase key }

def lend (pool : ObjectPool α) (key : Int) : ObjectPool α × Option (Int × α) :=
  ({ pool with
    hashTableStatus := Function.update pool.hashTableStatus key (some false)
    mIdleObjCount := pool.mIdleObjCount - 1 }, (pool.hashTableObjs key).map fun obj => (key, obj))

def firstIdle (pool : ObjectPool α) : Option Int := pool.keyList.find? fun key => pool.isIdle key

def rentObject (pool : ObjectPool α) (created : Option (Int × α))
    : ObjectPool α × Option (Int × α) :=
  let (pool, target) :=
    match pool.firstIdle with
    | some key => pool.lend key
    | none => (pool, none)
  if target.isNone ∧ pool.curObjCount < pool.maxObjCount then
    let (pool, key) := pool.createOneObject created
    if key ≠ -1 then pool.lend key else (pool, none)
  else
    (pool, target)

def canShrink (pool : ObjectPool α) : Bool :=
  let idleCount := pool.mIdleObjCount
  let busyCount := pool.curObjCount - idleCount
  busyCount < pool.shrinkPoint
    ∧ pool.minObjCount + (pool.maxObjCount - pool.minObjCount).tdiv 2 < pool.curObjCount

def shrinkLoop : Nat → ObjectPool α → Nat → ObjectPool α
  | 0, pool, _ => pool
  | fuel + 1, pool, index =>
    match pool.keyList[index]? with
    | none => pool
    | some key =>
      let (pool, index) :=
        if pool.isIdle key then (pool.distroyOneObject key, index) else (pool, index + 1)
      if pool.curObjCount ≤ pool.minObjCount then pool else shrinkLoop fuel pool index

def shrink (pool : ObjectPool α) : ObjectPool α := shrinkLoop pool.keyList.length pool 0

def takeBack (pool : ObjectPool α) (objHashCode : Int) : ObjectPool α :=
  { pool with
    hashTableStatus := Function.update pool.hashTableStatus objHashCode (some true)
    mIdleObjCount := pool.mIdleObjCount + 1
    hashTableObjs := Function.update pool.hashTableObjs objHashCode
      ((pool.hashTableObjs objHashCode).map (pool.supporter.getD id)) }

def giveBackObject (pool : ObjectPool α) (objHashCode : Int) : ObjectPool α :=
  if (pool.hashTableStatus objHashCode).isNone then
    pool
  else
    let pool := pool.takeBack objHashCode
    if pool.canShrink then pool.shrink else pool

def restPool (pool : ObjectPool α) : ObjectPool α := pool.shrink

structure Wf (pool : ObjectPool α) : Prop where
  nodup : pool.keyList.Nodup
  objs : ∀ key, (pool.hashTableObjs key).isSome ↔ key ∈ pool.keyList
  status : ∀ key, (pool.hashTableStatus key).isSome ↔ key ∈ pool.keyList
  idle : pool.mIdleObjCount = pool.keyList.countP pool.isIdle

variable {pool : ObjectPool α} {key : Int} {obj : α}

theorem isIdle_iff : pool.isIdle key = true ↔ pool.hashTableStatus key = some true := by
  rw [isIdle, decide_eq_true_iff]

theorem countP_changed {p p' : Int → Bool} {keys : List Int} (hnodup : keys.Nodup) (hmem : key ∈ keys)
    (h : ∀ k, k ≠ key → p' k = p k)
    : keys.countP p' + (p key).toNat = keys.countP p + (p' key).toNat := by
  have hperm := List.perm_cons_erase hmem
  have hrest : (keys.erase key).countP p' = (keys.erase key).countP p := by
    apply List.countP_congr
    intro k hk
    rw [h k (hnodup.mem_erase_iff.mp hk).1]
  rw [hperm.countP_eq, hperm.countP_eq, List.countP_cons, List.countP_cons, hrest]
  cases p key <;> cases p' key <;> simp

theorem isSome_update_iff {γ : Type} {table : Int → Option γ} {keys : List Int} (value : γ)
    (h : ∀ k, (table k).isSome ↔ k ∈ keys) (hmem : key ∈ keys) (k : Int)
    : (Function.update table key (some value) k).isSome ↔ k ∈ keys := by
  by_cases hk : k = key
  . subst hk
    simpa using hmem
  . rw [Function.update_of_ne hk]
    exact h k

theorem isIdle_of_ne {k : Int} (hk : k ≠ key) {status : Option Bool} {pool' : ObjectPool α}
    (h : pool'.hashTableStatus = Function.update pool.hashTableStatus key status)
    : pool'.isIdle k = pool.isIdle k := by
  rw [isIdle, isIdle, h, Function.update_of_ne hk]

theorem Wf.createOneObject (W : pool.Wf) (hkey : key ∉ pool.keyList)
    : (pool.createOneObject (some (key, obj))).1.Wf := by
  have hsome {γ : Type} (table : Int → Option γ) (value : γ)
      (h : ∀ k, (table k).isSome ↔ k ∈ pool.keyList) (k : Int)
      : (Function.update table key (some value) k).isSome ↔ k ∈ pool.keyList ++ [key] := by
    by_cases hk : k = key
    . subst hk
      simp
    . rw [Function.update_of_ne hk, h k]
      simp [hk]
  refine ⟨?_, hsome _ obj W.objs, hsome _ true W.status, ?_⟩
  . refine List.nodup_append.mpr ⟨W.nodup, by simp, ?_⟩
    intro k hk k' hk'
    obtain rfl := List.mem_singleton.mp hk'
    rintro rfl
    exact hkey hk
  . have hold : pool.keyList.countP (pool.createOneObject (some (key, obj))).1.isIdle
        = pool.keyList.countP pool.isIdle := by
      apply List.countP_congr
      intro k hk
      have hne : k ≠ key := by
        rintro rfl
        exact hkey hk
      rw [isIdle_of_ne hne rfl]
    have hnew : (pool.createOneObject (some (key, obj))).1.isIdle key = true := by
      simp [ObjectPool.createOneObject, isIdle]
    simp only [ObjectPool.createOneObject] at hold hnew ⊢
    rw [List.countP_append, hold, List.countP_singleton, hnew, W.idle]
    rfl

theorem Wf.lend (W : pool.Wf) (hmem : key ∈ pool.keyList) (hidle : pool.isIdle key = true)
    : (pool.lend key).1.Wf := by
  refine ⟨W.nodup, W.objs, isSome_update_iff false W.status hmem, ?_⟩
  have hbusy : (pool.lend key).1.isIdle key = false := by
    simp [ObjectPool.lend, isIdle]
  have hcount : pool.keyList.countP (pool.lend key).1.isIdle + 1 = pool.keyList.countP pool.isIdle := by
    have hchanged : pool.keyList.countP (pool.lend key).1.isIdle + (pool.isIdle key).toNat
        = pool.keyList.countP pool.isIdle + ((pool.lend key).1.isIdle key).toNat :=
      countP_changed W.nodup hmem fun k hk => isIdle_of_ne hk rfl
    rwa [hidle, hbusy] at hchanged
  have hold := W.idle
  show pool.mIdleObjCount - 1 = pool.keyList.countP (pool.lend key).1.isIdle
  omega

theorem Wf.takeBack (W : pool.Wf) (hmem : key ∈ pool.keyList) (hbusy : pool.isIdle key = false)
    : (pool.takeBack key).Wf := by
  have hobj : (pool.hashTableObjs key).isSome := (W.objs key).mpr hmem
  obtain ⟨obj, hobj⟩ := Option.isSome_iff_exists.mp hobj
  have hidle : (pool.takeBack key).isIdle key = true := by
    simp [ObjectPool.takeBack, isIdle]
  refine ⟨W.nodup, ?_, isSome_update_iff true W.status hmem, ?_⟩
  . simp only [ObjectPool.takeBack, hobj, Option.map_some]
    exact isSome_update_iff _ W.objs hmem
  . have hcount : pool.keyList.countP (pool.takeBack key).isIdle
        = pool.keyList.countP pool.isIdle + 1 := by
      have hchanged : pool.keyList.countP (pool.takeBack key).isIdle + (pool.isIdle key).toNat
          = pool.keyList.countP pool.isIdle + ((pool.takeBack key).isIdle key).toNat :=
        countP_changed W.nodup hmem fun k hk => isIdle_of_ne hk rfl
      rwa [hidle, hbusy] at hchanged
    have hold := W.idle
    show pool.mIdleObjCount + 1 = pool.keyList.countP (pool.takeBack key).isIdle
    omega

theorem Wf.distroyOneObject (W : pool.Wf) (hmem : key ∈ pool.keyList) (hidle : pool.isIdle key = true)
    : (pool.distroyOneObject key).Wf := by
  have hnone {γ : Type} (table : Int → Option γ) (h : ∀ k, (table k).isSome ↔ k ∈ pool.keyList)
      (k : Int)
      : (Function.update table key none k).isSome ↔ k ∈ pool.keyList.erase key := by
    rw [W.nodup.mem_erase_iff]
    by_cases hk : k = key
    . subst hk
      simp
    . rw [Function.update_of_ne hk, h k]
      simp [hk]
  refine ⟨W.nodup.erase key, hnone _ W.objs, hnone _ W.status, ?_⟩
  have hrest : (pool.keyList.erase key).countP (pool.distroyOneObject key).isIdle
      = (pool.keyList.erase key).countP pool.isIdle := by
    apply List.countP_congr
    intro k hk
    rw [isIdle_of_ne (W.nodup.mem_erase_iff.mp hk).1 rfl]
  have hcount : pool.keyList.countP pool.isIdle = (pool.keyList.erase key).countP pool.isIdle + 1 := by
    rw [(List.perm_cons_erase hmem).countP_eq, List.countP_cons, if_pos hidle]
  have hold := W.idle
  show (if pool.isIdle key then pool.mIdleObjCount - 1 else pool.mIdleObjCount)
    = (pool.keyList.erase key).countP (pool.distroyOneObject key).isIdle
  rw [if_pos hidle]
  omega

structure Shrinks (pool pool' : ObjectPool α) : Prop where
  minObjCount : pool'.minObjCount = pool.minObjCount
  maxObjCount : pool'.maxObjCount = pool.maxObjCount
  supporter : pool'.supporter = pool.supporter
  sublist : pool'.keyList.Sublist pool.keyList
  destroyed : ∀ key ∈ pool.keyList, key ∉ pool'.keyList → pool.isIdle key = true
  objs : ∀ key ∈ pool'.keyList, pool'.hashTableObjs key = pool.hashTableObjs key
  status : ∀ key ∈ pool'.keyList, pool'.hashTableStatus key = pool.hashTableStatus key

theorem Shrinks.refl (pool : ObjectPool α) : Shrinks pool pool :=
  ⟨rfl, rfl, rfl, .refl _, fun _ hmem hnot => absurd hmem hnot, fun _ _ => rfl, fun _ _ => rfl⟩

theorem Shrinks.trans {pool₁ pool₂ pool₃ : ObjectPool α} (S : Shrinks pool₁ pool₂)
    (S' : Shrinks pool₂ pool₃)
    : Shrinks pool₁ pool₃ where
  minObjCount := S'.minObjCount.trans S.minObjCount
  maxObjCount := S'.maxObjCount.trans S.maxObjCount
  supporter := S'.supporter.trans S.supporter
  sublist := S'.sublist.trans S.sublist
  destroyed := by
    intro key hmem hnot
    by_cases hkey : key ∈ pool₂.keyList
    . have hidle := S'.destroyed key hkey hnot
      rwa [isIdle_iff, S.status key hkey, ← isIdle_iff] at hidle
    . exact S.destroyed key hmem hkey
  objs := fun key hmem => (S'.objs key hmem).trans (S.objs key (S'.sublist.subset hmem))
  status := fun key hmem => (S'.status key hmem).trans (S.status key (S'.sublist.subset hmem))

theorem shrinks_distroyOneObject (W : pool.Wf) (hidle : pool.isIdle key = true)
    : Shrinks pool (pool.distroyOneObject key) := by
  have hother {γ : Type} (table : Int → Option γ) (k : Int) (hk : k ∈ pool.keyList.erase key)
      : Function.update table key none k = table k :=
    Function.update_of_ne (W.nodup.mem_erase_iff.mp hk).1 _ _
  refine ⟨rfl, rfl, rfl, List.erase_sublist, ?_, hother _, hother _⟩
  intro k hmem hnot
  by_cases hk : k = key
  . rwa [hk]
  . exact absurd (W.nodup.mem_erase_iff.mpr ⟨hk, hmem⟩) hnot

theorem curObjCount_distroyOneObject (hmem : key ∈ pool.keyList)
    : (pool.distroyOneObject key).curObjCount + 1 = pool.curObjCount := by
  have hlength := List.length_erase_add_one hmem
  show ((pool.keyList.erase key).length : Int) + 1 = pool.keyList.length
  omega

theorem shrinkLoop_idle {fuel index : Nat} (hkey : pool.keyList[index]? = some key)
    (hidle : pool.isIdle key = true)
    : shrinkLoop (fuel + 1) pool index
      = if (pool.distroyOneObject key).curObjCount ≤ pool.minObjCount then pool.distroyOneObject key
        else shrinkLoop fuel (pool.distroyOneObject key) index := by
  simp only [shrinkLoop, hkey, hidle, if_true]
  rfl

theorem shrinkLoop_busy {fuel index : Nat} (hkey : pool.keyList[index]? = some key)
    (hbusy : ¬ pool.isIdle key = true)
    : shrinkLoop (fuel + 1) pool index
      = if pool.curObjCount ≤ pool.minObjCount then pool else shrinkLoop fuel pool (index + 1) := by
  simp only [shrinkLoop, hkey, hbusy]
  rfl

theorem shrinkLoop_end {fuel index : Nat} (hkey : pool.keyList[index]? = none)
    : shrinkLoop (fuel + 1) pool index = pool := by
  simp only [shrinkLoop, hkey]

theorem shrinkLoop_spec {fuel index : Nat} (W : pool.Wf)
    : (shrinkLoop fuel pool index).Wf ∧ Shrinks pool (shrinkLoop fuel pool index)
        ∧ (pool.minObjCount < pool.curObjCount
          → pool.minObjCount ≤ (shrinkLoop fuel pool index).curObjCount) := by
  induction fuel generalizing pool index with
  | zero => exact ⟨W, .refl pool, Int.le_of_lt⟩
  | succ fuel ih =>
    cases hkey : pool.keyList[index]? with
    | none =>
      rw [shrinkLoop_end hkey]
      exact ⟨W, .refl pool, Int.le_of_lt⟩
    | some key =>
      have hmem := List.mem_of_getElem? hkey
      by_cases hidle : pool.isIdle key = true
      . have W' := W.distroyOneObject hmem hidle
        have S := shrinks_distroyOneObject W hidle
        have hcount := curObjCount_distroyOneObject hmem
        rw [shrinkLoop_idle hkey hidle]
        split
        . exact ⟨W', S, fun h => by omega⟩
        . obtain ⟨W'', S', hmin⟩ := @ih (pool.distroyOneObject key) index W'
          rw [S.minObjCount] at hmin
          exact ⟨W'', S.trans S', fun _ => hmin (by omega)⟩
      . rw [shrinkLoop_busy hkey hidle]
        split
        . exact ⟨W, .refl pool, Int.le_of_lt⟩
        . exact ih W

theorem busy_of_passed {index : Nat} (hlength : pool.keyList.length ≤ index)
    (hbusy : ∀ i < index, ∀ key, pool.keyList[i]? = some key → pool.isIdle key = false)
    : ∀ key ∈ pool.keyList, pool.isIdle key = false := by
  intro key hmem
  obtain ⟨i, hi, rfl⟩ := List.getElem_of_mem hmem
  exact hbusy i (by omega) _ (List.getElem?_eq_getElem hi)

theorem shrinkLoop_stops {fuel index : Nat} (W : pool.Wf)
    (hbusy : ∀ i < index, ∀ key, pool.keyList[i]? = some key → pool.isIdle key = false)
    (hfuel : pool.keyList.length ≤ index + fuel)
    : (shrinkLoop fuel pool index).curObjCount ≤ (shrinkLoop fuel pool index).minObjCount
        ∨ ∀ key ∈ (shrinkLoop fuel pool index).keyList,
          (shrinkLoop fuel pool index).isIdle key = false := by
  induction fuel generalizing pool index with
  | zero => exact .inr (busy_of_passed hfuel hbusy)
  | succ fuel ih =>
    cases hkey : pool.keyList[index]? with
    | none =>
      rw [shrinkLoop_end hkey]
      exact .inr (busy_of_passed (List.getElem?_eq_none_iff.mp hkey) hbusy)
    | some key =>
      have hmem := List.mem_of_getElem? hkey
      obtain ⟨hindex, heq⟩ := List.getElem?_eq_some_iff.mp hkey
      by_cases hidle : pool.isIdle key = true
      . rw [shrinkLoop_idle hkey hidle]
        split
        . next hstop => exact .inl hstop
        . have herase : pool.keyList.erase key = pool.keyList.eraseIdx index := by
            rw [← heq, W.nodup.erase_getElem]
          have hlength := List.length_erase_of_mem hmem
          refine ih (W.distroyOneObject hmem hidle) ?_ ?_
          . intro i hi k hk
            have hmem' : k ∈ pool.keyList.erase key := List.mem_of_getElem? hk
            simp only [distroyOneObject, herase, List.getElem?_eraseIdx_of_lt hi] at hk
            rw [isIdle_of_ne (W.nodup.mem_erase_iff.mp hmem').1 rfl]
            exact hbusy i hi k hk
          . show (pool.keyList.erase key).length ≤ index + fuel
            omega
      . rw [shrinkLoop_busy hkey hidle]
        split
        . next hstop => exact .inl hstop
        . refine ih W ?_ (by omega)
          intro i hi k hk
          by_cases hlast : i = index
          . subst hlast
            rw [hkey] at hk
            obtain rfl := Option.some.inj hk
            exact Bool.eq_false_iff.mpr hidle
          . exact hbusy i (by omega) k hk

theorem shrink_stops (W : pool.Wf)
    : pool.shrink.curObjCount ≤ pool.shrink.minObjCount
        ∨ ∀ key ∈ pool.shrink.keyList, pool.shrink.isIdle key = false :=
  shrinkLoop_stops W (fun _ hi => absurd hi (Nat.not_lt_zero _)) (by omega)

theorem wf_initializePool {supporter : Option (α → α)} {minNum maxNum shrinkPoint : Int}
    : (initializePool supporter minNum maxNum shrinkPoint).Wf where
  nodup := List.nodup_nil
  objs := by simp [initializePool]
  status := by simp [initializePool]
  idle := rfl

theorem Wf.exists_obj (W : pool.Wf) (hmem : key ∈ pool.keyList)
    : ∃ obj, pool.hashTableObjs key = some obj :=
  Option.isSome_iff_exists.mp ((W.objs key).mpr hmem)

theorem firstIdle_spec (h : pool.firstIdle = some key)
    : key ∈ pool.keyList ∧ pool.isIdle key = true :=
  ⟨List.mem_of_find?_eq_some h, by simpa using List.find?_some h⟩

theorem rentObject_cases (W : pool.Wf) (key : Int) (obj : α)
    : (∃ k o, pool.firstIdle = some k ∧ pool.hashTableObjs k = some o
          ∧ pool.rentObject (some (key, obj)) = ((pool.lend k).1, some (k, o)))
        ∨ pool.firstIdle = none
          ∧ (pool.maxObjCount ≤ pool.curObjCount ∧ pool.rentObject (some (key, obj)) = (pool, none)
            ∨ pool.curObjCount < pool.maxObjCount
              ∧ pool.rentObject (some (key, obj))
                = if key = -1 then ((pool.createOneObject (some (key, obj))).1, none)
                  else (((pool.createOneObject (some (key, obj))).1.lend key).1, some (key, obj))) := by
  cases hfirst : pool.firstIdle with
  | some k =>
    obtain ⟨hmem, hidle⟩ := firstIdle_spec hfirst
    obtain ⟨o, ho⟩ := W.exists_obj hmem
    refine .inl ⟨k, o, rfl, ho, ?_⟩
    simp [rentObject, hfirst, lend, ho]
  | none =>
    refine .inr ⟨rfl, ?_⟩
    by_cases hlt : pool.curObjCount < pool.maxObjCount
    . refine .inr ⟨hlt, ?_⟩
      simp only [rentObject, hfirst, Option.isNone_none, hlt, and_self, if_true, ne_eq]
      by_cases hkey : key = -1
      . simp [createOneObject, hkey]
      . simp [createOneObject, lend, hkey]
    . refine .inl ⟨by omega, ?_⟩
      simp [rentObject, hfirst, hlt]

theorem shrink_spec (W : pool.Wf)
    : pool.shrink.Wf ∧ Shrinks pool pool.shrink
        ∧ (pool.minObjCount < pool.curObjCount → pool.minObjCount ≤ pool.shrink.curObjCount) :=
  shrinkLoop_spec W

theorem minObjCount_lt_of_canShrink (hle : pool.minObjCount ≤ pool.maxObjCount)
    (h : pool.canShrink = true)
    : pool.minObjCount < pool.curObjCount := by
  rw [canShrink, decide_eq_true_iff] at h
  have hpos : 0 ≤ (pool.maxObjCount - pool.minObjCount).tdiv 2 := Int.tdiv_nonneg (by omega) (by omega)
  omega

theorem giveBackObject_eq (hbusy : pool.hashTableStatus key = some false)
    : pool.giveBackObject key
      = if (pool.takeBack key).canShrink then (pool.takeBack key).shrink else pool.takeBack key := by
  simp [giveBackObject, hbusy]

theorem Wf.takeBack_of_busy (W : pool.Wf) (hbusy : pool.hashTableStatus key = some false)
    : (pool.takeBack key).Wf :=
  W.takeBack ((W.status key).mp (by simp [hbusy])) (by simp [isIdle, hbusy])

theorem giveBackObject_spec (W : pool.Wf) (hbusy : pool.hashTableStatus key = some false)
    : (pool.giveBackObject key).Wf ∧ Shrinks (pool.takeBack key) (pool.giveBackObject key) := by
  have W' := W.takeBack_of_busy hbusy
  rw [giveBackObject_eq hbusy]
  split
  . obtain ⟨W'', S, -⟩ := shrink_spec W'
    exact ⟨W'', S⟩
  . exact ⟨W', .refl _⟩

theorem minObjCount_le_giveBackObject (W : pool.Wf) (hbusy : pool.hashTableStatus key = some false)
    (hle : pool.minObjCount ≤ pool.maxObjCount) (h : (pool.takeBack key).canShrink = true)
    : pool.minObjCount ≤ (pool.giveBackObject key).curObjCount := by
  obtain ⟨-, -, hmin⟩ := shrink_spec (W.takeBack_of_busy hbusy)
  rw [giveBackObject_eq hbusy, if_pos h]
  exact hmin (minObjCount_lt_of_canShrink hle h)

structure State (α : Type) where
  pool : ObjectPool α
  lent : List Int

inductive Action (α : Type) where
  | rentObject (key : Int) (obj : α)
  | giveBackObject (objHashCode : Int)
  | restPool

def start (supporter : Option (α → α)) (minNum maxNum shrinkPoint : Int) : State α :=
  ⟨initializePool supporter minNum maxNum shrinkPoint, []⟩

def step (s : State α) : Action α → Option (State α)
  | .rentObject key obj =>
    if key ∈ s.pool.keyList then
      none
    else
      let (pool, target) := s.pool.rentObject (some (key, obj))
      some ⟨pool, s.lent ++ (target.map Prod.fst).toList⟩
  | .giveBackObject objHashCode =>
    if objHashCode ∈ s.lent then
      some ⟨s.pool.giveBackObject objHashCode, s.lent.erase objHashCode⟩
    else
      none
  | .restPool => some { s with pool := s.pool.restPool }

/--
The three records of the idle objects agree, the objects that are lent are those that are not idle, and
no object is lent twice. The pool has as many objects as it may have, destroys none but idle ones, and
keeps the smallest number of them when it shrinks because one is given back.
-/
structure Sound (s : State α) (minNum maxNum : Int) : Prop where
  idle : s.pool.mIdleObjCount = s.pool.keyList.countP s.pool.isIdle
  keyList : s.pool.keyList.Nodup
  objs : ∀ key, (s.pool.hashTableObjs key).isSome ↔ key ∈ s.pool.keyList
  status : ∀ key, (s.pool.hashTableStatus key).isSome ↔ key ∈ s.pool.keyList
  lent : s.lent.Nodup
  busy : ∀ key, key ∈ s.lent ↔ s.pool.hashTableStatus key = some false
  curObjCount : s.pool.curObjCount ≤ maxNum
  rest : ∀ key ∈ s.pool.keyList, key ∉ s.pool.restPool.keyList → s.pool.isIdle key = true
  destroyed : ∀ key ∈ s.lent, ∀ k ∈ s.pool.keyList, k ∉ (s.pool.giveBackObject key).keyList
    → (s.pool.takeBack key).isIdle k = true
  left : ∀ key ∈ s.lent, (s.pool.takeBack key).canShrink = true
    → minNum ≤ (s.pool.giveBackObject key).curObjCount

variable {s s' : State α} {minNum maxNum : Int} {a : Action α}

structure Inv (s : State α) (minNum maxNum : Int) : Prop where
  wf : s.pool.Wf
  lent : s.lent.Nodup
  busy : ∀ key, key ∈ s.lent ↔ s.pool.hashTableStatus key = some false
  minObjCount : s.pool.minObjCount = minNum
  maxObjCount : s.pool.maxObjCount = maxNum
  curObjCount : s.pool.curObjCount ≤ maxNum

theorem inv_start {supporter : Option (α → α)} {shrinkPoint : Int} (hmin : 1 ≤ minNum)
    : Inv (start supporter minNum maxNum shrinkPoint) minNum (max maxNum 2) where
  wf := wf_initializePool
  lent := List.nodup_nil
  busy := by simp [start, initializePool]
  minObjCount := if_neg (by omega)
  maxObjCount := by
    show (if maxNum < 2 then 2 else maxNum) = max maxNum 2
    omega
  curObjCount := by
    show (0 : Int) ≤ max maxNum 2
    omega

theorem Inv.lend (I : Inv s minNum maxNum) {pool : ObjectPool α} (W : pool.Wf)
    (hmem : key ∈ pool.keyList) (hidle : pool.isIdle key = true)
    (hbusy : ∀ k, pool.hashTableStatus k = some false ↔ s.pool.hashTableStatus k = some false)
    (hmin : pool.minObjCount = minNum) (hmax : pool.maxObjCount = maxNum)
    (hcur : pool.curObjCount ≤ maxNum)
    : Inv ⟨(pool.lend key).1, s.lent ++ [key]⟩ minNum maxNum := by
  have hnot : key ∉ s.lent := by
    rw [I.busy key, ← hbusy key, isIdle_iff.mp hidle]
    simp
  refine ⟨W.lend hmem hidle, ?_, ?_, hmin, hmax, hcur⟩
  . refine List.nodup_append.mpr ⟨I.lent, by simp, ?_⟩
    rintro k hk k' hk' rfl
    obtain rfl := List.mem_singleton.mp hk'
    exact hnot hk
  . intro k
    rw [List.mem_append, List.mem_singleton, I.busy k, ← hbusy k]
    by_cases hk : k = key
    . subst hk
      simp [ObjectPool.lend]
    . simp [ObjectPool.lend, hk]

theorem Inv.createOneObject (I : Inv s minNum maxNum) (hkey : key ∉ s.pool.keyList)
    (hlt : s.pool.curObjCount < s.pool.maxObjCount)
    : Inv { s with pool := (s.pool.createOneObject (some (key, obj))).1 } minNum maxNum := by
  have hnone : s.pool.hashTableStatus key = none :=
    Option.not_isSome_iff_eq_none.mp (mt (I.wf.status key).mp hkey)
  refine ⟨I.wf.createOneObject hkey, I.lent, fun k => ?_, I.minObjCount, I.maxObjCount, ?_⟩
  . rw [I.busy k]
    by_cases hk : k = key
    . subst hk
      simp [ObjectPool.createOneObject, hnone]
    . simp [ObjectPool.createOneObject, hk]
  . rw [I.maxObjCount] at hlt
    have hcount : (s.pool.keyList ++ [key]).length = s.pool.keyList.length + 1 := List.length_append
    have hlt' : (s.pool.keyList.length : Int) < maxNum := hlt
    show ((s.pool.keyList ++ [key]).length : Int) ≤ maxNum
    omega

theorem Inv.rentObject (I : Inv s minNum maxNum) (hkey : key ∉ s.pool.keyList)
    : Inv ⟨(s.pool.rentObject (some (key, obj))).1,
        s.lent ++ ((s.pool.rentObject (some (key, obj))).2.map Prod.fst).toList⟩ minNum maxNum := by
  rcases rentObject_cases I.wf key obj
    with ⟨k, o, hfirst, -, hrent⟩ | ⟨-, ⟨-, hrent⟩ | ⟨hlt, hrent⟩⟩
  . obtain ⟨hmem, hidle⟩ := firstIdle_spec hfirst
    rw [hrent]
    exact I.lend I.wf hmem hidle (fun _ => Iff.rfl) I.minObjCount I.maxObjCount I.curObjCount
  . rw [hrent]
    simpa using I
  . have I' : Inv { s with pool := (s.pool.createOneObject (some (key, obj))).1 } minNum maxNum :=
      I.createOneObject hkey hlt
    rw [hrent]
    split
    . simpa using I'
    . refine I'.lend I'.wf ?_ ?_ (fun _ => Iff.rfl) I'.minObjCount I'.maxObjCount I'.curObjCount
      . simp [ObjectPool.createOneObject]
      . simp [ObjectPool.createOneObject, isIdle]

theorem Inv.shrinks (I : Inv s minNum maxNum) {pool : ObjectPool α} (W : pool.Wf)
    (S : Shrinks s.pool pool)
    : Inv { s with pool } minNum maxNum := by
  have hlength := S.sublist.length_le
  have hcur := I.curObjCount
  refine ⟨W, I.lent, fun k => ?_, S.minObjCount.trans I.minObjCount, S.maxObjCount.trans I.maxObjCount,
    ?_⟩
  . rw [I.busy k]
    by_cases hk : k ∈ pool.keyList
    . rw [S.status k hk]
    . have hnone := mt (W.status k).mp hk
      have hnot : ¬ s.pool.hashTableStatus k = some false := by
        intro hbusy
        have hidle := S.destroyed k ((I.wf.status k).mp (by simp [hbusy])) hk
        rw [isIdle_iff, hbusy] at hidle
        contradiction
      simp only [hnot, false_iff]
      rw [Option.not_isSome_iff_eq_none.mp hnone]
      simp
  . show (pool.keyList.length : Int) ≤ maxNum
    have hcur' : (s.pool.keyList.length : Int) ≤ maxNum := hcur
    omega

theorem Inv.takeBack (I : Inv s minNum maxNum) (hmem : key ∈ s.lent)
    : Inv ⟨s.pool.takeBack key, s.lent.erase key⟩ minNum maxNum := by
  refine ⟨I.wf.takeBack_of_busy ((I.busy key).mp hmem), I.lent.erase key, fun k => ?_, I.minObjCount,
    I.maxObjCount, I.curObjCount⟩
  rw [I.lent.mem_erase_iff, I.busy k]
  by_cases hk : k = key
  . subst hk
    simp [ObjectPool.takeBack]
  . simp [ObjectPool.takeBack, hk]

theorem Inv.mem_keyList (I : Inv s minNum maxNum) (hmem : key ∈ s.lent) : key ∈ s.pool.keyList :=
  (I.wf.status key).mp (by simp [(I.busy key).mp hmem])

theorem Inv.giveBackObject (I : Inv s minNum maxNum) (hmem : key ∈ s.lent)
    : Inv ⟨s.pool.giveBackObject key, s.lent.erase key⟩ minNum maxNum := by
  obtain ⟨W, S⟩ := giveBackObject_spec I.wf ((I.busy key).mp hmem)
  exact (I.takeBack hmem).shrinks W S

theorem Inv.step (I : Inv s minNum maxNum) (h : ObjectPool.step s a = some s')
    : Inv s' minNum maxNum := by
  cases a with
  | rentObject key obj =>
    simp only [ObjectPool.step] at h
    split at h
    . contradiction
    . next hkey =>
      obtain rfl := Option.some.inj h
      exact I.rentObject hkey
  | giveBackObject key =>
    simp only [ObjectPool.step] at h
    split at h
    . next hmem =>
      obtain rfl := Option.some.inj h
      exact I.giveBackObject hmem
    . contradiction
  | restPool =>
    obtain rfl := Option.some.inj h
    obtain ⟨W, S, -⟩ := shrink_spec I.wf
    exact I.shrinks W S

theorem Inv.sound (I : Inv s minNum maxNum) (hle : minNum ≤ maxNum) : Sound s minNum maxNum where
  idle := I.wf.idle
  keyList := I.wf.nodup
  objs := I.wf.objs
  status := I.wf.status
  lent := I.lent
  busy := I.busy
  curObjCount := I.curObjCount
  rest := (shrink_spec I.wf).2.1.destroyed
  destroyed := fun key hmem => (giveBackObject_spec I.wf ((I.busy key).mp hmem)).2.destroyed
  left := by
    intro key hmem hshrink
    have hle' : s.pool.minObjCount ≤ s.pool.maxObjCount := by
      rwa [I.minObjCount, I.maxObjCount]
    exact I.minObjCount ▸ minObjCount_le_giveBackObject I.wf ((I.busy key).mp hmem) hle' hshrink

/-- A pool may have two objects even if only one of them is wanted. -/
theorem pool_sound_of_run {supporter : Option (α → α)} {shrinkPoint : Int} {as : List (Action α)}
    (hmin : 1 ≤ minNum) (hle : minNum ≤ maxNum)
    (hrun : Run (stepOf step) anyLabel (start supporter minNum maxNum shrinkPoint) as s)
    : Sound s minNum (max maxNum 2) := by
  have I := hrun.invariant (fun s => Inv s minNum (max maxNum 2)) (inv_start hmin)
    fun _ _ _ I _ hstep => I.step hstep
  exact I.sound (by omega)

def lentAndShrunk : List (Action Nat) :=
  [.rentObject 5 0, .rentObject 6 0, .rentObject 7 0, .rentObject 8 0, .giveBackObject 5,
    .giveBackObject 6, .giveBackObject 7, .giveBackObject 8]

theorem pool_sound_of_run_lentAndShrunk
    : ∃ s, Run (stepOf step) anyLabel (start none 2 4 1) lentAndShrunk s ∧ s.pool.keyList = [7, 8]
        ∧ Sound s 2 (max 4 2) := by
  obtain ⟨s, hrun, hkeys⟩ : ∃ s, Run (stepOf step) anyLabel (start none 2 4 1) lentAndShrunk s
      ∧ s.pool.keyList = [7, 8] := Run.exists_of_foldlM (by decide)
  exact ⟨s, hrun, hkeys, pool_sound_of_run (by decide) (by decide) hrun⟩

theorem curObjCount_counterexample
    : ∃ s : State Nat, Run (stepOf step) anyLabel (start none 1 1 0) [.rentObject 5 0, .rentObject 6 0] s
        ∧ s.lent = [5, 6] ∧ ¬ s.pool.curObjCount ≤ 1 :=
  Run.exists_of_foldlM (by decide)

end ObjectPool

end WzGame
