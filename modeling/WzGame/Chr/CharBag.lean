import WzGame.Util.Runs
import Mathlib.Logic.Function.Basic
import Mathlib.Algebra.Ring.Int.Defs
import Mathlib.Data.Int.Order.Basic

/-!
This module contains the counts that are kept by `Map.merge`: the items of a bag and the attributes of an entity,
next to the sums that are expected of them.
-/

namespace WzGame

open Runs

abbrev HashMap (κ ν : Type) := κ → Option ν

namespace HashMap

variable {κ ν : Type} [DecidableEq κ]

-- `merge` with a function that never returns `null`: it is not asked about a key that is absent.
def merge (map : HashMap κ ν) (key : κ) (value : ν) (remapping : Option ν → ν → ν) : HashMap κ ν :=
  Function.update map key <| some <|
    match map key with
    | none => value
    | some old => remapping (some old) value

def count [Zero ν] (map : HashMap κ ν) (key : κ) : ν := (map key).getD 0

theorem merge_of_none {map : HashMap κ ν} {key : κ} {value : ν} {remapping : Option ν → ν → ν}
    (h : map key = none)
    : map.merge key value remapping = Function.update map key (some value) := by
  simp [merge, h]

theorem merge_of_some {map : HashMap κ ν} {key : κ} {value old : ν} {remapping : Option ν → ν → ν}
    (h : map key = some old)
    : map.merge key value remapping = Function.update map key (some (remapping (some old) value)) := by
  simp [merge, h]

variable [Zero ν] {τ : Type} {map : HashMap κ ν} {expected : κ → τ} {key : κ}

theorem count_update_iff (val : ν → τ) (h : ∀ k, val (map.count k) = expected k) (value : ν) (sum : τ)
    : (∀ k, val (count (Function.update map key (some value)) k) = Function.update expected key sum k)
        ↔ val value = sum := by
  constructor
  . intro hafter
    simpa [count] using hafter key
  . intro hval k
    by_cases hk : k = key
    . simp [count, hk, hval]
    . simpa [count, hk] using h k

end HashMap

structure CharBag where
  itemMap : HashMap Int32 Int32

namespace CharBag

def new : CharBag := ⟨fun _ => none⟩

def addItem (bag : CharBag) (id count : Int32) : CharBag :=
  ⟨bag.itemMap.merge id count fun e f =>
    match e with
    | none => 0
    | some e => e + f⟩

def removeItem (bag : CharBag) (id count : Int32) : CharBag :=
  ⟨bag.itemMap.merge id count fun e f =>
    match e with
    | none => 0
    | some e => if f < e then e - f else 0⟩

inductive Op where
  | addItem (id count : Int32)
  | removeItem (id count : Int32)
deriving DecidableEq

structure Ledger where
  bag : CharBag
  expected : Int32 → Int

namespace Ledger

def new : Ledger := ⟨.new, fun _ => 0⟩

def step (s : Ledger) : Op → Option Ledger
  | .addItem id count =>
    if 0 < count.toInt ∧ s.expected id + count.toInt < 2 ^ 31 then
      some ⟨s.bag.addItem id count, Function.update s.expected id (s.expected id + count.toInt)⟩
    else
      none
  | .removeItem id count =>
    if 0 < count.toInt then
      some ⟨s.bag.removeItem id count, Function.update s.expected id (max 0 (s.expected id - count.toInt))⟩
    else
      none

def Holds (s : Ledger) : Prop := ∀ id, (s.bag.itemMap.count id).toInt = s.expected id

def Present (s : Ledger) : Op → Prop
  | .addItem _ _ => True
  | .removeItem id _ => s.bag.itemMap id ≠ none

def Inv (s : Ledger) : Prop := ∀ id, 0 ≤ s.expected id

variable {s s' : Ledger} {op : Op}

theorem toInt_add {a b : Int32} (ha : 0 ≤ a.toInt) (hb : 0 ≤ b.toInt) (hsum : a.toInt + b.toInt < 2 ^ 31)
    : (a + b).toInt = a.toInt + b.toInt := by
  rw [Int32.toInt_add]
  apply Int.bmod_eq_of_le <;> omega

theorem toInt_sub {a b : Int32} (hb : 0 ≤ b.toInt) (hle : b.toInt ≤ a.toInt)
    : (a - b).toInt = a.toInt - b.toInt := by
  have ha := a.toInt_lt
  rw [Int32.toInt_sub]
  apply Int.bmod_eq_of_le <;> omega

theorem inv_step (hinv : s.Inv) (hstep : s.step op = some s') : s'.Inv := by
  cases op with
  | addItem id count =>
    rw [step] at hstep
    split at hstep
    . next hcount =>
      obtain rfl := Option.some.inj hstep
      intro id'
      have hid := hinv id
      by_cases hid' : id' = id
      . simp [hid']
        omega
      . simpa [hid'] using hinv id'
    . contradiction
  | removeItem id count =>
    rw [step] at hstep
    split at hstep
    . obtain rfl := Option.some.inj hstep
      intro id'
      by_cases hid' : id' = id
      . simp only [hid', Function.update_self]
        exact Int.le_max_left 0 _
      . simpa [hid'] using hinv id'
    . contradiction

theorem holds_addItem {id count : Int32} (hinv : s.Inv) (h : s.Holds)
    (hstep : s.step (.addItem id count) = some s')
    : s'.Holds := by
  rw [step] at hstep
  split at hstep
  . next hcount =>
    obtain rfl := Option.some.inj hstep
    have hid := h id
    have hpos := hinv id
    cases hmap : s.bag.itemMap id with
    | none =>
      rw [Holds, addItem, HashMap.merge_of_none hmap]
      apply (HashMap.count_update_iff Int32.toInt h _ _).mpr
      rw [← hid]
      simp [HashMap.count, hmap]
    | some old =>
      have hold : old.toInt = s.expected id := by simpa [HashMap.count, hmap] using hid
      rw [Holds, addItem, HashMap.merge_of_some hmap]
      apply (HashMap.count_update_iff Int32.toInt h _ _).mpr
      rw [toInt_add (by omega) (by omega) (by omega), hold]
  . contradiction

theorem holds_removeItem_iff {id count : Int32} (h : s.Holds)
    (hstep : s.step (.removeItem id count) = some s')
    : s'.Holds ↔ s.bag.itemMap id ≠ none := by
  rw [step] at hstep
  split at hstep
  . next hcount =>
    obtain rfl := Option.some.inj hstep
    have hid := h id
    cases hmap : s.bag.itemMap id with
    | none =>
      have hzero : s.expected id = 0 := by simpa [HashMap.count, hmap] using hid.symm
      rw [Holds, removeItem, HashMap.merge_of_none hmap]
      -- The count itself is stored, so the items that were to be removed are in the bag afterwards.
      rw [HashMap.count_update_iff Int32.toInt h, hzero]
      simp
      omega
    | some old =>
      have hold : old.toInt = s.expected id := by simpa [HashMap.count, hmap] using hid
      rw [Holds, removeItem, HashMap.merge_of_some hmap]
      rw [HashMap.count_update_iff Int32.toInt h, ← hold]
      simp only [ne_eq, reduceCtorEq, not_false_eq_true, iff_true]
      split
      . next hlt =>
        have hlt := Int32.lt_iff_toInt_lt.mp hlt
        rw [toInt_sub (by omega) (by omega)]
        omega
      . next hle =>
        have hle : old.toInt ≤ count.toInt := by simpa [Int32.lt_iff_toInt_lt] using hle
        rw [Int32.toInt_zero]
        omega
  . contradiction

theorem holds_iff_present {ops : List Op}
    : Run (stepOf step) (fun s _ => s.Holds) new ops s ∧ s.Holds ↔ Run (stepOf step) Present new ops s := by
  apply holds_iff Inv Holds ⟨fun _ => Int.le_refl _, fun _ => rfl⟩
  . intro s op s' hinv _ _ hstep
    exact inv_step hinv hstep
  . intro s op s' hinv h hstep
    cases op with
    | addItem id count => exact iff_of_true (holds_addItem hinv h hstep) trivial
    | removeItem id count => exact holds_removeItem_iff h hstep

end Ledger

end CharBag

structure AttrEntity (α : Type) where
  attrMap : HashMap α Int32

namespace AttrEntity

variable {α : Type} [DecidableEq α]

def new : AttrEntity α := ⟨fun _ => none⟩

def addAttribute (entity : AttrEntity α) (type : α) (value : Int32) : AttrEntity α :=
  ⟨entity.attrMap.merge type value fun e f =>
    match e with
    | none => f
    | some e => e + f⟩

def getAttributeValue (entity : AttrEntity α) (type : α) : Int32 := entity.attrMap.count type

def reduceAttribute (entity : AttrEntity α) (type : α) (value : Int32) : AttrEntity α :=
  ⟨entity.attrMap.merge type value fun e f =>
    match e with
    | none => -f
    | some e => e - f⟩

def clearAttribute (_ : AttrEntity α) : AttrEntity α := ⟨fun _ => none⟩

inductive Op (α : Type) where
  | addAttribute (type : α) (value : Int32)
  | reduceAttribute (type : α) (value : Int32)
  | clearAttribute

-- an entity and the sum that is expected of each attribute, which is an `int` as well
structure Ledger (α : Type) where
  entity : AttrEntity α
  expected : α → Int32

namespace Ledger

def new : Ledger α := ⟨.new, fun _ => 0⟩

def step (s : Ledger α) : Op α → Option (Ledger α)
  | .addAttribute type value =>
    some ⟨s.entity.addAttribute type value, Function.update s.expected type (s.expected type + value)⟩
  | .reduceAttribute type value =>
    some ⟨s.entity.reduceAttribute type value, Function.update s.expected type (s.expected type - value)⟩
  | .clearAttribute => some ⟨s.entity.clearAttribute, fun _ => 0⟩

def Holds (s : Ledger α) : Prop := ∀ type, s.entity.getAttributeValue type = s.expected type

def Present (s : Ledger α) : Op α → Prop
  | .addAttribute _ _ => True
  | .reduceAttribute type value => s.entity.attrMap type ≠ none ∨ value = -value
  | .clearAttribute => True

variable {s s' : Ledger α} {type : α} {value : Int32}

theorem holds_addAttribute (h : s.Holds) (hstep : s.step (.addAttribute type value) = some s') : s'.Holds := by
  obtain rfl := Option.some.inj hstep
  have htype := h type
  apply (HashMap.count_update_iff id h _ _).mpr
  cases hmap : s.entity.attrMap type with
  | none =>
    rw [← htype]
    simp [getAttributeValue, HashMap.count, hmap]
  | some old =>
    rw [← htype]
    simp [getAttributeValue, HashMap.count, hmap]

theorem holds_reduceAttribute_iff (h : s.Holds) (hstep : s.step (.reduceAttribute type value) = some s')
    : s'.Holds ↔ s.entity.attrMap type ≠ none ∨ value = -value := by
  obtain rfl := Option.some.inj hstep
  have htype := h type
  cases hmap : s.entity.attrMap type with
  | none =>
    have hzero : s.expected type = 0 := by simpa [getAttributeValue, HashMap.count, hmap] using htype.symm
    -- The value is stored with the sign it came with.
    rw [Holds, reduceAttribute, HashMap.merge_of_none hmap]
    refine (HashMap.count_update_iff id h _ _).trans ?_
    simp [hzero]
  | some old =>
    have hold : old = s.expected type := by simpa [getAttributeValue, HashMap.count, hmap] using htype
    rw [Holds, reduceAttribute, HashMap.merge_of_some hmap]
    refine (HashMap.count_update_iff id h _ _).trans ?_
    simp [hold]

theorem holds_iff_present {ops : List (Op α)}
    : Run (stepOf step) (fun s _ => s.Holds) new ops s ∧ s.Holds ↔ Run (stepOf step) Present new ops s := by
  apply holds_iff (fun _ => True) Holds ⟨trivial, fun _ => rfl⟩
  . intro s op s' _ _ _ _
    trivial
  . intro s op s' _ h hstep
    cases op with
    | addAttribute type value => exact iff_of_true (holds_addAttribute h hstep) trivial
    | reduceAttribute type value => exact holds_reduceAttribute_iff h hstep
    | clearAttribute =>
      obtain rfl := Option.some.inj hstep
      exact iff_of_true (fun _ => rfl) trivial

end Ledger

end AttrEntity

/-- The items of a bag and the attributes of an entity, whatever the order of the calls. -/
theorem ledgers_iff {α : Type} [DecidableEq α]
    : (∀ (ops : List CharBag.Op) (s : CharBag.Ledger),
          Run (stepOf CharBag.Ledger.step) (fun s _ => s.Holds) .new ops s ∧ s.Holds
            ↔ Run (stepOf CharBag.Ledger.step) CharBag.Ledger.Present .new ops s)
        ∧ ∀ (ops : List (AttrEntity.Op α)) (s : AttrEntity.Ledger α),
            Run (stepOf AttrEntity.Ledger.step) (fun s _ => s.Holds) .new ops s ∧ s.Holds
              ↔ Run (stepOf AttrEntity.Ledger.step) AttrEntity.Ledger.Present .new ops s :=
  ⟨fun _ _ => CharBag.Ledger.holds_iff_present, fun _ _ => AttrEntity.Ledger.holds_iff_present⟩

theorem ledgers_counterexample
    : (¬ ∀ (ops : List CharBag.Op) (s : CharBag.Ledger),
          Run (stepOf CharBag.Ledger.step) anyLabel .new ops s → s.Holds)
        ∧ ¬ ∀ (ops : List (AttrEntity.Op Unit)) (s : AttrEntity.Ledger Unit),
            Run (stepOf AttrEntity.Ledger.step) anyLabel .new ops s → s.Holds := by
  constructor
  . intro hclaim
    obtain ⟨s, hrun, hcount⟩ : ∃ s, Run (stepOf CharBag.Ledger.step) anyLabel .new [.removeItem 1001 5] s
        ∧ (s.bag.itemMap.count 1001).toInt ≠ s.expected 1001 := Run.exists_of_foldlM (by decide)
    exact hcount (hclaim _ s hrun 1001)
  . intro hclaim
    obtain ⟨s, hrun, hvalue⟩ : ∃ s, Run (stepOf AttrEntity.Ledger.step) anyLabel .new [.reduceAttribute () 5] s
        ∧ s.entity.getAttributeValue () ≠ s.expected () := Run.exists_of_foldlM (by decide)
    exact hvalue (hclaim _ s hrun ())

end WzGame
