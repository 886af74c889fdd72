import Mathlib.Data.Set.Card

/-!
This module contains the purpose of `DbCache` without nodes and links: a bounded map with least
recently used eviction. A key is pending until its data arrives, then it is clean or dirty, and only
clean keys may be evicted.
-/

namespace WzGame

inductive CacheOp (κ δ : Type) where
  | occupy (key : κ)
  | query (key : κ)
  | setData (key : κ) (data : Option δ)
  | setDirty (key : κ)
  | getNextDirtyNodeAndClean

inductive CacheOut (δ : Type) where
  | bool (b : Bool)
  | data (data : Option δ)

def CacheOp.NonNeg {δ : Type} : CacheOp Int δ → Prop
  | .occupy key | .query key | .setData key _ | .setDirty key => 0 ≤ key
  | .getNextDirtyNodeAndClean => True

def CacheOp.key? {κ δ : Type} : CacheOp κ δ → Option κ
  | .occupy key | .query key | .setData key _ | .setDirty key => some key
  | .getNextDirtyNodeAndClean => none

theorem CacheOp.NonNeg.key {δ : Type} {op : CacheOp Int δ} (hop : op.NonNeg) {k : Int} (hk : op.key? = some k)
    : 0 ≤ k := by
  cases op with
  | getNextDirtyNodeAndClean => contradiction
  | occupy | query | setData | setDirty =>
    obtain rfl := Option.some.inj hk
    exact hop

namespace LruMap

structure Entry (δ : Type) where
  data : Option δ
  lastUse : Nat

end LruMap

structure LruMap (κ δ : Type) where
  entry : κ → Option (LruMap.Entry δ)
  queue : List κ
  clock : Nat

namespace LruMap

variable {κ δ : Type}

def empty : LruMap κ δ := ⟨fun _ => none, [], 0⟩

def Held (m : LruMap κ δ) (k : κ) : Prop := m.entry k ≠ none

def data (m : LruMap κ δ) (k : κ) : Option δ := (m.entry k).bind Entry.data

def lastUse (m : LruMap κ δ) (k : κ) : Nat := (m.entry k).elim 0 Entry.lastUse

def Pending (m : LruMap κ δ) (k : κ) : Prop := m.Held k ∧ m.data k = none

def Dirty (m : LruMap κ δ) (k : κ) : Prop := k ∈ m.queue

def Clean (m : LruMap κ δ) (k : κ) : Prop := m.data k ≠ none ∧ ¬ m.Dirty k

def Victim (m : LruMap κ δ) (v : κ) : Prop :=
  m.Clean v ∧ ∀ k, m.Clean k → k ≠ v → m.lastUse v < m.lastUse k

def Room (maxSize maxClean : Int) (m : LruMap κ δ) : Prop :=
  ({k | m.Held k}.ncard : Int) < maxSize ∧ ({k | m.Clean k}.ncard : Int) < maxClean

variable [DecidableEq κ]

def insert (m : LruMap κ δ) (k : κ) : LruMap κ δ :=
  { m with entry := Function.update m.entry k (some ⟨none, 0⟩) }

def erase (m : LruMap κ δ) (k : κ) : LruMap κ δ :=
  { m with entry := Function.update m.entry k none }

def use (m : LruMap κ δ) (k : κ) (d : δ) : LruMap κ δ :=
  { m with
    entry := Function.update m.entry k (some ⟨some d, m.clock⟩)
    clock := m.clock + 1 }

inductive Step (maxSize maxClean : Int) (m : LruMap κ δ)
    : CacheOp κ δ × CacheOut δ → LruMap κ δ → Prop where
  | occupyHeld {k : κ} : m.Held k → Step maxSize maxClean m (.occupy k, .bool true) m
  | occupyFree {k : κ} :
      ¬ m.Held k → m.Room maxSize maxClean
        → Step maxSize maxClean m (.occupy k, .bool true) (m.insert k)
  | occupyEvict {k v : κ} :
      ¬ m.Held k → ¬ m.Room maxSize maxClean → m.Victim v
        → Step maxSize maxClean m (.occupy k, .bool true) ((m.erase v).insert k)
  | occupyFull {k : κ} :
      ¬ m.Held k → ¬ m.Room maxSize maxClean → (∀ v, ¬ m.Clean v)
        → Step maxSize maxClean m (.occupy k, .bool false) m
  | queryClean {k : κ} {d : δ} :
      m.data k = some d → m.Clean k
        → Step maxSize maxClean m (.query k, .data (some d)) (m.use k d)
  | queryDirty {k : κ} {d : δ} :
      m.data k = some d → m.Dirty k → Step maxSize maxClean m (.query k, .data (some d)) m
  | queryMiss {k : κ} :
      m.data k = none → Step maxSize maxClean m (.query k, .data none) m
  | setDataInstall {k : κ} {d : δ} :
      m.Pending k → Step maxSize maxClean m (.setData k (some d), .data (some d)) (m.use k d)
  | setDataRelease {k : κ} :
      m.Pending k → Step maxSize maxClean m (.setData k none, .data none) (m.erase k)
  | setDataOld {k : κ} {d : Option δ} {old : δ} :
      m.data k = some old → Step maxSize maxClean m (.setData k d, .data (some old)) m
  | setDataMiss {k : κ} {d : Option δ} :
      ¬ m.Held k → Step maxSize maxClean m (.setData k d, .data none) m
  | setDirtyClean {k : κ} :
      m.Clean k
        → Step maxSize maxClean m (.setDirty k, .bool true) { m with queue := m.queue ++ [k] }
  | setDirtyDirty {k : κ} :
      m.Dirty k → Step maxSize maxClean m (.setDirty k, .bool true) m
  | setDirtyMiss {k : κ} :
      m.data k = none → Step maxSize maxClean m (.setDirty k, .bool false) m
  | nextDirty {k : κ} {d : δ} {rest : List κ} :
      m.queue = k :: rest → m.data k = some d
        → Step maxSize maxClean m (.getNextDirtyNodeAndClean, .data (some d))
          { m.use k d with queue := rest }
  | nextEmpty :
      m.queue = [] → Step maxSize maxClean m (.getNextDirtyNodeAndClean, .data none) m

section lemmas

variable {m : LruMap κ δ} {k k' : κ} {d : δ}

@[simp]
theorem queue_insert : (m.insert k).queue = m.queue := rfl

@[simp]
theorem queue_erase : (m.erase k).queue = m.queue := rfl

@[simp]
theorem queue_use : (m.use k d).queue = m.queue := rfl

@[simp]
theorem clock_insert : (m.insert k).clock = m.clock := rfl

@[simp]
theorem clock_erase : (m.erase k).clock = m.clock := rfl

@[simp]
theorem clock_use : (m.use k d).clock = m.clock + 1 := rfl

theorem entry_insert : (m.insert k).entry k' = if k' = k then some ⟨none, 0⟩ else m.entry k' := by
  simp [insert, Function.update_apply]

theorem entry_erase : (m.erase k).entry k' = if k' = k then none else m.entry k' := by
  simp [erase, Function.update_apply]

theorem entry_use
    : (m.use k d).entry k' = if k' = k then some ⟨some d, m.clock⟩ else m.entry k' := by
  simp [use, Function.update_apply]

@[simp]
theorem held_insert : (m.insert k).Held k' ↔ k' = k ∨ m.Held k' := by
  unfold Held
  rw [entry_insert]
  split <;> simp_all

@[simp]
theorem held_erase : (m.erase k).Held k' ↔ k' ≠ k ∧ m.Held k' := by
  unfold Held
  rw [entry_erase]
  split <;> simp_all

@[simp]
theorem held_use : (m.use k d).Held k' ↔ k' = k ∨ m.Held k' := by
  unfold Held
  rw [entry_use]
  split <;> simp_all

@[simp]
theorem data_insert : (m.insert k).data k' = if k' = k then none else m.data k' := by
  unfold data
  rw [entry_insert]
  split <;> rfl

@[simp]
theorem data_erase : (m.erase k).data k' = if k' = k then none else m.data k' := by
  unfold data
  rw [entry_erase]
  split <;> rfl

@[simp]
theorem data_use : (m.use k d).data k' = if k' = k then some d else m.data k' := by
  unfold data
  rw [entry_use]
  split <;> rfl

@[simp]
theorem lastUse_insert : (m.insert k).lastUse k' = if k' = k then 0 else m.lastUse k' := by
  unfold lastUse
  rw [entry_insert]
  split <;> rfl

@[simp]
theorem lastUse_erase : (m.erase k).lastUse k' = if k' = k then 0 else m.lastUse k' := by
  unfold lastUse
  rw [entry_erase]
  split <;> rfl

@[simp]
theorem lastUse_use : (m.use k d).lastUse k' = if k' = k then m.clock else m.lastUse k' := by
  unfold lastUse
  rw [entry_use]
  split <;> rfl

omit [DecidableEq κ] in
theorem held_of_data (h : m.data k = some d) : m.Held k := by
  intro hnone
  simp [data, hnone] at h

end lemmas

end LruMap

end WzGame
