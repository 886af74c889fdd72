import WzGame.Db.Cache.MulSearchLemmas
import Mathlib.Data.List.Count
import Mathlib.Algebra.Ring.Nat

/-!
This module contains what a `MulSearch` is for, over any sequence of its operations: a list of entries, of which
the ones with the same key form a queue.
-/

namespace WzGame

open NextChain HashPorts KeyQueues

abbrev Entries (E : Type) := List (Int × Option E)

namespace Entries

variable {E : Type}

def values (entries : Entries E) (key : Int) : List (Option E) :=
  (entries.filter fun e => e.1 = key).map Prod.snd

def addKey (entries : Entries E) (key : Int) (data : Option E) : Entries E := entries ++ [(key, data)]

def deleteKey (entries : Entries E) (key : Int) : Entries E := entries.filter fun e => e.1 ≠ key

variable {entries : Entries E} {k k' : Int} {data : Option E}

theorem values_addKey
    : (entries.addKey k data).values k' = entries.values k' ++ if k' = k then [data] else [] := by
  by_cases hk : k' = k
  . simp [values, addKey, hk]
  . simp [values, addKey, hk, Ne.symm hk]

theorem values_deleteKey : (entries.deleteKey k).values k' = if k' = k then [] else entries.values k' := by
  rw [values, deleteKey, List.filter_filter]
  by_cases hk : k' = k
  . simp [hk]
  . rw [if_neg hk, values]
    congr 1
    apply List.filter_congr
    intro e _
    by_cases he : e.1 = k'
    . simp [he, hk]
    . simp [he]

theorem length_values : (entries.values k).length = entries.countP fun e => e.1 = k := by
  rw [values, List.length_map, List.countP_eq_length_filter]

theorem countP_deleteKey (p : Int → Bool)
    : (entries.countP fun e => p e.1)
        = ((entries.deleteKey k).countP fun e => p e.1) + if p k then (entries.values k).length else 0 := by
  rw [length_values]
  induction entries with
  | nil => simp [deleteKey]
  | cons e entries ih =>
    rw [List.countP_cons, ih, List.countP_cons]
    by_cases he : e.1 = k
    . cases hp : p k
      . simp [deleteKey, he, hp]
      . simp [deleteKey, he, hp]
        omega
    . simp [deleteKey, he, List.countP_cons]
      omega

end Entries

namespace MulSearch

variable {E : Type}

inductive Op (E : Type) where
  | addKey (key : Int) (data : Option E)
  | deleteKey (key : Int)
  | search (key : Int)

namespace Op

def key : Op E → Int
  | addKey key _ => key
  | deleteKey key => key
  | search key => key

-- `none` is an exception.
def run (m : MulSearch E) : Op E → Option (MulSearch E)
  | addKey key data => (m.addKey key data).map Prod.snd
  | deleteKey key => (m.deleteKey key).map Prod.snd
  | search key => (m.search key).map fun _ => m

def entries (entries : Entries E) : Op E → Entries E
  | addKey key data => entries.addKey key data
  | deleteKey key => entries.deleteKey key
  | search _ => entries

end Op

def Counts (m : MulSearch E) (entries : Entries E) : Prop :=
  m.totalNodeNum.toInt = entries.length
    ∧ ∀ b, (m.nodeNum b).toInt = entries.countP fun e => m.pos e.1 = some b

/--
The answers are those of the entries: a search leads to nothing or to the first node of a list through `same_next` with
all data of the key. The counters are theirs as long as they fit an `int`.
-/
structure Refines (m : MulSearch E) (entries : Entries E) : Prop where
  search : ∀ k, 0 ≤ k → ∃ head, m.search k = some head ∧ (head = none ↔ entries.values k = [])
    ∧ ∃ nodes, Chain m.heap.sameNext head nodes ∧ nodes.map m.heap.data = entries.values k
  counts : entries.length < 2 ^ 31 → Counts m entries

structure Inv (m : MulSearch E) (entries : Entries E) : Prop where
  queues : ∃ q, Holds m q ∧ ∀ k, (q.queue k).map q.data = entries.values k
  totalNodeNum : m.totalNodeNum = Int32.ofNat entries.length
  nodeNum : ∀ b, m.nodeNum b = Int32.ofNat (entries.countP fun e => m.pos e.1 = some b)

variable {m m' : MulSearch E} {entries : Entries E} {k : Int} {b : Nat} {data : Option E}

theorem Inv.counts (h : Inv m entries) (hlength : entries.length < 2 ^ 31) : Counts m entries := by
  constructor
  . rw [h.totalNodeNum, Int32.toInt_ofNat_of_lt hlength]
  . intro b
    have hle : (entries.countP fun e => m.pos e.1 = some b) ≤ entries.length := List.countP_le_length
    rw [h.nodeNum, Int32.toInt_ofNat_of_lt (Nat.lt_of_le_of_lt hle hlength)]

theorem Inv.refines (h : Inv m entries) : Refines m entries := by
  obtain ⟨q, H, hvalues⟩ := h.queues
  refine ⟨fun k hk => ?_, h.counts⟩
  obtain ⟨b, hb⟩ := pos_of_nonneg H.hashSize_pos hk
  refine ⟨_, H.search_eq hb, ?_, _, H.same k, ?_⟩
  . rw [Holds.search_none, ← hvalues, List.map_eq_nil_iff]
  . rw [H.data, hvalues]

theorem pos_congr (hsize : m'.hashSize = m.hashSize) : m'.pos = m.pos := by
  funext k
  rw [pos, pos, hsize]

theorem inv_init {hashSize : Int} (hinit : (new : MulSearch E).init hashSize = (true, m)) : Inv m [] := by
  refine ⟨⟨_, holds_init hinit, fun k => rfl⟩, ?_, fun b => ?_⟩
  . rw [init] at hinit
    split at hinit
    . simp at hinit
    . obtain rfl := (Prod.mk.inj hinit).2
      rfl
  . rw [init] at hinit
    split at hinit
    . simp at hinit
    . obtain rfl := (Prod.mk.inj hinit).2
      rw [MulSearch.nodeNum, Array.getElem?_replicate]
      split <;> rfl

theorem Inv.addKey (h : Inv m entries) (hk : 0 ≤ k) (data : Option E)
    : ∃ m', m.addKey k data = some (true, m') ∧ m'.hashSize = m.hashSize
        ∧ Inv m' (entries.addKey k data) := by
  obtain ⟨q, H, hvalues⟩ := h.queues
  obtain ⟨b, hb⟩ := pos_of_nonneg H.hashSize_pos hk
  obtain ⟨m', hadd, hsize, ⟨htotal, hnum⟩, H'⟩ := H.addKey_eq hb data
  refine ⟨m', hadd, hsize, ⟨_, H', fun k' => ?_⟩, ?_, fun b' => ?_⟩
  . have hold : (q.queue k').map (q.addKey k data).data = entries.values k' := by
      rw [← hvalues]
      apply List.map_congr_left
      intro node hnode
      exact Function.update_of_ne (Nat.ne_of_lt (H.wf.keyed k' node hnode).2) ..
    rw [Entries.values_addKey]
    by_cases hkk : k' = k
    . subst hkk
      rw [queue_addKey_self, List.map_append, hold, if_pos rfl]
      simp [KeyQueues.addKey]
    . rw [queue_addKey_of_ne hkk, hold, if_neg hkk, List.append_nil]
  . rw [htotal, h.totalNodeNum, Entries.addKey, List.length_append, Int32.ofNat_add]
    rfl
  . rw [hnum, pos_congr hsize, Entries.addKey, List.countP_append, Int32.ofNat_add]
    by_cases hbb : b' = b
    . subst hbb
      rw [Function.update_self, h.nodeNum]
      simp [hb]
    . rw [Function.update_of_ne hbb, h.nodeNum]
      simp [hb, Ne.symm hbb]

theorem Inv.deleteKey (h : Inv m entries) (hk : 0 ≤ k)
    : ∃ found m', m.deleteKey k = some (found, m') ∧ m'.hashSize = m.hashSize
        ∧ Inv m' (entries.deleteKey k) := by
  obtain ⟨q, H, hvalues⟩ := h.queues
  obtain ⟨b, hb⟩ := pos_of_nonneg H.hashSize_pos hk
  obtain ⟨found, m', hdelete, hsize, ⟨htotal, hnum⟩, H'⟩ := H.deleteKey_eq hb
  have hlength : (q.queue k).length = (entries.values k).length := by
    rw [← hvalues, List.length_map]
  refine ⟨found, m', hdelete, hsize, ⟨_, H', fun k' => ?_⟩, ?_, fun b' => ?_⟩
  . rw [Entries.values_deleteKey]
    by_cases hkk : k' = k
    . rw [hkk, queue_deleteKey_self, if_pos rfl, List.map_nil]
    . rw [queue_deleteKey_of_ne hkk, if_neg hkk]
      exact hvalues k'
  . have hcount := @Entries.countP_deleteKey E entries k fun _ => true
    rw [List.countP_true, if_pos rfl] at hcount
    rw [htotal, h.totalNodeNum, hlength, hcount, Int32.ofNat_add, ← Int32.sub_eq_add_neg, Int32.add_sub_cancel]
  . have hcount := @Entries.countP_deleteKey E entries k fun k' => m.pos k' = some b'
    rw [hnum, pos_congr hsize, hlength]
    by_cases hbb : b' = b
    . subst hbb
      rw [if_pos (by simpa using hb)] at hcount
      rw [Function.update_self, h.nodeNum, hcount, Int32.ofNat_add, ← Int32.sub_eq_add_neg, Int32.add_sub_cancel]
    . rw [if_neg (by simpa [hb] using Ne.symm hbb)] at hcount
      rw [Function.update_of_ne hbb, h.nodeNum, hcount, Nat.add_zero]

theorem Inv.run (h : Inv m entries) {op : Op E} (hkey : 0 ≤ op.key)
    : ∃ m', op.run m = some m' ∧ Inv m' (op.entries entries) := by
  cases op with
  | addKey key data =>
    obtain ⟨m', hadd, -, h'⟩ := h.addKey (k := key) hkey data
    exact ⟨m', by rw [Op.run, hadd]; rfl, h'⟩
  | deleteKey key =>
    obtain ⟨found, m', hdelete, -, h'⟩ := h.deleteKey (k := key) hkey
    exact ⟨m', by rw [Op.run, hdelete]; rfl, h'⟩
  | search key =>
    obtain ⟨head, hsearch, -⟩ := h.refines.search key hkey
    exact ⟨m, by rw [Op.run, hsearch]; rfl, h⟩

theorem Inv.foldlM (h : Inv m entries) {ops : List (Op E)} (hkeys : ∀ op ∈ ops, 0 ≤ op.key)
    : ∃ m', ops.foldlM Op.run m = some m' ∧ Inv m' (ops.foldl Op.entries entries) := by
  induction ops generalizing m entries with
  | nil => exact ⟨m, rfl, h⟩
  | cons op ops ih =>
    obtain ⟨m', hstep, h'⟩ := h.run (hkeys op List.mem_cons_self)
    obtain ⟨m'', hfold, h''⟩ := ih h' fun op' hop' => hkeys op' (List.mem_cons_of_mem op hop')
    refine ⟨m'', ?_, h''⟩
    rw [List.foldlM_cons, hstep]
    exact hfold

/-- No operation throws, and after all of them the table is what its entries say. -/
theorem refines_entries {hashSize : Int} {m₀ : MulSearch E} {ops : List (Op E)}
    (hinit : (new : MulSearch E).init hashSize = (true, m₀)) (hkeys : ∀ op ∈ ops, 0 ≤ op.key)
    : ∃ m, ops.foldlM Op.run m₀ = some m ∧ Refines m (ops.foldl Op.entries []) := by
  obtain ⟨m, hfold, h⟩ := (inv_init hinit).foldlM hkeys
  exact ⟨m, hfold, h.refines⟩

theorem foldl_entries_addKey (n : Nat)
    : (List.replicate n (Op.addKey k data)).foldl Op.entries entries = entries ++ List.replicate n (k, data) := by
  induction n generalizing entries with
  | zero => simp
  | succ n ih =>
    rw [List.replicate_succ, List.foldl_cons, ih, Op.entries, Entries.addKey, List.append_assoc]
    rfl

theorem refines_counterexample
    : ¬ ∀ (hashSize : Int) (m₀ m : MulSearch Nat) (ops : List (Op Nat)),
        new.init hashSize = (true, m₀) → (∀ op ∈ ops, 0 ≤ op.key) → ops.foldlM Op.run m₀ = some m
          → Refines m (ops.foldl Op.entries []) ∧ Counts m (ops.foldl Op.entries []) := by
  intro hall
  have hinit : (new : MulSearch Nat).init 1 = (true, ((new : MulSearch Nat).init 1).2) := rfl
  obtain ⟨n, hn⟩ : ∃ n : Nat, n = 2 ^ 31 := ⟨_, rfl⟩
  have hkeys : ∀ op ∈ List.replicate n (Op.addKey 0 none : Op Nat), 0 ≤ op.key := by
    intro op hop
    rw [List.eq_of_mem_replicate hop]
    exact Int.le_refl 0
  obtain ⟨m, hfold, h⟩ := (inv_init hinit).foldlM hkeys
  obtain ⟨-, hcount, -⟩ := hall 1 _ m _ hinit hkeys hfold
  rw [h.totalNodeNum, foldl_entries_addKey, List.nil_append, List.length_replicate, Int32.toInt_ofNat', hn] at hcount
  exact absurd hcount (by decide)

def collisions : List (Op Nat) :=
  [.addKey 1 (some 10), .addKey 3 (some 30), .addKey 1 (some 11), .addKey 5 (some 50), .addKey 3 (some 31),
    .search 3, .deleteKey 3, .addKey 1 none]

theorem refines_collisions
    : ∃ m, collisions.foldlM Op.run ((new : MulSearch Nat).init 2).2 = some m
        ∧ Refines m [(1, some 10), (1, some 11), (5, some 50), (1, none)]
        ∧ Counts m [(1, some 10), (1, some 11), (5, some 50), (1, none)] := by
  have hentries : collisions.foldl Op.entries [] = [(1, some 10), (1, some 11), (5, some 50), (1, none)] := by
    decide
  have hinit : (new : MulSearch Nat).init 2 = (true, ((new : MulSearch Nat).init 2).2) := rfl
  rw [← hentries]
  obtain ⟨m, hfold, hrefines⟩ := refines_entries hinit (show ∀ op ∈ collisions, 0 ≤ op.key by decide)
  exact ⟨m, hfold, hrefines, hrefines.counts (by decide)⟩

end MulSearch

end WzGame
