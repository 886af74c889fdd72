import Mathlib.Logic.Function.Basic
import Mathlib.Data.List.Nodup

/-!
This module contains the purpose of `MulSearch` without ports and links: a queue of nodes for each
key.
-/

namespace WzGame

structure KeyQueues (E : Type) where
  key : Nat → Option Int
  data : Nat → Option E
  queue : Int → List Nat
  size : Nat

namespace KeyQueues

variable {E : Type}

def empty : KeyQueues E := ⟨fun _ => none, fun _ => none, fun _ => [], 0⟩

def addKey (q : KeyQueues E) (key : Int) (data : Option E) : KeyQueues E where
  key := Function.update q.key q.size (some key)
  data := Function.update q.data q.size data
  queue := Function.update q.queue key (q.queue key ++ [q.size])
  size := q.size + 1

def deleteKey (q : KeyQueues E) (key : Int) : KeyQueues E :=
  { q with queue := Function.update q.queue key [] }

def search (q : KeyQueues E) (key : Int) : Option Nat := (q.queue key).head?

def after (node : Nat) : List Nat → Option Nat
  | [] => none
  | node' :: nodes => if node' = node then nodes.head? else after node nodes

def sameNext (q : KeyQueues E) (node : Nat) : Option Nat :=
  (q.key node).bind fun key => after node (q.queue key)

structure WF (q : KeyQueues E) : Prop where
  keyed : ∀ k, ∀ node ∈ q.queue k, q.key node = some k ∧ node < q.size
  nodup : ∀ k, (q.queue k).Nodup

variable {q : KeyQueues E} {k k' : Int} {data : Option E} {node : Nat}

@[simp]
theorem queue_addKey_self : (q.addKey k data).queue k = q.queue k ++ [q.size] :=
  Function.update_self ..

theorem queue_addKey_of_ne (h : k' ≠ k) : (q.addKey k data).queue k' = q.queue k' :=
  Function.update_of_ne h ..

@[simp]
theorem queue_deleteKey_self : (q.deleteKey k).queue k = [] := Function.update_self ..

theorem queue_deleteKey_of_ne (h : k' ≠ k) : (q.deleteKey k).queue k' = q.queue k' :=
  Function.update_of_ne h ..

theorem wf_empty : (empty : KeyQueues E).WF := by
  constructor <;> simp [empty]

theorem WF.key_unique (h : q.WF) (hmem : node ∈ q.queue k) (hmem' : node ∈ q.queue k')
    : k' = k := by
  have hkey := (h.keyed k' node hmem').1
  rw [(h.keyed k node hmem).1] at hkey
  exact (Option.some.inj hkey).symm

theorem WF.addKey (h : q.WF) : (q.addKey k data).WF := by
  have hsize : ∀ k', q.size ∉ q.queue k' := by
    intro k' hmem
    exact absurd (h.keyed k' _ hmem).2 (Nat.lt_irrefl _)
  constructor
  case keyed =>
    intro k' node hnode
    show Function.update q.key q.size (some k) node = some k' ∧ node < q.size + 1
    have hnode : node ∈ Function.update q.queue k (q.queue k ++ [q.size]) k' := hnode
    by_cases hk : k' = k
    . subst hk
      rw [Function.update_self, List.mem_append, List.mem_singleton] at hnode
      rcases hnode with hnode | rfl
      . obtain ⟨hkey, hlt⟩ := h.keyed k' node hnode
        rw [Function.update_of_ne (by omega)]
        exact ⟨hkey, by omega⟩
      . simp
    . rw [Function.update_of_ne hk] at hnode
      obtain ⟨hkey, hlt⟩ := h.keyed k' node hnode
      rw [Function.update_of_ne (by omega)]
      exact ⟨hkey, by omega⟩
  case nodup =>
    intro k'
    show (Function.update q.queue k (q.queue k ++ [q.size]) k').Nodup
    by_cases hk : k' = k
    . subst hk
      rw [Function.update_self, List.nodup_append]
      refine ⟨h.nodup k', by simp, ?_⟩
      rintro node hnode node' hnode' rfl
      obtain rfl := List.mem_singleton.mp hnode'
      exact hsize k' hnode
    . rw [Function.update_of_ne hk]
      exact h.nodup k'

theorem WF.deleteKey (h : q.WF) : (q.deleteKey k).WF := by
  have hsub : ∀ k', (q.deleteKey k).queue k' = q.queue k' ∨ (q.deleteKey k).queue k' = [] := by
    intro k'
    show Function.update q.queue k [] k' = _ ∨ Function.update q.queue k [] k' = _
    by_cases hk : k' = k
    . subst hk
      simp
    . simp [hk]
  constructor
  case keyed =>
    intro k' node hnode
    rcases hsub k' with heq | heq <;> rw [heq] at hnode
    . exact h.keyed k' node hnode
    . simp at hnode
  case nodup =>
    intro k'
    rcases hsub k' with heq | heq <;> rw [heq]
    . exact h.nodup k'
    . exact List.nodup_nil

theorem after_of_notMem {nodes : List Nat} (h : node ∉ nodes) : after node nodes = none := by
  induction nodes with
  | nil => rfl
  | cons node' nodes ih =>
    rw [List.mem_cons, not_or] at h
    simp [after, Ne.symm h.1, ih h.2]

theorem after_append {xs ys : List Nat} (h : node ∉ xs)
    : after node (xs ++ node :: ys) = ys.head? := by
  induction xs with
  | nil => simp [after]
  | cons x xs ih =>
    rw [List.mem_cons, not_or] at h
    simp [after, Ne.symm h.1, ih h.2]

theorem WF.sameNext_eq (h : q.WF) {xs ys : List Nat} (hqueue : q.queue k = xs ++ node :: ys)
    : q.sameNext node = ys.head? := by
  have hmem : node ∈ q.queue k := by simp [hqueue]
  have hnodup := h.nodup k
  rw [hqueue, List.nodup_append] at hnodup
  have hxs : node ∉ xs := fun hmem => hnodup.2.2 node hmem node (by simp) rfl
  unfold sameNext
  rw [(h.keyed k node hmem).1, Option.bind_some, hqueue, after_append hxs]

theorem sameNext_eq_none (hnode : ∀ k, node ∉ q.queue k)
    : q.sameNext node = none := by
  unfold sameNext
  cases hkey : q.key node with
  | none => rfl
  | some k => exact after_of_notMem (hnode k)

end KeyQueues

end WzGame
