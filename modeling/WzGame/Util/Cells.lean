import Mathlib.Data.List.Infix

/-!
This module contains arrays whose indices are integers, where an index out of range gives `none`, and two loops that
go over a part of an array.
-/

namespace Cells

variable {α : Type}

def load (cells : List α) (index : Int) : Option α := if 0 ≤ index then cells[index.toNat]? else none

def store (cells : List α) (index : Int) (item : α) : Option (List α) :=
  if 0 ≤ index ∧ index < cells.length then some (cells.set index.toNat item) else none

def shiftDown (cells : List α) (b : Int) : Nat → Except (List α) (List α)
  | 0 => .ok cells
  | n + 1 =>
    match (load cells (b + 1)).bind (store cells b) with
    | none => .error cells
    | some cells => shiftDown cells (b + 1) n

def search (cells : List α) (p : α → Bool) (i : Int) : Nat → Option (Option Int)
  | 0 => some none
  | n + 1 => do
    let x ← load cells i
    if p x then some (some i) else search cells p (i + 1) n

variable {front back rest xs : List α} {x y : α} {index : Int} {p : α → Bool}

theorem load_append : load (front ++ x :: back) front.length = some x := by
  simp [load]

theorem store_append : store (front ++ x :: back) front.length y = some (front ++ y :: back) := by
  have hlt : front.length < (front ++ x :: back).length := by
    rw [List.length_append, List.length_cons]
    omega
  rw [store, if_pos ⟨by omega, by omega⟩]
  simp

theorem store_neg {cells : List α} (h : index < 0) : store cells index y = none := by
  rw [store, if_neg (by omega)]

theorem shiftDown_append
    : ∃ z, shiftDown (front ++ x :: (back ++ rest)) front.length back.length
        = .ok (front ++ (back ++ z :: rest)) := by
  induction back generalizing front x with
  | nil => exact ⟨x, rfl⟩
  | cons y back ih =>
    have hload : load (front ++ x :: (y :: back ++ rest)) (front.length + 1) = some y := by
      have happend := @load_append _ (front ++ [x]) (back ++ rest) y
      simpa using happend
    have hstore := @store_append _ front (y :: back ++ rest) x y
    obtain ⟨z, hz⟩ := @ih (front ++ [y]) y
    refine ⟨z, ?_⟩
    rw [List.length_cons, shiftDown, hload, Option.bind_some, hstore]
    simpa using hz

theorem search_append
    : (search (front ++ (xs ++ rest)) p front.length xs.length = some none ∧ ∀ y ∈ xs, ¬ p y)
        ∨ ∃ before y behind, xs = before ++ y :: behind ∧ (∀ z ∈ before, ¬ p z) ∧ p y
          ∧ search (front ++ (xs ++ rest)) p front.length xs.length = some (some ((front ++ before).length : Int)) := by
  induction xs generalizing front with
  | nil => exact .inl ⟨rfl, by simp⟩
  | cons x xs ih =>
    have hload : load (front ++ (x :: xs ++ rest)) front.length = some x := load_append
    rw [List.length_cons, search, hload, Option.bind_eq_bind, Option.bind_some]
    by_cases hx : p x
    . refine .inr ⟨[], x, xs, rfl, by simp, hx, ?_⟩
      rw [if_pos hx, List.append_nil]
    . have hnext : search (front ++ (x :: xs ++ rest)) p (front.length + 1) xs.length
          = search (front ++ [x] ++ (xs ++ rest)) p (front ++ [x]).length xs.length := by simp
      rw [if_neg hx, hnext]
      rcases @ih (front ++ [x]) with ⟨hnone, hall⟩ | ⟨before, y, behind, rfl, hbefore, hy, hfound⟩
      . exact .inl ⟨hnone, List.forall_mem_cons.mpr ⟨hx, hall⟩⟩
      . refine .inr ⟨x :: before, y, behind, rfl, List.forall_mem_cons.mpr ⟨hx, hbefore⟩, hy, ?_⟩
        rw [hfound, List.append_assoc, List.singleton_append]

end Cells
