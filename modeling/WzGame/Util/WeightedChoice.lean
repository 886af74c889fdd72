import Mathlib.Algebra.BigOperators.Group.List.Basic
import Mathlib.Algebra.Order.Group.Nat
import Mathlib.Algebra.Ring.Nat
import Mathlib.Order.Interval.Finset.Nat

/-!
This module contains the choice among weights that lie one behind the other on the numbers below their sum.
-/

namespace WeightedChoice

variable {weights : List Nat} {r i : Nat}

def pick : List Nat → Nat → Option Nat
  | [], _ => none
  | weight :: weights, r => if r < weight then some 0 else (pick weights (r - weight)).map (· + 1)

def start (weights : List Nat) (i : Nat) : Nat := (weights.take i).sum

theorem start_succ (hi : i < weights.length) : start weights (i + 1) = start weights i + weights[i] := by
  rw [start, List.sum_take_succ _ _ hi]
  rfl

theorem start_le_sum (weights : List Nat) (i : Nat) : start weights i ≤ weights.sum := by
  have hsum : (weights.take i).sum + (weights.drop i).sum = weights.sum := by
    rw [← List.sum_append, List.take_append_drop]
  exact hsum ▸ Nat.le_add_right _ _

theorem lt_length_of_pick (h : pick weights r = some i) : i < weights.length := by
  induction weights generalizing r i with
  | nil => contradiction
  | cons weight weights ih =>
    rw [pick] at h
    split at h
    . obtain rfl := Option.some.inj h
      exact Nat.zero_lt_succ _
    . obtain ⟨j, hj, rfl⟩ := Option.map_eq_some_iff.mp h
      exact Nat.succ_lt_succ (ih hj)

theorem pick_eq_some_iff (hi : i < weights.length)
    : pick weights r = some i ↔ start weights i ≤ r ∧ r < start weights i + weights[i] := by
  induction weights generalizing r i with
  | nil => contradiction
  | cons weight weights ih =>
    rw [pick]
    cases i with
    | zero => by_cases hr : r < weight <;> simp [hr, start]
    | succ i =>
      have hstart : start (weight :: weights) (i + 1) = weight + start weights i := by simp [start]
      rw [hstart, List.getElem_cons_succ]
      by_cases hr : r < weight
      . rw [if_pos hr]
        simp
        omega
      . rw [if_neg hr, Option.map_eq_some_iff]
        simp only [Nat.add_right_cancel_iff, exists_eq_right]
        rw [ih (Nat.lt_of_succ_lt_succ hi)]
        omega

theorem pos_of_pick (h : pick weights r = some i) : 0 < weights.get ⟨i, lt_length_of_pick h⟩ := by
  have hi := lt_length_of_pick h
  have hin := (pick_eq_some_iff hi).mp h
  show 0 < weights[i]
  omega

theorem pick_isSome (hr : r < weights.sum) : (pick weights r).isSome := by
  induction weights generalizing r with
  | nil => simp at hr
  | cons weight weights ih =>
    rw [pick]
    split
    . rfl
    . rw [Option.isSome_map]
      rw [List.sum_cons] at hr
      exact ih (by omega)

theorem card_pick (hi : i < weights.length)
    : ((Finset.range weights.sum).filter fun r => pick weights r = some i).card = weights[i] := by
  have hend := start_le_sum weights (i + 1)
  rw [start_succ hi] at hend
  have hpicked : (Finset.range weights.sum).filter (fun r => pick weights r = some i)
      = Finset.Ico (start weights i) (start weights i + weights[i]) := by
    ext r
    simp only [Finset.mem_filter, Finset.mem_range, Finset.mem_Ico, pick_eq_some_iff hi]
    omega
  rw [hpicked, Nat.card_Ico, Nat.add_sub_cancel_left]

end WeightedChoice
