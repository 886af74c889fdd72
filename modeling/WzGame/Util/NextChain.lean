import Mathlib.Data.List.Basic
import Mathlib.Data.List.Nodup
import Mathlib.Logic.Function.Basic

/-!
This module contains null terminated singly linked lists: the link lives in a field of the listed
objects. The loops over such a list take fuel, which the length of the list bounds.
-/

namespace NextChain

variable {α : Type}

def Chain (next : α → Option α) : Option α → List α → Prop
  | p, [] => p = none
  | p, a :: as => p = some a ∧ Chain next (next a) as

-- follow `next` to the first object that meets `q`; `none` when the fuel runs out
def walk (next : α → Option α) (q : α → Bool) : Nat → Option α → Option (Option α)
  | _, none => some none
  | 0, some _ => none
  | fuel + 1, some a => if q a then some (some a) else walk next q fuel (next a)

/--
Follow `next` from `a` to the object whose successor meets `q`, or to the last one when there is no
such object; `none` when the fuel runs out.
-/
def stopBefore (next : α → Option α) (q : α → Bool) : Nat → α → Option α
  | 0, _ => none
  | fuel + 1, a =>
    match next a with
    | none => some a
    | some b => if q b then some a else stopBefore next q fuel b

@[simp]
theorem chain_nil {next : α → Option α} {p : Option α}
    : Chain next p [] ↔ p = none := Iff.rfl

@[simp]
theorem chain_cons {next : α → Option α} {p : Option α} {a : α} {as : List α}
    : Chain next p (a :: as) ↔ p = some a ∧ Chain next (next a) as := Iff.rfl

theorem chain_congr {next next' : α → Option α} {p : Option α} {as : List α}
    (h : Chain next p as) (hsame : ∀ a ∈ as, next' a = next a)
    : Chain next' p as := by
  induction as generalizing p with
  | nil => exact h
  | cons a as ih =>
    refine ⟨h.1, ?_⟩
    rw [hsame a (by simp)]
    exact ih h.2 (fun b hb => hsame b (by simp [hb]))

theorem chain_head? {next : α → Option α} {p : Option α} {as : List α} (h : Chain next p as)
    : p = as.head? := by
  cases as with
  | nil => exact h
  | cons a as => exact h.1

theorem chain_next {next : α → Option α} {p : Option α} {as bs : List α} {a : α}
    (h : Chain next p (as ++ a :: bs))
    : Chain next (next a) bs := by
  induction as generalizing p with
  | nil => exact h.2
  | cons b as ih => exact ih h.2

theorem chain_mem_next {next : α → Option α} {p : Option α} {as : List α} {a b : α}
    (h : Chain next p as) (ha : a ∈ as) (hb : next a = some b)
    : b ∈ as := by
  obtain ⟨xs, ys, rfl⟩ := List.append_of_mem ha
  have hhead := chain_head? (chain_next h)
  rw [hb] at hhead
  exact List.mem_append_right xs (List.mem_cons_of_mem a (List.mem_of_mem_head? hhead.symm))

theorem walk_eq {next : α → Option α} {q : α → Bool} {p : Option α} {as : List α} {fuel : Nat}
    (h : Chain next p as) (hfuel : as.length ≤ fuel)
    : walk next q fuel p = some (as.find? q) := by
  induction as generalizing p fuel with
  | nil =>
    rw [chain_nil] at h
    simp [h, walk]
  | cons a as ih =>
    obtain ⟨rfl, hrest⟩ := h
    cases fuel with
    | zero => simp at hfuel
    | succ fuel =>
      simp only [List.length_cons, Nat.add_le_add_iff_right] at hfuel
      by_cases hq : q a
      . simp [walk, hq]
      . simp [walk, hq, ih hrest hfuel]

theorem stopBefore_found {next : α → Option α} {q : α → Bool} {a c : α} {as bs : List α}
    {fuel : Nat} (h : Chain next (next a) (as ++ c :: bs)) (has : ∀ b ∈ as, q b = false)
    (hc : q c = true) (hfuel : as.length < fuel)
    : stopBefore next q fuel a = some ((a :: as).getLast (by simp)) := by
  induction as generalizing a fuel with
  | nil =>
    cases fuel with
    | zero => simp at hfuel
    | succ fuel => simp [stopBefore, chain_head? h, hc]
  | cons b as ih =>
    cases fuel with
    | zero => simp at hfuel
    | succ fuel =>
      have hb : q b = false := has b (by simp)
      have := ih h.2 (fun d hd => has d (by simp [hd])) (by simpa using hfuel)
      simp [stopBefore, chain_head? h, hb, this]

theorem stopBefore_last {next : α → Option α} {q : α → Bool} {a : α} {as : List α}
    {fuel : Nat} (h : Chain next (next a) as) (has : ∀ b ∈ as, q b = false)
    (hfuel : as.length < fuel)
    : stopBefore next q fuel a = some ((a :: as).getLast (by simp)) := by
  induction as generalizing a fuel with
  | nil =>
    cases fuel with
    | zero => simp at hfuel
    | succ fuel => simp [stopBefore, chain_head? h]
  | cons b as ih =>
    cases fuel with
    | zero => simp at hfuel
    | succ fuel =>
      have hb : q b = false := has b (by simp)
      have := ih h.2 (fun d hd => has d (by simp [hd])) (by simpa using hfuel)
      simp [stopBefore, chain_head? h, hb, this]

section update

variable [DecidableEq α]

theorem chain_update {next : α → Option α} {p dest : Option α} {as : List α} {a : α}
    (h : Chain next p as) (ha : a ∉ as)
    : Chain (Function.update next a dest) p as := by
  refine chain_congr h ?_
  intro b hb
  exact Function.update_of_ne (by rintro rfl; exact ha hb) _ _

theorem chain_push {next : α → Option α} {p : Option α} {as : List α} {a : α}
    (h : Chain next p as) (ha : a ∉ as)
    : Chain (Function.update next a p) (some a) (a :: as) := by
  refine ⟨rfl, ?_⟩
  simpa using chain_update h ha

theorem chain_delete {next : α → Option α} {p : Option α} {as bs : List α} {b c : α}
    (h : Chain next p (as ++ b :: c :: bs)) (hnodup : (as ++ b :: c :: bs).Nodup)
    : Chain (Function.update (Function.update next b (next c)) c none) p (as ++ b :: bs) := by
  induction as generalizing p with
  | nil =>
    obtain ⟨hp, -, hbs⟩ := h
    simp only [List.nil_append, List.nodup_cons, List.mem_cons, not_or] at hnodup
    refine ⟨hp, ?_⟩
    rw [Function.update_of_ne hnodup.1.1, Function.update_self]
    exact chain_update (chain_update hbs hnodup.1.2) hnodup.2.1
  | cons a as ih =>
    simp only [List.cons_append, List.nodup_cons, List.mem_append, List.mem_cons, not_or] at hnodup
    refine ⟨h.1, ?_⟩
    rw [Function.update_of_ne hnodup.1.2.2.1, Function.update_of_ne hnodup.1.2.1]
    exact ih h.2 hnodup.2

theorem chain_concat {next : α → Option α} {p : Option α} {as : List α} {b c : α}
    (h : Chain next p (as ++ [b])) (hnodup : (as ++ [b, c]).Nodup) (hc : next c = none)
    : Chain (Function.update next b (some c)) p (as ++ [b, c]) := by
  induction as generalizing p with
  | nil =>
    simp only [List.nil_append, List.nodup_cons, List.mem_cons] at hnodup
    refine ⟨h.1, by simp, ?_⟩
    rw [Function.update_of_ne (by rintro rfl; simp at hnodup), hc]
    rfl
  | cons a as ih =>
    simp only [List.cons_append, List.nodup_cons, List.mem_append, List.mem_cons, not_or] at hnodup
    refine ⟨h.1, ?_⟩
    rw [Function.update_of_ne hnodup.1.2.1]
    exact ih h.2 hnodup.2

end update

end NextChain
