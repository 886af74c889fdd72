import Mathlib.Data.List.Chain
import Mathlib.Logic.Function.Basic

/-!
This module contains intrusive circular doubly linked lists: the links live in two fields of the
listed objects, and a sentinel stands for both ends.
-/

-- The two link fields, as functions of the object. `none` is the null reference.
structure Links (α : Type) where
  prev : α → Option α
  next : α → Option α

namespace Links

variable {α : Type} [DecidableEq α]

def setPrev (l : Links α) (cur : α) (dest : Option α) : Links α :=
  { l with prev := Function.update l.prev cur dest }

def setNext (l : Links α) (cur : α) (dest : Option α) : Links α :=
  { l with next := Function.update l.next cur dest }

@[simp]
theorem prev_setPrev (l : Links α) (cur : α) (dest : Option α)
    : (l.setPrev cur dest).prev = Function.update l.prev cur dest := rfl

@[simp]
theorem next_setPrev (l : Links α) (cur : α) (dest : Option α)
    : (l.setPrev cur dest).next = l.next := rfl

@[simp]
theorem prev_setNext (l : Links α) (cur : α) (dest : Option α)
    : (l.setNext cur dest).prev = l.prev := rfl

@[simp]
theorem next_setNext (l : Links α) (cur : α) (dest : Option α)
    : (l.setNext cur dest).next = Function.update l.next cur dest := rfl

-- both links of `cur` become null
def clear (l : Links α) (cur : α) : Links α :=
  (l.setNext cur none).setPrev cur none

def initHead (l : Links α) (head : α) : Links α :=
  (l.setNext head (some head)).setPrev head (some head)

-- insert `cur` behind `tail`; `none` when the successor of `tail` is null
def insertAfter (l : Links α) (cur tail : α) : Option (Links α) := do
  let l := l.setNext cur (l.next tail)
  let l := l.setPrev cur (some tail)
  let l := l.setNext tail (some cur)
  let after ← l.next cur
  return l.setPrev after (some cur)

def unlink (l : Links α) (cur : α) : Links α :=
  match l.prev cur, l.next cur with
  | some before, some after =>
    let l := l.setNext before (some after)
    let l := l.setPrev after (some before)
    l.clear cur
  | _, _ => l

def Linked (l : Links α) (xs : List α) : Prop :=
  xs.IsChain fun a b => l.next a = some b ∧ l.prev b = some a

structure Ring (l : Links α) (head : α) (xs : List α) : Prop where
  linked : l.Linked (head :: xs ++ [head])
  nodup : (head :: xs).Nodup

omit [DecidableEq α] in
theorem linked_append {l : Links α} {xs ys : List α} {a b : α}
    : l.Linked (xs ++ a :: b :: ys)
        ↔ l.Linked (xs ++ [a]) ∧ (l.next a = some b ∧ l.prev b = some a) ∧ l.Linked (b :: ys) := by
  exact List.isChain_append_cons_cons

omit [DecidableEq α] in
theorem linked_congr {l l' : Links α} {xs : List α} (h : l.Linked xs)
    (hnext : ∀ a ∈ xs.dropLast, l'.next a = l.next a) (hprev : ∀ a ∈ xs.tail, l'.prev a = l.prev a)
    : l'.Linked xs := by
  induction xs with
  | nil => exact List.IsChain.nil
  | cons a xs ih =>
    cases xs with
    | nil => exact List.IsChain.singleton a
    | cons b ys =>
      unfold Linked at h ⊢
      simp only [List.isChain_cons_cons] at h ⊢
      obtain ⟨⟨hn, hp⟩, hrest⟩ := h
      refine ⟨⟨?_, ?_⟩, ih hrest ?_ ?_⟩
      . rw [hnext a (by simp), hn]
      . rw [hprev b (by simp), hp]
      . intro c hc
        exact hnext c (by simp [List.dropLast, hc])
      . intro c hc
        exact hprev c (by simp at hc ⊢; exact .inr hc)

omit [DecidableEq α] in
theorem Ring.congr {l l' : Links α} {head : α} {xs : List α} (h : l.Ring head xs)
    (hsame : ∀ a ∈ head :: xs, l'.next a = l.next a ∧ l'.prev a = l.prev a)
    : l'.Ring head xs where
  linked := by
    refine linked_congr h.linked ?_ ?_
    . intro a ha
      rw [List.dropLast_concat] at ha
      exact (hsame a ha).1
    . intro a ha
      exact (hsame a (by simp at ha ⊢; tauto)).2
  nodup := h.nodup

omit [DecidableEq α] in
theorem exists_cut (head : α) (xs ys : List α)
    : ∃ (front : List α) (a b : α) (back : List α),
        head :: xs = front ++ [a] ∧ ys ++ [head] = b :: back := by
  have hne : head :: xs ≠ [] := by simp
  refine ⟨(head :: xs).dropLast, (head :: xs).getLast hne, (ys ++ [head]).head (by simp),
    (ys ++ [head]).tail, ?_, ?_⟩
  . exact (List.dropLast_append_getLast hne).symm
  . exact (List.cons_head_tail (by simp)).symm

theorem linked_insert {l : Links α} {front back : List α} {a b cur : α}
    (h : l.Linked (front ++ a :: b :: back))
    (hfst : (front ++ a :: (b :: back).dropLast).Nodup) (hsnd : ((front ++ [a]).tail ++ b :: back).Nodup)
    (hcur : cur ∉ front ++ a :: b :: back)
    : ∃ l', l.insertAfter cur a = some l' ∧ l'.Linked (front ++ a :: cur :: b :: back)
        ∧ (∀ r, r ≠ a → r ≠ cur → l'.next r = l.next r)
        ∧ (∀ r, r ≠ b → r ≠ cur → l'.prev r = l.prev r) := by
  rw [linked_append] at h
  obtain ⟨hfront, ⟨hnext, hprev⟩, hback⟩ := h
  simp only [List.mem_append, List.mem_cons, not_or] at hcur
  obtain ⟨hcfront, hca, hcb, hcback⟩ := hcur
  refine ⟨_, by simp [insertAfter, hca, hnext]; rfl, ?_, ?_, ?_⟩
  . rw [linked_append, show cur :: b :: back = [] ++ cur :: b :: back by rfl, linked_append]
    refine ⟨linked_congr hfront ?_ ?_, ?_, List.IsChain.singleton cur, ?_, linked_congr hback ?_ ?_⟩
    . intro r hr
      have : r ≠ a ∧ r ≠ cur := by grind
      simp [this]
    . intro r hr
      have : r ≠ b ∧ r ≠ cur := by grind [List.mem_of_mem_tail]
      simp [this]
    . simp [hcb]
    . simp [hca]
    . intro r hr
      have : r ≠ a ∧ r ≠ cur := by grind [List.dropLast_subset]
      simp [this]
    . intro r hr
      have : r ≠ b ∧ r ≠ cur := by grind
      simp [this]
  . intro r hra hrc
    simp [hra, hrc]
  . intro r hrb hrc
    simp [hrb, hrc]

theorem linked_unlink {l : Links α} {front back : List α} {a b cur : α}
    (h : l.Linked (front ++ a :: cur :: b :: back))
    (hfst : (front ++ a :: cur :: (b :: back).dropLast).Nodup)
    (hsnd : ((front ++ [a]).tail ++ cur :: b :: back).Nodup)
    : (l.unlink cur).Linked (front ++ a :: b :: back)
        ∧ (l.unlink cur).next cur = none ∧ (l.unlink cur).prev cur = none
        ∧ (∀ r, r ≠ a → r ≠ cur → (l.unlink cur).next r = l.next r)
        ∧ (∀ r, r ≠ b → r ≠ cur → (l.unlink cur).prev r = l.prev r) := by
  rw [linked_append, show cur :: b :: back = [] ++ cur :: b :: back by rfl, linked_append] at h
  obtain ⟨hfront, ⟨hnexta, hprevc⟩, -, ⟨hnextc, hprevb⟩, hback⟩ := h
  have hac : a ≠ cur := by grind
  have hbc : b ≠ cur := by grind
  simp only [unlink, hprevc, hnextc, clear]
  refine ⟨?_, by simp, by simp, ?_, ?_⟩
  . rw [linked_append]
    refine ⟨linked_congr hfront ?_ ?_, ?_, linked_congr hback ?_ ?_⟩
    . intro r hr
      have : r ≠ a ∧ r ≠ cur := by grind
      simp [this]
    . intro r hr
      have : r ≠ b ∧ r ≠ cur := by grind
      simp [this]
    . simp [hac, hbc]
    . intro r hr
      have : r ≠ a ∧ r ≠ cur := by grind
      simp [this]
    . intro r hr
      have : r ≠ b ∧ r ≠ cur := by grind
      simp [this]
  . intro r hra hrc
    simp [hra, hrc]
  . intro r hrb hrc
    simp [hrb, hrc]

omit [DecidableEq α] in
theorem nodup_of_cut {head a : α} {zs front rest : List α} (hnodup : (head :: zs).Nodup)
    (hcut : head :: zs ++ [head] = front ++ a :: rest) (hrest : rest ≠ [])
    : (front ++ a :: rest.dropLast).Nodup ∧ ((front ++ [a]).tail ++ rest).Nodup := by
  have hfst : head :: zs = front ++ a :: rest.dropLast := by
    have := congrArg List.dropLast hcut
    rw [List.dropLast_concat] at this
    rw [this, List.dropLast_append_of_ne_nil (by simp), List.dropLast_cons_of_ne_nil hrest]
  have hsnd : zs ++ [head] = (front ++ [a]).tail ++ rest := by
    have := congrArg List.tail hcut
    cases front with
    | nil => simpa using this
    | cons b front => simpa using this
  refine ⟨hfst ▸ hnodup, ?_⟩
  rw [← hsnd]
  exact (List.perm_append_singleton head zs).nodup_iff.mpr hnodup

omit [DecidableEq α] in
theorem Ring.next_eq {l : Links α} {head a : α} {xs ys front : List α} (h : l.Ring head (xs ++ ys))
    (ha : head :: xs = front ++ [a])
    : l.next a = (ys ++ [head]).head? := by
  obtain ⟨b, back, hback⟩ := List.exists_cons_of_ne_nil (show ys ++ [head] ≠ [] by simp)
  have hlinked := h.linked
  have hcut : head :: (xs ++ ys) ++ [head] = front ++ a :: b :: back := by
    rw [← hback, ← List.cons_append, ha]
    simp
  rw [hcut, linked_append] at hlinked
  rw [hlinked.2.1.1, hback]
  rfl

omit [DecidableEq α] in
theorem Ring.prev_eq {l : Links α} {head b : α} {xs ys back : List α} (h : l.Ring head (xs ++ ys))
    (hb : ys ++ [head] = b :: back)
    : l.prev b = (head :: xs).getLast? := by
  obtain ⟨front, a, ha⟩ := List.eq_nil_or_concat (head :: xs) |>.resolve_left (by simp)
  have hlinked := h.linked
  have hcut : head :: (xs ++ ys) ++ [head] = front ++ a :: b :: back := by
    rw [← hb, ← List.cons_append, ha]
    simp
  rw [hcut, linked_append] at hlinked
  rw [hlinked.2.1.2, ha]
  simp

omit [DecidableEq α] in
theorem linked_unique {l : Links α} {head a : α} {xs ys : List α}
    (hx : l.Linked (a :: xs ++ [head])) (hy : l.Linked (a :: ys ++ [head]))
    (hxs : head ∉ xs) (hys : head ∉ ys)
    : xs = ys := by
  unfold Linked at hx hy
  induction xs generalizing a ys with
  | nil =>
    cases ys with
    | nil => rfl
    | cons y ys =>
      simp only [List.cons_append, List.nil_append, List.isChain_cons_cons] at hx hy
      have : some head = some y := hx.1.1.symm.trans hy.1.1
      simp_all
  | cons x xs ih =>
    cases ys with
    | nil =>
      simp only [List.cons_append, List.nil_append, List.isChain_cons_cons] at hx hy
      have : some x = some head := hx.1.1.symm.trans hy.1.1
      simp_all
    | cons y ys =>
      simp only [List.cons_append, List.isChain_cons_cons] at hx hy
      obtain rfl : x = y := Option.some.inj (hx.1.1.symm.trans hy.1.1)
      simp only [List.mem_cons, not_or] at hxs hys
      rw [ih hx.2 hy.2 hxs.2 hys.2]

omit [DecidableEq α] in
theorem Ring.unique {l : Links α} {head : α} {xs ys : List α} (hx : l.Ring head xs)
    (hy : l.Ring head ys)
    : xs = ys :=
  linked_unique hx.linked hy.linked (List.nodup_cons.mp hx.nodup).1 (List.nodup_cons.mp hy.nodup).1

theorem initHead_ring (l : Links α) (head : α) : (l.initHead head).Ring head [] where
  linked := by simp [Linked, initHead]
  nodup := by simp

theorem Ring.insertAfter {l : Links α} {head cur tail : α} {xs ys : List α}
    (h : l.Ring head (xs ++ ys)) (hcur : cur ∉ head :: (xs ++ ys))
    (htail : (head :: xs).getLast? = some tail)
    : ∃ l', l.insertAfter cur tail = some l' ∧ l'.Ring head (xs ++ cur :: ys) := by
  obtain ⟨front, a, b, back, hfront, hback⟩ := exists_cut head xs ys
  have hcut : head :: (xs ++ ys) ++ [head] = front ++ a :: b :: back := by
    rw [← hback, ← List.cons_append, hfront]
    simp
  have hcut' : head :: (xs ++ cur :: ys) ++ [head] = front ++ a :: cur :: b :: back := by
    rw [← hback, ← List.cons_append, hfront]
    simp
  obtain rfl : a = tail := by simpa [hfront] using htail
  obtain ⟨hfst, hsnd⟩ := nodup_of_cut h.nodup hcut (by simp)
  have hcur' : cur ∉ front ++ a :: b :: back := by
    rw [← hcut]
    simp at hcur ⊢
    tauto
  obtain ⟨l', hl', hlinked, -⟩ := linked_insert (hcut ▸ h.linked) hfst hsnd hcur'
  refine ⟨l', hl', hcut' ▸ hlinked, ?_⟩
  have hperm : (head :: (xs ++ cur :: ys)).Perm (cur :: head :: (xs ++ ys)) := by
    exact (List.perm_middle.cons head).trans (List.Perm.swap _ _ _)
  rw [hperm.nodup_iff]
  exact List.nodup_cons.mpr ⟨hcur, h.nodup⟩

theorem Ring.unlink {l : Links α} {head cur : α} {xs ys : List α} (h : l.Ring head (xs ++ cur :: ys))
    : (l.unlink cur).Ring head (xs ++ ys) := by
  obtain ⟨front, a, b, back, hfront, hback⟩ := exists_cut head xs ys
  have hcut : head :: (xs ++ ys) ++ [head] = front ++ a :: b :: back := by
    rw [← hback, ← List.cons_append, hfront]
    simp
  have hcut' : head :: (xs ++ cur :: ys) ++ [head] = front ++ a :: cur :: b :: back := by
    rw [← hback, ← List.cons_append, hfront]
    simp
  obtain ⟨hfst, hsnd⟩ := nodup_of_cut h.nodup hcut' (by simp)
  obtain ⟨hlinked, -⟩ := linked_unlink (hcut' ▸ h.linked) (by simpa using hfst) hsnd
  refine ⟨hcut ▸ hlinked, ?_⟩
  have hsub : (head :: (xs ++ ys)).Sublist (head :: (xs ++ cur :: ys)) := by
    exact ((List.sublist_cons_self cur ys).append_left xs).cons_cons head
  exact hsub.nodup h.nodup

theorem unlink_eq_self {l : Links α} {cur : α} (hprev : l.prev cur = none)
    : l.unlink cur = l := by
  simp [unlink, hprev]

theorem Ring.unlink_erase {l : Links α} {head cur : α} {xs : List α} (h : l.Ring head xs)
    (hcur : cur ∈ xs ∨ l.prev cur = none)
    : (l.unlink cur).Ring head (xs.erase cur) := by
  by_cases hmem : cur ∈ xs
  . obtain ⟨front, back, rfl, hfront⟩ := List.eq_append_cons_of_mem hmem
    rw [List.erase_append_right _ hfront, List.erase_cons_head]
    exact h.unlink
  . rw [List.erase_of_not_mem hmem, unlink_eq_self (hcur.resolve_left hmem)]
    exact h

theorem Ring.clear {l : Links α} {head cur : α} {xs : List α} (h : l.Ring head xs)
    (hcur : cur ∉ head :: xs)
    : (l.clear cur).Ring head xs := by
  refine h.congr ?_
  intro a ha
  have : a ≠ cur := by
    rintro rfl
    exact hcur ha
  simp [Links.clear, this]

theorem Ring.setNext {l : Links α} {head cur : α} {xs : List α} {dest : Option α}
    (h : l.Ring head xs) (hcur : cur ∉ head :: xs)
    : (l.setNext cur dest).Ring head xs := by
  refine h.congr ?_
  intro a ha
  have : a ≠ cur := by
    rintro rfl
    exact hcur ha
  simp [this]

end Links
