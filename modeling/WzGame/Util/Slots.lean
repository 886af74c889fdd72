import Mathlib.Data.List.Forall2

/-!
This module contains texts with marks for values that are sent beside them, each one behind the slot it fills.
-/

namespace Slots

variable {α : Type}

structure Item (α : Type) where
  lead : List α
  slot : List α
  tail : List α

def text (mark : α) (head : List α) (items : List (Item α)) : List α :=
  head ++ items.flatMap fun item => item.lead ++ item.slot ++ mark :: item.tail

def InOrder (mark : α) (text : List α) (slots : List (List α)) : Prop :=
  ∃ pieces last, text = (pieces.flatMap fun piece => piece ++ [mark]) ++ last ∧ mark ∉ last
    ∧ List.Forall₂ (fun piece slot => mark ∉ piece ∧ slot <:+ piece) pieces slots

section Text

variable {mark : α} {head : List α} {items : List (Item α)}

theorem text_cons (item : Item α) (items : List (Item α))
    : text mark head (item :: items) = (head ++ item.lead ++ item.slot) ++ mark :: text mark item.tail items := by
  simp [text]

theorem text_append (items items' : List (Item α))
    : text mark head (items ++ items') = text mark (text mark head items) items' := by
  simp [text]

theorem inOrder_text (hhead : mark ∉ head)
    (hitems : ∀ item ∈ items, mark ∉ item.lead ∧ mark ∉ item.slot ∧ mark ∉ item.tail)
    : InOrder mark (text mark head items) (items.map Item.slot) := by
  induction items generalizing head with
  | nil => exact ⟨[], head, by simp [text], hhead, .nil⟩
  | cons item items ih =>
    obtain ⟨⟨hlead, hslot, htail⟩, hitems⟩ := List.forall_mem_cons.mp hitems
    obtain ⟨pieces, last, hpieces, hlast, hslots⟩ := ih htail hitems
    refine ⟨(head ++ item.lead ++ item.slot) :: pieces, last, ?_, hlast, .cons ⟨?_, ?_⟩ hslots⟩
    . rw [text_cons, hpieces, List.flatMap_cons]
      simp
    . simp [hhead, hlead, hslot]
    . exact List.suffix_append _ _

variable [DecidableEq α]

theorem InOrder.count {text : List α} {slots : List (List α)} (h : InOrder mark text slots)
    : text.count mark = slots.length := by
  obtain ⟨pieces, last, rfl, hlast, hslots⟩ := h
  rw [List.count_append, List.count_eq_zero.mpr hlast, Nat.add_zero]
  induction hslots with
  | nil => rfl
  | cons hpiece _ ih =>
    rw [List.flatMap_cons, List.count_append, List.count_append, List.count_eq_zero.mpr hpiece.1, ih]
    simp [Nat.add_comm]

theorem le_count_text
    : head.count mark + items.length ≤ (text mark head items).count mark
        ∧ ∀ item ∈ items, item.slot.count mark + items.length ≤ (text mark head items).count mark := by
  induction items generalizing head with
  | nil => simp [text]
  | cons item items ih =>
    obtain ⟨hhead, hslots⟩ := @ih item.tail
    rw [text_cons, List.count_append, List.count_cons_self, List.count_append, List.count_append, List.length_cons]
    refine ⟨by omega, fun item' hitem' => ?_⟩
    rcases List.mem_cons.mp hitem' with rfl | hitem'
    . omega
    . have hslot := hslots item' hitem'
      omega

theorem inOrder_text_iff (hitems : ∀ item ∈ items, mark ∉ item.lead ∧ mark ∉ item.tail)
    : InOrder mark (text mark head items) (items.map Item.slot)
        ↔ mark ∉ head ∧ ∀ item ∈ items, mark ∉ item.slot := by
  constructor
  . intro h
    have hcount := h.count
    rw [List.length_map] at hcount
    obtain ⟨hhead, hslots⟩ := @le_count_text _ mark head items _
    refine ⟨List.count_eq_zero.mp (by omega), fun item hitem => List.count_eq_zero.mp ?_⟩
    have hslot := hslots item hitem
    omega
  . rintro ⟨hhead, hslots⟩
    exact inOrder_text hhead fun item hitem => ⟨(hitems item hitem).1, hslots item hitem, (hitems item hitem).2⟩

end Text

end Slots
