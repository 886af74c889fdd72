import WzGame.Util.Substrings

/-!
This module contains the substitution of values for the marks in a text, where elements count as equal that fold to the
same one. Marks are replaced by one value after the other, or all at once where they stand in the text.
-/

namespace Substitutions

open Substrings (positions)

variable {α : Type}

def Occurs (fold : α → α) (mark text : List α) : Prop := mark.map fold <+: text.map fold

abbrev Entry (α : Type) := List α × List α

inductive Part (α : Type) where
  | kept (a : α)
  | replaced (word mark : List α)
deriving DecidableEq

def Part.word : Part α → List α
  | kept a => [a]
  | replaced word _ => word

def Part.mark? : Part α → Option (List α)
  | kept _ => none
  | replaced _ mark => some mark

def source (parts : List (Part α)) : List α := parts.flatMap Part.word

structure Decomposes (fold : α → α) (marks : List (List α)) (text : List α) (parts : List (Part α)) : Prop where
  covers : source parts = text
  marked : ∀ word mark, .replaced word mark ∈ parts → mark ∈ marks ∧ word.map fold = mark.map fold
  complete : ∀ mark ∈ marks, ∀ front back, front ++ back = text → Occurs fold mark back →
    ∃ before word after, parts = before ++ .replaced word mark :: after ∧ source before = front

def Apart (fold : α → α) (marks : List (List α)) (text : List α) : Prop :=
  ∀ mark ∈ marks, ∀ mark' ∈ marks, ∀ pos shift, Occurs fold mark (text.drop pos) →
    Occurs fold mark' (text.drop (pos + shift)) → shift < mark.length → shift = 0 ∧ mark' = mark

section Parts

variable {fold : α → α} {marks : List (List α)} {text : List α} {part : Part α} {parts parts' : List (Part α)}

@[simp]
theorem source_nil : source ([] : List (Part α)) = [] := rfl

@[simp]
theorem source_cons (part : Part α) (parts : List (Part α)) : source (part :: parts) = part.word ++ source parts := rfl

@[simp]
theorem source_append (parts parts' : List (Part α)) : source (parts ++ parts') = source parts ++ source parts' :=
  List.flatMap_append

@[simp]
theorem source_map_kept (text : List α) : source (text.map .kept) = text := by
  induction text with
  | nil => rfl
  | cons a text ih => rw [List.map_cons, source_cons, ih, Part.word, List.singleton_append]

theorem occurs_of_fold {word mark : List α} (hword : word.map fold = mark.map fold) (rest : List α)
    : Occurs fold mark (word ++ rest) := by
  rw [Occurs, List.map_append, hword]
  exact List.prefix_append _ _

theorem Decomposes.nil (hmarks : [] ∉ marks) : Decomposes fold marks [] [] := by
  refine ⟨rfl, by simp, ?_⟩
  intro mark hmark front back htext hoccurs
  obtain ⟨-, rfl⟩ := List.append_eq_nil_iff.mp htext
  have hnil := List.map_eq_nil_iff.mp (List.prefix_nil.mp hoccurs)
  exact absurd (hnil ▸ hmark) hmarks

theorem Decomposes.cons (h : Decomposes fold marks text parts)
    (hmarked : ∀ word mark, part = .replaced word mark → mark ∈ marks ∧ word.map fold = mark.map fold)
    (hcomplete : ∀ mark ∈ marks, ∀ front back, part.word = front ++ back → back ≠ [] →
      Occurs fold mark (back ++ text) → front = [] ∧ ∃ word, part = .replaced word mark)
    : Decomposes fold marks (part.word ++ text) (part :: parts) := by
  refine ⟨by rw [source_cons, h.covers], ?_, ?_⟩
  . intro word mark hmem
    rcases List.mem_cons.mp hmem with heq | hmem
    . exact hmarked word mark heq.symm
    . exact h.marked word mark hmem
  . intro mark hmark front back htext hoccurs
    have hbehind : ∀ rest, rest ++ back = text → front = part.word ++ rest →
        ∃ before word after, part :: parts = before ++ .replaced word mark :: after ∧ source before = front := by
      intro rest hrest hfront
      obtain ⟨before, word, after, rfl, hbefore⟩ := h.complete mark hmark rest back hrest hoccurs
      exact ⟨part :: before, word, after, rfl, by rw [source_cons, hbefore, hfront]⟩
    rcases List.append_eq_append_iff.mp htext with ⟨rest, hpart, hback⟩ | ⟨rest, hfront, htext⟩
    . by_cases hrest : rest = []
      . rw [hrest, List.append_nil] at hpart
        exact hbehind [] (by rw [hback, hrest]; rfl) (by rw [hpart, List.append_nil])
      . rw [hback] at hoccurs
        obtain ⟨rfl, word, rfl⟩ := hcomplete mark hmark front rest hpart hrest hoccurs
        exact ⟨[], word, parts, rfl, rfl⟩
    . exact hbehind rest htext.symm hfront

theorem Decomposes.congr {marks' : List (List α)} (h : Decomposes fold marks text parts)
    (hmarks : ∀ mark, mark ∈ marks ↔ mark ∈ marks') : Decomposes fold marks' text parts := by
  refine ⟨h.covers, ?_, ?_⟩
  . intro word mark hword
    obtain ⟨hmark, hfold⟩ := h.marked word mark hword
    exact ⟨(hmarks mark).mp hmark, hfold⟩
  . intro mark hmark
    exact h.complete mark ((hmarks mark).mpr hmark)

theorem Decomposes.cons_kept (h : Decomposes fold marks text parts) {a : α}
    (hnone : ∀ mark ∈ marks, ¬ Occurs fold mark (a :: text))
    : Decomposes fold marks (a :: text) (.kept a :: parts) := by
  refine @Decomposes.cons _ _ _ _ (.kept a) _ h ?_ ?_
  . intro word mark hpart
    contradiction
  . intro mark hmark front back hsplit hback hoccurs
    cases front with
    | nil =>
      rw [← show [a] = back from hsplit] at hoccurs
      exact absurd hoccurs (hnone mark hmark)
    | cons b front =>
      have hnil := List.append_eq_nil_iff.mp (List.cons.inj hsplit).right.symm
      exact absurd hnil.right hback

theorem Decomposes.cons_mark (h : Decomposes fold marks text parts) {word mark : List α}
    (hapart : Apart fold marks (word ++ text)) (hmark : mark ∈ marks) (hword : word.map fold = mark.map fold)
    : Decomposes fold marks (word ++ text) (.replaced word mark :: parts) := by
  have hlength : word.length = mark.length := by simpa using congrArg List.length hword
  refine @Decomposes.cons _ _ _ _ (.replaced word mark) _ h ?_ ?_
  . intro word' mark' hpart
    obtain ⟨rfl, rfl⟩ := Part.replaced.inj hpart
    exact ⟨hmark, hword⟩
  . intro mark' hmark' front back hsplit hback hoccurs
    have hsplit : word = front ++ back := hsplit
    have hlt : front.length < mark.length := by
      have hpositive := List.length_pos_iff.mpr hback
      rw [← hlength, hsplit, List.length_append]
      omega
    have hshift : back ++ text = (word ++ text).drop (0 + front.length) := by
      rw [hsplit, List.append_assoc, Nat.zero_add, List.drop_left]
    rw [hshift] at hoccurs
    obtain ⟨hzero, rfl⟩ := hapart mark hmark mark' hmark' 0 front.length (occurs_of_fold hword text) hoccurs hlt
    exact ⟨List.length_eq_zero_iff.mp hzero, word, rfl⟩

theorem Decomposes.tail (hpart : part.word ≠ []) (h : Decomposes fold marks text (part :: parts))
    : Decomposes fold marks (source parts) parts := by
  refine ⟨rfl, fun word mark hmem => h.marked word mark (List.mem_cons_of_mem _ hmem), ?_⟩
  intro mark hmark front back htext hoccurs
  have hwhole : (part.word ++ front) ++ back = text := by
    rw [List.append_assoc, htext, ← h.covers, source_cons]
  obtain ⟨before, word, after, hparts, hbefore⟩ := h.complete mark hmark _ back hwhole hoccurs
  cases before with
  | nil =>
    have hnil := List.append_eq_nil_iff.mp hbefore.symm
    exact absurd hnil.left hpart
  | cons part' before =>
    obtain ⟨rfl, hrest⟩ := List.cons.inj hparts
    exact ⟨before, word, after, hrest, List.append_cancel_left hbefore⟩

theorem Decomposes.length_word (h : Decomposes fold marks text parts) {word mark : List α}
    (hword : .replaced word mark ∈ parts) : word.length = mark.length := by
  simpa using congrArg List.length (h.marked word mark hword).right

theorem Decomposes.word_ne_nil (hmarks : [] ∉ marks) (h : Decomposes fold marks text parts) (hpart : part ∈ parts)
    : part.word ≠ [] := by
  cases part with
  | kept a => exact List.cons_ne_nil _ _
  | replaced word mark =>
    obtain ⟨hmark, hfold⟩ := h.marked word mark hpart
    intro hword
    rw [show word = [] from hword] at hfold
    exact hmarks (List.map_eq_nil_iff.mp hfold.symm ▸ hmark)

theorem Decomposes.head (hmarks : [] ∉ marks) (h : Decomposes fold marks text (part :: parts)) {mark : List α}
    (hmark : mark ∈ marks) (hoccurs : Occurs fold mark text) : ∃ word, part = .replaced word mark := by
  obtain ⟨before, word, after, hparts, hbefore⟩ := h.complete mark hmark [] text rfl hoccurs
  cases before with
  | nil => exact ⟨word, (List.cons.inj hparts).left⟩
  | cons part' before =>
    obtain ⟨rfl, -⟩ := List.cons.inj hparts
    have hnil := List.append_eq_nil_iff.mp hbefore
    exact absurd hnil.left (h.word_ne_nil hmarks List.mem_cons_self)

theorem Decomposes.occurs {word mark : List α} (h : Decomposes fold marks text (.replaced word mark :: parts))
    : mark ∈ marks ∧ Occurs fold mark text := by
  obtain ⟨hmark, hfold⟩ := h.marked word mark List.mem_cons_self
  rw [← h.covers, source_cons]
  exact ⟨hmark, occurs_of_fold hfold _⟩

theorem Decomposes.head_unique (hmarks : [] ∉ marks) {part' : Part α} (h : Decomposes fold marks text (part :: parts))
    (h' : Decomposes fold marks text (part' :: parts')) : part = part' ∧ source parts = source parts' := by
  have hcovers := h.covers.trans h'.covers.symm
  rw [source_cons, source_cons] at hcovers
  cases part with
  | kept a =>
    cases part' with
    | kept a' =>
      obtain ⟨rfl, hrest⟩ := List.cons.inj hcovers
      exact ⟨rfl, hrest⟩
    | replaced word' mark' =>
      obtain ⟨word, hword⟩ := h.head hmarks h'.occurs.left h'.occurs.right
      contradiction
  | replaced word mark =>
    obtain ⟨word', rfl⟩ := h'.head hmarks h.occurs.left h.occurs.right
    have hlength := (h.length_word List.mem_cons_self).trans (h'.length_word List.mem_cons_self).symm
    obtain ⟨hword, hrest⟩ := List.append_inj hcovers hlength
    exact ⟨by rw [show word = word' from hword], hrest⟩

theorem Decomposes.unique (hmarks : [] ∉ marks) (h : Decomposes fold marks text parts)
    (h' : Decomposes fold marks text parts') : parts = parts' := by
  induction parts generalizing text parts' with
  | nil =>
    cases parts' with
    | nil => rfl
    | cons part parts' =>
      have hnil := List.append_eq_nil_iff.mp (h'.covers.trans h.covers.symm)
      exact absurd hnil.left (h'.word_ne_nil hmarks List.mem_cons_self)
  | cons part parts ih =>
    cases parts' with
    | nil =>
      have hnil := List.append_eq_nil_iff.mp (h.covers.trans h'.covers.symm)
      exact absurd hnil.left (h.word_ne_nil hmarks List.mem_cons_self)
    | cons part' parts' =>
      obtain ⟨hpart, hrest⟩ := h.head_unique hmarks h'
      have htail := h.tail (h.word_ne_nil hmarks List.mem_cons_self)
      have htail' := h'.tail (h'.word_ne_nil hmarks List.mem_cons_self)
      rw [← hrest] at htail'
      rw [hpart, ih htail htail']

theorem Apart.drop (h : Apart fold marks text) (n : Nat) : Apart fold marks (text.drop n) := by
  intro mark hmark mark' hmark' pos shift hoccurs hoccurs' hlt
  rw [List.drop_drop] at hoccurs hoccurs'
  rw [← Nat.add_assoc] at hoccurs'
  exact h mark hmark mark' hmark' (n + pos) shift hoccurs hoccurs' hlt

theorem length_of_occurs (hmarks : [] ∉ marks) {mark : List α} (hmark : mark ∈ marks) {pos : Nat}
    (hoccurs : Occurs fold mark (text.drop pos)) : pos < text.length := by
  by_contra hout
  rw [List.drop_eq_nil_of_le (by omega)] at hoccurs
  exact hmarks (List.map_eq_nil_iff.mp (List.prefix_nil.mp hoccurs) ▸ hmark)

theorem Decomposes.at_position (hmarks : [] ∉ marks) (h : Decomposes fold marks text parts) {mark : List α}
    (hmark : mark ∈ marks) {pos : Nat} (hoccurs : Occurs fold mark (text.drop pos))
    : ∃ before word after, parts = before ++ .replaced word mark :: after ∧ (source before).length = pos
        ∧ word.length = mark.length := by
  have hpos := length_of_occurs hmarks hmark hoccurs
  obtain ⟨before, word, after, rfl, hbefore⟩ := h.complete mark hmark _ _ (List.take_append_drop pos text) hoccurs
  refine ⟨before, word, after, rfl, ?_, h.length_word (by simp)⟩
  rw [hbefore, List.length_take]
  omega

theorem Decomposes.apart (hmarks : [] ∉ marks) (h : Decomposes fold marks text parts) : Apart fold marks text := by
  intro mark hmark mark' hmark' pos shift hoccurs hoccurs' hlt
  obtain ⟨before, word, after, hparts, hbefore, hword⟩ := h.at_position hmarks hmark hoccurs
  obtain ⟨before', word', after', hparts', hbefore', hword'⟩ := h.at_position hmarks hmark' hoccurs'
  have hpositive : 0 < mark'.length := List.length_pos_iff.mpr fun hnil => hmarks (hnil ▸ hmark')
  rcases List.append_eq_append_iff.mp (hparts.symm.trans hparts') with ⟨rest, rfl, hrest⟩ | ⟨rest, rfl, hrest⟩
  . cases rest with
    | nil =>
      obtain ⟨hsame, -⟩ := List.cons.inj hrest
      rw [List.append_nil] at hbefore'
      exact ⟨by omega, (Part.replaced.inj hsame).right.symm⟩
    | cons part rest =>
      obtain ⟨rfl, -⟩ := List.cons.inj hrest
      rw [source_append, source_cons, List.length_append, List.length_append, Part.word] at hbefore'
      omega
  . cases rest with
    | nil =>
      obtain ⟨hsame, -⟩ := List.cons.inj hrest
      rw [List.append_nil] at hbefore
      exact ⟨by omega, (Part.replaced.inj hsame).right⟩
    | cons part rest =>
      obtain ⟨rfl, -⟩ := List.cons.inj hrest
      rw [source_append, source_cons, List.length_append, List.length_append, Part.word] at hbefore
      omega

end Parts

section Computed

variable [DecidableEq α]

instance {fold : α → α} {mark text : List α} : Decidable (Occurs fold mark text) :=
  inferInstanceAs (Decidable (_ <+: _))

/-- The text with the value for each place where the mark is found from left to right. The first `skip` elements belong
to the last one. -/
def replaceAll (fold : α → α) (mark value : List α) : Nat → List α → List α
  | _, [] => []
  | skip + 1, _ :: text => replaceAll fold mark value skip text
  | 0, a :: text =>
    if Occurs fold mark (a :: text) then
      value ++ replaceAll fold mark value (mark.length - 1) text
    else
      a :: replaceAll fold mark value 0 text

def scan (fold : α → α) (marks : List (List α)) : Nat → List α → List (Part α)
  | _, [] => []
  | skip + 1, _ :: text => scan fold marks skip text
  | 0, a :: text =>
    match marks.find? fun mark => Occurs fold mark (a :: text) with
    | some mark => .replaced ((a :: text).take mark.length) mark :: scan fold marks (mark.length - 1) text
    | none => .kept a :: scan fold marks 0 text

def valueOf (entries : List (Entry α)) (mark : List α) : Option (List α) :=
  (entries.find? fun entry => entry.1 = mark).map (·.2)

def Part.shown (entries : List (Entry α)) : Part α → List α
  | kept a => [a]
  | replaced word mark => (valueOf entries mark).getD word

def shown (entries : List (Entry α)) (parts : List (Part α)) : List α := parts.flatMap (Part.shown entries)

def Simultaneous (fold : α → α) (entries : List (Entry α)) (text result : List α) : Prop :=
  ∃ parts, Decomposes fold (entries.map (·.1)) text parts ∧ shown entries parts = result

def places (entries : List (Entry α)) (mark : List α) : Nat → List (Part α) → List Nat
  | _, [] => []
  | idx, part :: parts =>
    let rest := places entries mark (idx + (part.shown entries).length) parts
    if part.mark? = some mark then idx :: rest else rest

end Computed

section Scan

variable [DecidableEq α] {fold : α → α} {marks : List (List α)} {text : List α}

theorem scan_skip (skip : Nat) (text : List α) : scan fold marks skip text = scan fold marks 0 (text.drop skip) := by
  induction text generalizing skip with
  | nil => simp [scan]
  | cons a text ih =>
    cases skip with
    | zero => rfl
    | succ skip => exact ih skip

theorem decomposes_scan (hmarks : [] ∉ marks) (hapart : Apart fold marks text)
    : Decomposes fold marks text (scan fold marks 0 text) := by
  induction hlength : text.length using Nat.strong_induction_on generalizing text with
  | _ n ih =>
    cases text with
    | nil => exact Decomposes.nil hmarks
    | cons a text =>
      rw [scan]
      split
      . next mark hfind =>
        have hmark := List.mem_of_find?_eq_some hfind
        have hoccurs : Occurs fold mark (a :: text) := by simpa using List.find?_some hfind
        have hpositive : 0 < mark.length := List.length_pos_iff.mpr fun hnil => hmarks (hnil ▸ hmark)
        have hrest : scan fold marks (mark.length - 1) text = scan fold marks 0 ((a :: text).drop mark.length) := by
          rw [scan_skip, ← Nat.sub_add_cancel hpositive]
          rfl
        have hword : ((a :: text).take mark.length).map fold = mark.map fold := by
          rw [List.map_take]
          simpa using (List.prefix_iff_eq_take.mp hoccurs).symm
        have hwhole := List.take_append_drop mark.length (a :: text)
        have hbehind := ih _ (by rw [← hlength, List.length_drop]; simp; omega) (hapart.drop mark.length) rfl
        have hcons := hbehind.cons_mark (by rwa [hwhole]) hmark hword
        rw [hrest]
        rwa [hwhole] at hcons
      . next hfind =>
        have hbehind := ih _ (by simp [← hlength]) (hapart.drop 1) rfl
        refine hbehind.cons_kept ?_
        intro mark hmark
        simpa using List.find?_eq_none.mp hfind mark hmark

end Scan

end Substitutions
