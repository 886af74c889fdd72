import Mathlib.Data.List.MinMax
import Mathlib.Data.List.Infix
import Mathlib.Data.List.Forall2

/-!
This module contains the search for keys in a text: where a key is found from left to right, texts in which keys
are replaced by a mark, and which keys are found when the longest one goes first.
-/

namespace Substrings

variable {α : Type}

inductive Piece (α : Type) where
  | element (a : α)
  | word (key : List α)
deriving DecidableEq

namespace Piece

def text : Piece α → List α
  | element a => [a]
  | word key => key

def shown (mark : α) : Piece α → α
  | element a => a
  | word _ => mark

end Piece

def original (pieces : List (Piece α)) : List α := pieces.flatMap Piece.text

structure Node (α : Type) where
  key : List α
  position : Nat
deriving DecidableEq

def nodes : Nat → List (Piece α) → List (Node α)
  | _, [] => []
  | idx, .element _ :: pieces => nodes (idx + 1) pieces
  | idx, .word key :: pieces => ⟨key, idx⟩ :: nodes (idx + key.length) pieces

section Pieces

variable {pieces : List (Piece α)}

@[simp]
theorem original_nil : original ([] : List (Piece α)) = [] := rfl

@[simp]
theorem original_element (a : α) (pieces : List (Piece α))
    : original (.element a :: pieces) = a :: original pieces := rfl

@[simp]
theorem original_word (key : List α) (pieces : List (Piece α))
    : original (.word key :: pieces) = key ++ original pieces := rfl

@[simp]
theorem original_append (pieces pieces' : List (Piece α))
    : original (pieces ++ pieces') = original pieces ++ original pieces' := List.flatMap_append

@[simp]
theorem original_map_element (text : List α) : original (text.map .element) = text := by
  induction text with
  | nil => rfl
  | cons a text ih => rw [List.map_cons, original_element, ih]

theorem nodes_append (idx : Nat) (pieces pieces' : List (Piece α))
    : nodes idx (pieces ++ pieces') = nodes idx pieces ++ nodes (idx + (original pieces).length) pieces' := by
  induction pieces generalizing idx with
  | nil => rfl
  | cons piece pieces ih =>
    cases piece with
    | element a =>
      rw [List.cons_append, nodes, nodes, ih, original_element, List.length_cons, Nat.add_assoc, Nat.add_comm 1]
    | word key =>
      rw [List.cons_append, nodes, nodes, ih, original_word, List.length_append, Nat.add_assoc, List.cons_append]

@[simp]
theorem nodes_map_element (idx : Nat) (text : List α) : nodes idx (text.map .element) = [] := by
  induction text generalizing idx with
  | nil => rfl
  | cons a text ih => exact ih (idx + 1)

theorem mem_nodes {idx : Nat} {node : Node α}
    : node ∈ nodes idx pieces ↔ ∃ before after, pieces = before ++ .word node.key :: after
        ∧ node.position = idx + (original before).length := by
  constructor
  . intro h
    induction pieces generalizing idx with
    | nil => contradiction
    | cons piece pieces ih =>
      cases piece with
      | element a =>
        obtain ⟨before, after, rfl, hpos⟩ := ih h
        exact ⟨.element a :: before, after, rfl, by simp [hpos]; omega⟩
      | word key =>
        rcases List.mem_cons.mp h with rfl | h
        . exact ⟨[], pieces, rfl, rfl⟩
        . obtain ⟨before, after, rfl, hpos⟩ := ih h
          exact ⟨.word key :: before, after, rfl, by simp [hpos]; omega⟩
  . rintro ⟨before, after, rfl, hpos⟩
    rw [nodes_append, ← hpos]
    exact List.mem_append_right _ List.mem_cons_self

theorem le_position {idx : Nat} {node : Node α} (h : node ∈ nodes idx pieces) : idx ≤ node.position := by
  obtain ⟨before, after, -, hpos⟩ := mem_nodes.mp h
  omega

theorem key_occurs {node : Node α} (h : node ∈ nodes 0 pieces)
    : node.key <+: (original pieces).drop node.position := by
  obtain ⟨before, after, rfl, hpos⟩ := mem_nodes.mp h
  rw [original_append, hpos, Nat.zero_add, List.drop_left, original_word]
  exact List.prefix_append _ _

theorem pairwise_nodes (idx : Nat) (pieces : List (Piece α))
    : (nodes idx pieces).Pairwise fun node node' => node.position + node.key.length ≤ node'.position := by
  induction pieces generalizing idx with
  | nil => exact List.Pairwise.nil
  | cons piece pieces ih =>
    cases piece with
    | element a => exact ih (idx + 1)
    | word key => exact List.Pairwise.cons (fun node hnode => le_position hnode) (ih (idx + key.length))

theorem interval_unique {β : Type} {start width : β → Nat} {xs : List β}
    (h : xs.Pairwise fun x y => start x + width x ≤ start y) {x y : β} (hx : x ∈ xs) (hy : y ∈ xs) {place : Nat}
    (hin : start x ≤ place ∧ place < start x + width x) (hin' : start y ≤ place ∧ place < start y + width y)
    : x = y := by
  obtain ⟨i, hi, rfl⟩ := List.mem_iff_getElem.mp hx
  obtain ⟨j, hj, rfl⟩ := List.mem_iff_getElem.mp hy
  have hapart := List.pairwise_iff_getElem.mp h
  rcases Nat.lt_trichotomy i j with hij | rfl | hji
  . have hend := hapart i j hi hj hij
    omega
  . rfl
  . have hend := hapart j i hj hi hji
    omega

theorem node_unique {idx pos : Nat} {node node' : Node α} (hnode : node ∈ nodes idx pieces)
    (hnode' : node' ∈ nodes idx pieces) (hle : node.position ≤ pos) (hlt : pos < node.position + node.key.length)
    (hle' : node'.position ≤ pos) (hlt' : pos < node'.position + node'.key.length)
    : node = node' :=
  interval_unique (pairwise_nodes idx pieces) hnode hnode' ⟨hle, hlt⟩ ⟨hle', hlt'⟩

end Pieces

variable [DecidableEq α]

/-- Where the key is found from left to right, at the numbers of the elements. The first `skip` elements belong to
a key before. -/
def positions (key : List α) : Nat → Nat → List α → List Nat
  | _, _, [] => []
  | skip + 1, idx, _ :: text => positions key skip (idx + 1) text
  | 0, idx, a :: text =>
    if key <+: a :: text then
      idx :: positions key (key.length - 1) (idx + 1) text
    else
      positions key 0 (idx + 1) text

def replace (key : List α) (mark : α) : Nat → List α → List α
  | _, [] => []
  | skip + 1, _ :: text => replace key mark skip text
  | 0, a :: text =>
    if key <+: a :: text then
      mark :: replace key mark (key.length - 1) text
    else
      a :: replace key mark 0 text

def mark (key : List α) (pieces : List (Piece α)) : List (Piece α) :=
  replace (key.map .element) (.word key) 0 pieces

def longest (keys : List (List α)) (text : List α) : Option (List α) :=
  (keys.filter (· <+: text)).argmax List.length

def scan (keys : List (List α)) : Nat → List α → List (Piece α)
  | _, [] => []
  | skip + 1, _ :: text => scan keys skip text
  | 0, a :: text =>
    match longest keys (a :: text) with
    | none => .element a :: scan keys 0 text
    | some key => .word key :: scan keys (key.length - 1) text

section Replace

variable {key text : List α}

theorem replace_skip (mark : α) (skip : Nat) (text : List α)
    : replace key mark skip text = replace key mark 0 (text.drop skip) := by
  induction text generalizing skip with
  | nil => cases skip <;> rfl
  | cons a text ih =>
    cases skip with
    | zero => rfl
    | succ skip => exact ih skip

theorem positions_skip (skip idx : Nat) (text : List α)
    : positions key skip idx text = positions key 0 (idx + skip) (text.drop skip) := by
  induction text generalizing skip idx with
  | nil => cases skip <;> rfl
  | cons a text ih =>
    cases skip with
    | zero => rfl
    | succ skip =>
      rw [positions, ih, List.drop_succ_cons, Nat.add_assoc, Nat.add_comm 1]

theorem positions_append (hkey : key ≠ []) (idx : Nat) (text : List α)
    : positions key 0 idx (key ++ text) = idx :: positions key 0 (idx + key.length) text := by
  cases key with
  | nil => exact absurd rfl hkey
  | cons a key =>
    have hhead : a :: key <+: a :: (key ++ text) := List.prefix_append (a :: key) text
    rw [List.cons_append, positions, if_pos hhead, positions_skip, List.length_cons, Nat.add_sub_cancel,
      List.drop_left, Nat.add_assoc, Nat.add_comm 1]

theorem positions_append_of_missed {front : List α} (idx : Nat)
    (h : ∀ front' back, front = front' ++ back → back ≠ [] → ¬ key <+: back ++ text)
    : positions key 0 idx (front ++ text) = positions key 0 (idx + front.length) text := by
  induction front generalizing idx with
  | nil => rfl
  | cons a front ih =>
    have hmissed := h [] (a :: front) rfl (List.cons_ne_nil _ _)
    rw [List.cons_append] at hmissed ⊢
    rw [positions, if_neg hmissed, ih, List.length_cons, Nat.add_assoc, Nat.add_comm 1]
    intro front' back hfront
    exact h (a :: front') back (by rw [hfront, List.cons_append])

theorem replace_append (mark : α) (hkey : key ≠ []) (text : List α)
    : replace key mark 0 (key ++ text) = mark :: replace key mark 0 text := by
  cases key with
  | nil => exact absurd rfl hkey
  | cons a key =>
    have hhead : a :: key <+: a :: (key ++ text) := List.prefix_append (a :: key) text
    rw [List.cons_append, replace, if_pos hhead, replace_skip, List.length_cons, Nat.add_sub_cancel,
      List.drop_left]

theorem replace_cons (mark : α) {a : α} (h : ¬ key <+: a :: text)
    : replace key mark 0 (a :: text) = a :: replace key mark 0 text := by
  rw [replace, if_neg h]

theorem search_induction {good : List α → Prop} (hkey : key ≠ []) (nil : good [])
    (found : ∀ text, good text → good (key ++ text))
    (missed : ∀ a text, ¬ key <+: a :: text → good text → good (a :: text)) (text : List α)
    : good text := by
  induction hlength : text.length using Nat.strong_induction_on generalizing text with
  | _ length ih =>
    cases text with
    | nil => exact nil
    | cons a text =>
      by_cases hhead : key <+: a :: text
      . obtain ⟨rest, hrest⟩ := hhead
        have hlt : rest.length < length := by
          have hpos := List.length_pos_iff.mpr hkey
          have hsum := congrArg List.length hrest
          rw [List.length_append] at hsum
          omega
        rw [← hrest]
        exact found rest (ih rest.length hlt rest rfl)
      . exact missed a text hhead (ih text.length (by simp [← hlength]) text rfl)

theorem le_of_mem_positions {skip idx pos : Nat} (h : pos ∈ positions key skip idx text) : idx + skip ≤ pos := by
  induction text generalizing skip idx with
  | nil => simp [positions] at h
  | cons a text ih =>
    cases skip with
    | succ skip =>
      have hle := ih h
      omega
    | zero =>
      rw [positions] at h
      split at h
      . rcases List.mem_cons.mp h with rfl | h
        . exact Nat.le_refl _
        . have hle := ih h
          omega
      . have hle := ih h
        omega

theorem mem_positions {whole : List α} {skip idx pos : Nat} (hwhole : text = whole.drop idx)
    (h : pos ∈ positions key skip idx text)
    : idx + skip ≤ pos ∧ key <+: whole.drop pos := by
  induction text generalizing skip idx with
  | nil => simp [positions] at h
  | cons a text ih =>
    have htail : text = whole.drop (idx + 1) := by rw [← List.drop_drop, ← hwhole, List.drop_one, List.tail_cons]
    cases skip with
    | succ skip =>
      obtain ⟨hle, hocc⟩ := ih htail h
      exact ⟨by omega, hocc⟩
    | zero =>
      rw [positions] at h
      split at h
      . next hhead =>
        rcases List.mem_cons.mp h with rfl | h
        . exact ⟨by omega, hwhole ▸ hhead⟩
        . obtain ⟨hle, hocc⟩ := ih htail h
          exact ⟨by omega, hocc⟩
      . obtain ⟨hle, hocc⟩ := ih htail h
        exact ⟨by omega, hocc⟩

theorem pairwise_positions (hkey : key ≠ []) (skip idx : Nat) (text : List α)
    : (positions key skip idx text).Pairwise fun pos pos' => pos + key.length ≤ pos' := by
  induction text generalizing skip idx with
  | nil => exact List.Pairwise.nil
  | cons a text ih =>
    cases skip with
    | succ skip => exact ih skip (idx + 1)
    | zero =>
      rw [positions]
      split
      . refine List.Pairwise.cons ?_ (ih _ _)
        intro pos hpos
        have hle := le_of_mem_positions hpos
        have hlength := List.length_pos_iff.mpr hkey
        omega
      . exact ih 0 (idx + 1)

theorem positions_ahead (hkey : key ≠ []) {whole : List α} {skip idx : Nat} {others : List Nat}
    (hwhole : text = whole.drop idx) (hapart : others.Pairwise fun pos pos' => pos + key.length ≤ pos')
    (hothers : ∀ pos ∈ others, idx + skip ≤ pos ∧ key <+: whole.drop pos)
    : others.length ≤ (positions key skip idx text).length
        ∧ (others.length = (positions key skip idx text).length →
          List.Forall₂ (fun pos other => pos ≤ other ∧ other < pos + key.length)
            (positions key skip idx text) others) := by
  induction text generalizing skip idx others with
  | nil =>
    have hnone : others = [] := by
      rw [List.eq_nil_iff_forall_not_mem]
      intro pos hpos
      obtain ⟨hle, hocc⟩ := hothers pos hpos
      have hlength : whole.length ≤ idx := List.drop_eq_nil_iff.mp hwhole.symm
      rw [List.drop_eq_nil_of_le (by omega), List.prefix_nil] at hocc
      exact hkey hocc
    rw [hnone]
    exact ⟨Nat.le_refl _, fun _ => .nil⟩
  | cons a text ih =>
    have htail : text = whole.drop (idx + 1) := by rw [← List.drop_drop, ← hwhole, List.drop_one, List.tail_cons]
    have hlength := List.length_pos_iff.mpr hkey
    cases skip with
    | succ skip =>
      refine ih htail hapart fun pos hpos => ?_
      obtain ⟨hle, hocc⟩ := hothers pos hpos
      exact ⟨by omega, hocc⟩
    | zero =>
      rw [positions]
      split
      . cases others with
        | nil => exact ⟨Nat.zero_le _, fun h => by simp at h⟩
        | cons other others =>
          obtain ⟨hother, hothers⟩ := List.forall_mem_cons.mp hothers
          obtain ⟨hfirst, hapart'⟩ := List.pairwise_cons.mp hapart
          obtain ⟨hle, hahead⟩ := @ih (key.length - 1) (idx + 1) others htail hapart' fun pos hpos =>
            ⟨by have hpos := hfirst pos hpos; omega, (hothers pos hpos).2⟩
          refine ⟨by simpa using hle, fun heq => .cons ⟨by omega, ?_⟩ (hahead (by simpa using heq))⟩
          -- otherwise all of them are behind the key that is found here
          by_contra hbehind
          have hall := (@ih (key.length - 1) (idx + 1) (other :: others) htail hapart fun pos hpos => by
            rcases List.mem_cons.mp hpos with rfl | hpos
            . exact ⟨by omega, hother.2⟩
            . exact ⟨by have hpos := hfirst pos hpos; omega, (hothers pos hpos).2⟩).1
          rw [List.length_cons, List.length_cons] at heq
          rw [List.length_cons] at hall
          omega
      . next hhead =>
        refine ih htail hapart fun pos hpos => ?_
        obtain ⟨hle, hocc⟩ := hothers pos hpos
        refine ⟨?_, hocc⟩
        by_contra hlt
        obtain rfl : pos = idx := by omega
        rw [← hwhole] at hocc
        exact hhead hocc

end Replace

section Places

variable {key : List α} {pieces : List (Piece α)}

def places (key : List α) (pieces : List (Piece α)) : List Nat :=
  ((nodes 0 pieces).filter (·.key = key)).map (·.position)

theorem mem_places {pos : Nat} : pos ∈ places key pieces ↔ ⟨key, pos⟩ ∈ nodes 0 pieces := by
  rw [places, List.mem_map]
  constructor
  . rintro ⟨⟨key', pos'⟩, hnode, rfl⟩
    obtain ⟨hmem, hkey⟩ := List.mem_filter.mp hnode
    obtain rfl : key' = key := by simpa using hkey
    exact hmem
  . intro hnode
    exact ⟨⟨key, pos⟩, List.mem_filter.mpr ⟨hnode, by simp⟩, rfl⟩

theorem length_places (key : List α) (pieces : List (Piece α))
    : (places key pieces).length = pieces.count (.word key) := by
  have hcount : ∀ idx, ((nodes idx pieces).filter (·.key = key)).length = pieces.count (.word key) := by
    induction pieces with
    | nil => intro idx; rfl
    | cons piece pieces ih =>
      intro idx
      cases piece with
      | element a =>
        rw [nodes, ih, List.count_cons_of_ne (by simp)]
      | word key' =>
        rw [nodes, List.count_cons]
        by_cases heq : key' = key
        . simp [heq, ih]
        . simp [heq, ih]
  rw [places, List.length_map, hcount]

theorem places_ahead (hkey : key ≠ []) (pieces : List (Piece α))
    : (places key pieces).length ≤ (positions key 0 0 (original pieces)).length
        ∧ ((places key pieces).length = (positions key 0 0 (original pieces)).length →
          List.Forall₂ (fun pos place => pos ≤ place ∧ place < pos + key.length)
            (positions key 0 0 (original pieces)) (places key pieces)) := by
  refine positions_ahead hkey rfl ?_ ?_
  . refine List.pairwise_map.mpr (List.Pairwise.imp_of_mem ?_ ((pairwise_nodes 0 pieces).filter _))
    intro node node' hnode _ hle
    obtain rfl : node.key = key := by simpa using (List.mem_filter.mp hnode).2
    exact hle
  . intro pos hpos
    exact ⟨Nat.zero_le _, key_occurs (mem_places.mp hpos)⟩

theorem length_places_lt {whole : List α} (hkey : key ≠ []) (hwhole : .word whole ∈ pieces) (hne : key ≠ whole)
    (hinside : key <:+: whole)
    : (places key pieces).length < (positions key 0 0 (original pieces)).length := by
  obtain ⟨before, after, rfl⟩ := List.append_of_mem hwhole
  obtain ⟨front, back, rfl⟩ := hinside
  have hle := (places_ahead hkey
    (before ++ (front.map .element ++ .word key :: back.map .element) ++ after)).1
  have hnone : ∀ text : List α, (text.map Piece.element).count (.word key) = 0 := by
    intro text
    apply List.count_eq_zero.mpr
    simp
  have hother : ∀ pieces : List (Piece α),
      (.word (front ++ key ++ back) :: pieces).count (.word key) = pieces.count (.word key) := by
    intro pieces
    apply List.count_cons_of_ne
    intro heq
    exact hne (Piece.word.inj heq).symm
  rw [length_places] at hle ⊢
  rw [List.count_append, hother]
  simp only [List.count_append, List.count_cons_self, hnone, original_append,
    original_word, original_map_element, List.append_assoc] at hle ⊢
  omega

end Places

end Substrings
