import Mathlib.Algebra.Ring.Nat
import Mathlib.Data.List.Nodup
import Mathlib.Data.List.Perm.Subperm
import WzGame.Util.SubstringMarks

/-!
This module contains when the keys that are found each for itself, in the order of the places, are the ones that are
taken if the longest key goes first.
-/

namespace Substrings

section Lists

variable {β γ : Type}

theorem forall₂_of_ordered {related : β → γ → Prop} {before : γ → γ → Prop} {xs : List β} {ys : List γ}
    (hasymm : ∀ y y', before y y' → ¬ before y' y) (hys : ys.Pairwise before)
    (hxs : xs.Pairwise fun x x' => ∀ y ∈ ys, ∀ y' ∈ ys, related x y → related x' y' → before y y')
    (htotal : ∀ x ∈ xs, ∃ y ∈ ys, related x y) (honto : ∀ y ∈ ys, ∃ x ∈ xs, related x y)
    (hunique : ∀ x ∈ xs, ∀ y ∈ ys, ∀ y' ∈ ys, related x y → related x y' → y = y')
    : List.Forall₂ related xs ys := by
  induction xs generalizing ys with
  | nil =>
    cases ys with
    | nil => exact .nil
    | cons y ys =>
      obtain ⟨x, hx, -⟩ := honto y List.mem_cons_self
      contradiction
  | cons x xs ih =>
    cases ys with
    | nil =>
      obtain ⟨y, hy, -⟩ := htotal x List.mem_cons_self
      contradiction
    | cons y ys =>
      obtain ⟨hy, hys⟩ := List.pairwise_cons.mp hys
      obtain ⟨hx, hxs⟩ := List.pairwise_cons.mp hxs
      have hirrefl : ∀ y, ¬ before y y := fun y hyy => hasymm y y hyy hyy
      have hhead : related x y := by
        obtain ⟨y', hy', hrelated'⟩ := htotal x List.mem_cons_self
        obtain ⟨x', hx', hrelated⟩ := honto y List.mem_cons_self
        rcases List.mem_cons.mp hx' with rfl | hx'
        . exact hrelated
        . have hbefore := hx x' hx' y' hy' y List.mem_cons_self hrelated' hrelated
          rcases List.mem_cons.mp hy' with rfl | hy'
          . exact absurd hbefore (hirrefl y')
          . exact absurd hbefore (hasymm y y' (hy y' hy'))
      refine .cons hhead (ih hys ?_ ?_ ?_ ?_)
      . exact hxs.imp fun hmono y hy y' hy' =>
          hmono y (List.mem_cons_of_mem _ hy) y' (List.mem_cons_of_mem _ hy')
      . intro x' hx'
        obtain ⟨y', hy', hrelated⟩ := htotal x' (List.mem_cons_of_mem _ hx')
        rcases List.mem_cons.mp hy' with rfl | hy'
        . exact absurd (hx x' hx' y' List.mem_cons_self y' List.mem_cons_self hhead hrelated) (hirrefl y')
        . exact ⟨y', hy', hrelated⟩
      . intro y' hy'
        obtain ⟨x', hx', hrelated⟩ := honto y' (List.mem_cons_of_mem _ hy')
        rcases List.mem_cons.mp hx' with rfl | hx'
        . have heq := hunique x' List.mem_cons_self y List.mem_cons_self y' (List.mem_cons_of_mem _ hy') hhead
            hrelated
          exact absurd (heq ▸ hy y' hy') (hirrefl _)
        . exact ⟨x', hx', hrelated⟩
      . exact fun x' hx' y hy y' hy' =>
          hunique x' (List.mem_cons_of_mem _ hx') y (List.mem_cons_of_mem _ hy) y' (List.mem_cons_of_mem _ hy')

theorem exists_of_forall₂ {related : β → γ → Prop} {xs : List β} {ys : List γ} (h : List.Forall₂ related xs ys)
    : (∀ x ∈ xs, ∃ y ∈ ys, related x y) ∧ ∀ y ∈ ys, ∃ x ∈ xs, related x y := by
  induction h with
  | nil => simp
  | cons hhead _ ih =>
    refine ⟨?_, ?_⟩
    . intro x hx
      rcases List.mem_cons.mp hx with rfl | hx
      . exact ⟨_, List.mem_cons_self, hhead⟩
      . obtain ⟨y, hy, hrelated⟩ := ih.1 x hx
        exact ⟨y, List.mem_cons_of_mem _ hy, hrelated⟩
    . intro y hy
      rcases List.mem_cons.mp hy with rfl | hy
      . exact ⟨_, List.mem_cons_self, hhead⟩
      . obtain ⟨x, hx, hrelated⟩ := ih.2 y hy
        exact ⟨x, List.mem_cons_of_mem _ hx, hrelated⟩

theorem length_le_of_intervals {width : Nat} {starts others : List Nat}
    (hstarts : starts.Pairwise fun start start' => start + width ≤ start')
    (hothers : ∀ start ∈ starts, ∃ other ∈ others, start ≤ other ∧ other < start + width)
    : starts.length ≤ others.length := by
  choose! other hmem hle hlt using hothers
  have hnodup : (starts.map other).Nodup := by
    refine List.pairwise_map.mpr (List.Pairwise.imp_of_mem ?_ hstarts)
    intro start start' hstart hstart' hapart
    have hfirst := hlt start hstart
    have hsecond := hle start' hstart'
    omega
  have hsubset : starts.map other ⊆ others := by
    intro pos hpos
    obtain ⟨start, hstart, rfl⟩ := List.mem_map.mp hpos
    exact hmem start hstart
  rw [← List.length_map other]
  exact (List.subperm_of_subset hnodup hsubset).length_le

theorem length_eq_sum_filter [DecidableEq γ] {keys : List γ} (hkeys : keys.Nodup) {key : β → γ} {xs : List β}
    (hxs : ∀ x ∈ xs, key x ∈ keys)
    : xs.length = (keys.map fun k => (xs.filter (key · = k)).length).sum := by
  induction keys generalizing xs with
  | nil =>
    cases xs with
    | nil => rfl
    | cons x xs => exact absurd (hxs x List.mem_cons_self) List.not_mem_nil
  | cons k keys ih =>
    obtain ⟨hk, hkeys⟩ := List.nodup_cons.mp hkeys
    have hother : ∀ x ∈ xs.filter fun x => ! decide (key x = k), key x ∈ keys := by
      intro x hx
      obtain ⟨hx, hne⟩ := List.mem_filter.mp hx
      exact (List.mem_cons.mp (hxs x hx)).resolve_left (by simpa using hne)
    have hrest : (keys.map fun k' => ((xs.filter fun x => ! decide (key x = k)).filter (key · = k')).length)
        = keys.map fun k' => (xs.filter (key · = k')).length := by
      apply List.map_congr_left
      intro k' hk'
      rw [List.filter_filter]
      congr 2
      funext x
      by_cases hx : key x = k'
      . have hne : k' ≠ k := fun heq => hk (heq ▸ hk')
        simp [hx, hne]
      . simp [hx]
    rw [List.map_cons, List.sum_cons, List.length_eq_length_filter_add fun x => decide (key x = k),
      ih hkeys hother, hrest]

theorem eq_of_sum_eq {f g : β → Nat} {xs : List β} (hle : ∀ x ∈ xs, f x ≤ g x)
    : (xs.map f).sum ≤ (xs.map g).sum ∧ ((xs.map f).sum = (xs.map g).sum → ∀ x ∈ xs, f x = g x) := by
  induction xs with
  | nil => exact ⟨Nat.le_refl _, fun _ => List.forall_mem_nil _⟩
  | cons x xs ih =>
    obtain ⟨hx, hle⟩ := List.forall_mem_cons.mp hle
    obtain ⟨hsum, heq⟩ := ih hle
    rw [List.map_cons, List.map_cons, List.sum_cons, List.sum_cons]
    exact ⟨by omega, fun htotal => List.forall_mem_cons.mpr ⟨by omega, heq (by omega)⟩⟩

end Lists

section Meets

variable {α : Type} {keys : List (List α)} {pieces : List (Piece α)}

theorem infix_of_places {text key key' : List α} {pos pos' : Nat} (hkey : key <+: text.drop pos)
    (hkey' : key' <+: text.drop pos') (hle : pos ≤ pos') (hle' : pos' + key'.length ≤ pos + key.length)
    : key' <:+: key := by
  obtain ⟨rest, hrest⟩ := hkey
  have hdrop : text.drop pos' = key.drop (pos' - pos) ++ rest := by
    have hpos : pos' = pos + (pos' - pos) := by omega
    rw [hpos, ← List.drop_drop, ← hrest, Nat.add_sub_cancel_left, List.drop_append_of_le_length (by omega)]
  rw [hdrop] at hkey'
  have hpart := List.prefix_of_prefix_length_le hkey' (List.prefix_append _ rest)
    (by rw [List.length_drop]; omega)
  exact hpart.isInfix.trans (List.drop_suffix _ key).isInfix

def Node.Meets (node taken : Node α) : Prop :=
  taken.key = node.key ∧ node.position ≤ taken.position ∧ taken.position < node.position + node.key.length

theorem meets_unique {node taken taken' : Node α} (htaken : taken ∈ nodes 0 pieces)
    (htaken' : taken' ∈ nodes 0 pieces) (hmeets : node.Meets taken) (hmeets' : node.Meets taken')
    : taken = taken' := by
  obtain ⟨hkey, hle, hlt⟩ := hmeets
  obtain ⟨hkey', hle', hlt'⟩ := hmeets'
  rw [← hkey] at hlt hlt'
  rw [← hkey'] at hkey
  rcases Nat.le_total taken.position taken'.position with hbefore | hbefore
  . exact node_unique htaken htaken' hbefore (by omega) (Nat.le_refl _) (by rw [← hkey]; omega)
  . exact node_unique htaken htaken' (Nat.le_refl _) (by omega) hbefore (by rw [← hkey]; omega)

def Apart (keys : List (List α)) (pieces : List (Piece α)) : Prop :=
  ∀ taken ∈ nodes 0 pieces, ∀ key ∈ keys, taken.key ≠ key → ∀ offset < taken.key.length,
    ¬ key <+: (original pieces).drop (taken.position + offset)

theorem Apart.sheltered (h : Apart keys pieces) (earlier : List α → List α → Prop)
    : Sheltered earlier keys pieces := by
  intro key hkey pos hhead taken htaken hne hle hlt
  have hpos : taken.position + (pos - taken.position) = pos := by omega
  exact absurd (hpos.symm ▸ hhead) (h taken htaken key hkey hne (pos - taken.position) (by omega))

theorem Apart.missed (h : Apart keys pieces) {key word front back : List α} {before after : List (Piece α)}
    (hkey : key ∈ keys) (hbefore : pieces = before ++ .word word :: after) (hword : word = front ++ back)
    (hback : back ≠ []) (hne : word ≠ key)
    : ¬ key <+: back ++ original after := by
  have hlength := List.length_pos_iff.mpr hback
  have hclear := h ⟨word, (original before).length⟩ (mem_nodes.mpr ⟨before, after, hbefore, (Nat.zero_add _).symm⟩)
    key hkey hne front.length (by simp [hword]; omega)
  rw [hbefore, original_append, original_word, hword, ← List.drop_drop, List.drop_left, List.append_assoc,
    List.drop_left] at hclear
  exact hclear

end Meets

section Matched

variable {α : Type} [DecidableEq α] {keys : List (List α)} {found : List (Node α)} {pieces : List (Piece α)}

theorem positions_unique {key text : List α} (hkey : key ≠ []) {pos pos' place : Nat}
    (hpos : pos ∈ positions key 0 0 text) (hpos' : pos' ∈ positions key 0 0 text)
    (hin : pos ≤ place ∧ place < pos + key.length) (hin' : pos' ≤ place ∧ place < pos' + key.length)
    : pos = pos' :=
  interval_unique (pairwise_positions hkey 0 0 text) hpos hpos' hin hin'

def Matched (found : List (Node α)) (pieces : List (Piece α)) : Prop :=
  ∀ node ∈ found, ∃ taken ∈ nodes 0 pieces, node.Meets taken

structure Found (keys : List (List α)) (text : List α) (found : List (Node α)) : Prop where
  perm : found.Perm (keys.flatMap fun key => (positions key 0 0 text).map (Node.mk key))
  sorted : found.Pairwise fun node node' => node.position ≤ node'.position

theorem Found.mem_iff {text : List α} (h : Found keys text found) {node : Node α}
    : node ∈ found ↔ node.key ∈ keys ∧ node.position ∈ positions node.key 0 0 text := by
  rw [h.perm.mem_iff, List.mem_flatMap]
  constructor
  . rintro ⟨key, hkey, hnode⟩
    obtain ⟨pos, hpos, rfl⟩ := List.mem_map.mp hnode
    exact ⟨hkey, hpos⟩
  . rintro ⟨hkey, hpos⟩
    exact ⟨node.key, hkey, List.mem_map.mpr ⟨node.position, hpos, rfl⟩⟩

theorem Found.nodup {text : List α} (h : Found keys text found) (hkeys : keys.Nodup) (hnil : [] ∉ keys)
    : found.Nodup := by
  rw [h.perm.nodup_iff, List.nodup_flatMap]
  refine ⟨?_, ?_⟩
  . intro key hkey
    refine List.pairwise_map.mpr ((pairwise_positions (fun heq => hnil (heq ▸ hkey)) 0 0 text).imp ?_)
    intro pos pos' hapart heq
    obtain rfl := congrArg Node.position heq
    have hlength := List.length_pos_iff.mpr fun heq => hnil (heq ▸ hkey)
    simp only [] at hapart
    omega
  . refine hkeys.imp fun {key key'} hne node hnode hnode' => ?_
    obtain ⟨pos, -, rfl⟩ := List.mem_map.mp hnode
    obtain ⟨pos', -, heq⟩ := List.mem_map.mp hnode'
    exact hne (congrArg Node.key heq).symm

def Counted (keys : List (List α)) (pieces : List (Piece α)) : Prop :=
  ∀ key ∈ keys, (places key pieces).length = (positions key 0 0 (original pieces)).length

variable (hkeys : keys.Nodup) (hnil : [] ∉ keys) (hpieces : Scanned keys pieces)
  (hfound : Found keys (original pieces) found)

include hnil hfound in
theorem Matched.counted (h : Matched found pieces) : Counted keys pieces := by
  intro key hkey
  have hne : key ≠ [] := fun heq => hnil (heq ▸ hkey)
  refine Nat.le_antisymm (places_ahead hne pieces).1 (length_le_of_intervals (pairwise_positions hne 0 0 _) ?_)
  intro pos hpos
  obtain ⟨taken, htaken, heq, hle, hlt⟩ := h ⟨key, pos⟩ (hfound.mem_iff.mpr ⟨hkey, hpos⟩)
  obtain ⟨key', place⟩ := taken
  obtain rfl : key' = key := heq
  exact ⟨place, mem_places.mpr htaken, hle, hlt⟩

include hnil in
theorem Counted.forall₂ (h : Counted keys pieces) {key : List α} (hkey : key ∈ keys)
    : List.Forall₂ (fun pos place => pos ≤ place ∧ place < pos + key.length)
        (positions key 0 0 (original pieces)) (places key pieces) :=
  (places_ahead (fun heq => hnil (heq ▸ hkey)) pieces).2 (h key hkey)

include hnil hfound in
theorem Counted.matched (h : Counted keys pieces) : Matched found pieces := by
  intro node hnode
  obtain ⟨hkey, hpos⟩ := hfound.mem_iff.mp hnode
  obtain ⟨place, hplace, hle, hlt⟩ := (exists_of_forall₂ (h.forall₂ hnil hkey)).1 node.position hpos
  exact ⟨⟨node.key, place⟩, mem_places.mp hplace, rfl, hle, hlt⟩

include hnil in
theorem Counted.inside (h : Counted keys pieces) {word key : List α} (hword : .word word ∈ pieces)
    (hkey : key ∈ keys) (hinside : key <:+: word)
    : key = word := by
  by_contra hne
  have hlt := length_places_lt (fun heq => hnil (heq ▸ hkey)) hword hne hinside
  rw [h key hkey] at hlt
  exact Nat.lt_irrefl _ hlt

include hkeys hnil hpieces hfound in
theorem matched_of_length (h : found.length = (nodes 0 pieces).length) : Matched found pieces := by
  have hnodes : ∀ node ∈ nodes 0 pieces, node.key ∈ keys := fun node hnode => (hpieces.key_of_mem_nodes hnode).2
  refine Counted.matched hnil hfound ?_
  refine (eq_of_sum_eq fun key hkey => (places_ahead (fun heq => hnil (heq ▸ hkey)) pieces).1).2 ?_
  have htaken := length_eq_sum_filter hkeys hnodes
  rw [h.symm, hfound.perm.length_eq, List.length_flatMap] at htaken
  simp only [List.length_map] at htaken
  simp only [places, List.length_map]
  exact htaken.symm

include hnil hpieces hfound in
theorem Counted.ordered (h : Counted keys pieces) {node node' taken taken' : Node α} (hnode : node ∈ found)
    (hnode' : node' ∈ found) (hne : node ≠ node') (hle : node.position ≤ node'.position)
    (htaken : taken ∈ nodes 0 pieces) (htaken' : taken' ∈ nodes 0 pieces) (hmeets : node.Meets taken)
    (hmeets' : node'.Meets taken')
    : taken.position < taken'.position := by
  obtain ⟨hkey, hpos⟩ := hfound.mem_iff.mp hnode
  obtain ⟨hkey', hpos'⟩ := hfound.mem_iff.mp hnode'
  obtain ⟨hsame, hin⟩ := hmeets
  obtain ⟨hsame', hin'⟩ := hmeets'
  by_contra hbehind
  by_cases heq : taken = taken'
  . -- two of them do not meet the same one
    subst heq
    rw [hsame] at hsame'
    rw [← hsame'] at hin' hpos'
    have hposition := positions_unique (fun heq => hnil (heq ▸ hkey)) hpos hpos' hin hin'
    obtain ⟨key, pos⟩ := node
    obtain ⟨key', pos'⟩ := node'
    obtain rfl : key = key' := hsame'
    obtain rfl : pos = pos' := hposition
    exact hne rfl
  . have hend : taken'.position + taken'.key.length ≤ taken.position := by
      by_contra hover
      exact heq (node_unique htaken htaken' (Nat.le_refl _) (by rw [hsame]; omega) (by omega) (by omega))
    -- the other key would be inside of this one
    have hpart : taken'.key <:+: taken.key := by
      have hplace : taken.key <+: (original pieces).drop node.position := by
        rw [hsame]
        exact (mem_positions rfl hpos).2
      exact infix_of_places hplace (key_occurs htaken') (by omega) (by rw [hsame] at *; omega)
    have hwhole := h.inside hnil (hpieces.key_of_mem_nodes htaken).1 (hpieces.key_of_mem_nodes htaken').2 hpart
    rw [hwhole, hsame] at hend
    omega

include hkeys hnil hpieces hfound in
theorem Matched.strict (h : Matched found pieces)
    : found.Pairwise fun node node' => node.position < node'.position := by
  have hcounted := h.counted hnil hfound
  refine (hfound.sorted.and (hfound.nodup hkeys hnil)).imp_of_mem fun {node node'} hnode hnode' ⟨hle, hne⟩ => ?_
  obtain ⟨taken, htaken, hmeets⟩ := h node hnode
  obtain ⟨taken', htaken', hmeets'⟩ := h node' hnode'
  by_contra hge
  have hlt := hcounted.ordered hnil hpieces hfound hnode hnode' hne hle htaken htaken' hmeets hmeets'
  have hlt' := hcounted.ordered hnil hpieces hfound hnode' hnode hne.symm (by omega) htaken' htaken hmeets' hmeets
  omega

theorem isBefore_iff (hstrict : found.Pairwise fun node node' => node.position < node'.position)
    {key' key : List α}
    : IsBefore (found.map (·.key)) key' key
        ↔ ∃ node ∈ found, node.key = key' ∧ ∀ other ∈ found, other.key = key → node.position < other.position := by
  induction found with
  | nil => simp [IsBefore]
  | cons node found ih =>
    obtain ⟨hnode, hstrict⟩ := List.pairwise_cons.mp hstrict
    rw [IsBefore, List.map_cons]
    by_cases hkey : node.key = key
    . -- the other key cannot be before the first node
      rw [hkey, List.idxOf_cons_self]
      refine iff_of_false (Nat.not_lt_zero _) ?_
      rintro ⟨node', hnode', -, hbefore⟩
      have hlt := hbefore node List.mem_cons_self hkey
      rcases List.mem_cons.mp hnode' with rfl | hnode'
      . exact Nat.lt_irrefl _ hlt
      . exact Nat.lt_asymm hlt (hnode node' hnode')
    . rw [List.idxOf_cons_ne _ hkey]
      by_cases hkey' : node.key = key'
      . rw [hkey', List.idxOf_cons_self]
        refine iff_of_true (Nat.succ_pos _) ⟨node, List.mem_cons_self, hkey', ?_⟩
        intro other hother hother'
        rcases List.mem_cons.mp hother with rfl | hother
        . exact absurd hother' hkey
        . exact hnode other hother
      . rw [List.idxOf_cons_ne _ hkey', Nat.succ_lt_succ_iff]
        refine (ih hstrict).trans ⟨?_, ?_⟩
        . rintro ⟨node', hnode', heq, hbefore⟩
          refine ⟨node', List.mem_cons_of_mem _ hnode', heq, fun other hother hother' => ?_⟩
          rcases List.mem_cons.mp hother with rfl | hother
          . exact absurd hother' hkey
          . exact hbefore other hother hother'
        . rintro ⟨node', hnode', heq, hbefore⟩
          rcases List.mem_cons.mp hnode' with rfl | hnode'
          . exact absurd heq hkey'
          . exact ⟨node', hnode', heq, fun other hother => hbefore other (List.mem_cons_of_mem _ hother)⟩

include hkeys hnil hpieces hfound in
theorem Matched.map_key (h : Matched found pieces) : found.map (·.key) = (nodes 0 pieces).map (·.key) := by
  have hcounted := h.counted hnil hfound
  have hmeets : List.Forall₂ Node.Meets found (nodes 0 pieces) := by
    refine @forall₂_of_ordered _ _ _ (fun taken taken' => taken.position < taken'.position) _ _
      (fun taken taken' => Nat.lt_asymm) ?_ ?_ h ?_ ?_
    . refine (pairwise_nodes 0 pieces).imp_of_mem fun {taken taken'} htaken _ hle => ?_
      have hlength := List.length_pos_iff.mpr fun heq => hnil (heq ▸ (hpieces.key_of_mem_nodes htaken).2)
      omega
    . have hboth := hfound.sorted.and (hfound.nodup hkeys hnil)
      exact hboth.imp_of_mem fun hnode hnode' ⟨hle, hne⟩ taken htaken taken' htaken' =>
        hcounted.ordered hnil hpieces hfound hnode hnode' hne hle htaken htaken'
    . intro taken htaken
      obtain ⟨hword, hkey⟩ := hpieces.key_of_mem_nodes htaken
      obtain ⟨pos, hpos, hle, hlt⟩ :=
        (exists_of_forall₂ (hcounted.forall₂ hnil hkey)).2 taken.position (mem_places.mpr htaken)
      exact ⟨⟨taken.key, pos⟩, hfound.mem_iff.mpr ⟨hkey, hpos⟩, rfl, hle, hlt⟩
    . exact fun node _ taken htaken taken' htaken' => meets_unique htaken htaken'
  rw [← List.forall₂_eq_eq_eq, List.forall₂_map_left_iff, List.forall₂_map_right_iff]
  exact hmeets.imp fun node taken hmeets => hmeets.1.symm

include hpieces in
theorem positions_eq_nodes {key : List α} (hkey : key ∈ keys) (hne : key ≠ []) (idx : Nat)
    (hmissed : ∀ before word after front back, pieces = before ++ .word word :: after → word = front ++ back →
      back ≠ [] → word ≠ key → ¬ key <+: back ++ original after)
    : positions key 0 idx (original pieces) = ((nodes idx pieces).filter (·.key = key)).map (·.position) := by
  induction pieces generalizing idx with
  | nil => rfl
  | cons piece pieces ih =>
    have ih := fun idx => ih (by cases piece <;> exact hpieces.2) idx fun before word after front back hbefore =>
      hmissed (piece :: before) word after front back (by rw [hbefore, List.cons_append])
    cases piece with
    | element a =>
      rw [original_element, positions, if_neg (hpieces.1 key hkey), nodes, ih]
    | word word =>
      rw [original_word, nodes]
      by_cases heq : word = key
      . rw [heq, positions_append hne, ih, List.filter_cons_of_pos (by simp), List.map_cons]
      . rw [positions_append_of_missed idx fun front back hword hback =>
          hmissed [] word pieces front back rfl hword hback heq, ih, List.filter_cons_of_neg (by simp [heq])]

include hnil hpieces in
theorem Apart.counted (h : Apart keys pieces) : Counted keys pieces := by
  intro key hkey
  have hne : key ≠ [] := fun heq => hnil (heq ▸ hkey)
  rw [positions_eq_nodes hpieces hkey hne 0 fun before word after front back hbefore hword hback hne =>
    h.missed hkey hbefore hword hback hne]
  rfl

end Matched

end Substrings
