import WzGame.Util.Substrings

/-!
This module contains what happens to a text when keys are replaced one after the other: the pieces that are marked,
and when they are the ones that are found if the longest key goes first.
-/

namespace Substrings

variable {α : Type}

section Mark

variable {key : List α} {pieces : List (Piece α)}

theorem map_prefix_iff {mark : α} (hmark : mark ∉ key) (pieces : List (Piece α))
    : key.map .element <+: pieces ↔ key <+: pieces.map (Piece.shown mark) := by
  induction key generalizing pieces with
  | nil => simp
  | cons a key ih =>
    obtain ⟨hne, hmark⟩ := not_or.mp (List.mem_cons.not.mp hmark)
    cases pieces with
    | nil => simp
    | cons piece pieces =>
      rw [List.map_cons, List.map_cons, List.cons_prefix_cons, List.cons_prefix_cons, ih hmark]
      refine and_congr_left' ?_
      cases piece with
      | element b => simp [Piece.shown]
      | word key' => simp [Piece.shown, Ne.symm hne]

theorem map_element_ne_nil (hkey : key ≠ []) : key.map Piece.element ≠ [] := by
  simpa using hkey

variable [DecidableEq α]

theorem mark_append (hkey : key ≠ []) (pieces : List (Piece α))
    : mark key (key.map .element ++ pieces) = .word key :: mark key pieces :=
  replace_append _ (map_element_ne_nil hkey) pieces

theorem mark_cons {piece : Piece α} (h : ¬ key.map .element <+: piece :: pieces)
    : mark key (piece :: pieces) = piece :: mark key pieces :=
  replace_cons _ h

theorem shown_mark {mark' : α} (hkey : key ≠ []) (hmark : mark' ∉ key) (pieces : List (Piece α))
    : (mark key pieces).map (Piece.shown mark') = replace key mark' 0 (pieces.map (Piece.shown mark')) := by
  induction pieces using search_induction (map_element_ne_nil hkey) with
  | nil => rfl
  | found pieces ih =>
    have hshown : (key.map Piece.element).map (Piece.shown mark') = key := by
      rw [List.map_map]
      exact List.map_id key
    rw [mark_append hkey, List.map_cons, List.map_append, hshown, replace_append mark' hkey, ih]
    rfl
  | missed piece pieces hhead ih =>
    have hhead' : ¬ key <+: piece.shown mark' :: pieces.map (Piece.shown mark') :=
      (map_prefix_iff hmark (piece :: pieces)).not.mp hhead
    rw [mark_cons hhead, List.map_cons, List.map_cons, replace_cons mark' hhead', ih]

@[simp]
theorem original_mark (hkey : key ≠ []) (pieces : List (Piece α))
    : original (mark key pieces) = original pieces := by
  induction pieces using search_induction (map_element_ne_nil hkey) with
  | nil => rfl
  | found pieces ih =>
    rw [mark_append hkey, original_word, ih, original_append, original_map_element]
  | missed piece pieces hhead ih =>
    rw [mark_cons hhead]
    cases piece with
    | element a => rw [original_element, original_element, ih]
    | word key' => rw [original_word, original_word, ih]

theorem mem_nodes_mark (hkey : key ≠ []) {idx : Nat} {node : Node α} (h : node ∈ nodes idx pieces)
    : node ∈ nodes idx (mark key pieces) := by
  induction pieces using search_induction (map_element_ne_nil hkey) generalizing idx with
  | nil => contradiction
  | found pieces ih =>
    rw [nodes_append, nodes_map_element, List.nil_append, original_map_element] at h
    rw [mark_append hkey, nodes]
    exact List.mem_cons_of_mem _ (ih h)
  | missed piece pieces hhead ih =>
    rw [mark_cons hhead]
    cases piece with
    | element a => exact ih h
    | word key' =>
      rcases List.mem_cons.mp h with rfl | h
      . exact List.mem_cons_self
      . exact List.mem_cons_of_mem _ (ih h)

theorem key_of_mem_nodes_mark (hkey : key ≠ []) {idx : Nat} {node : Node α}
    (h : node ∈ nodes idx (mark key pieces))
    : node.key = key ∨ .word node.key ∈ pieces := by
  induction pieces using search_induction (map_element_ne_nil hkey) generalizing idx with
  | nil => contradiction
  | found pieces ih =>
    rw [mark_append hkey] at h
    rcases List.mem_cons.mp h with rfl | h
    . exact .inl rfl
    . exact (ih h).imp_right fun hmem => List.mem_append_right _ hmem
  | missed piece pieces hhead ih =>
    rw [mark_cons hhead] at h
    cases piece with
    | element a => exact (ih h).imp_right fun hmem => List.mem_cons_of_mem _ hmem
    | word key' =>
      rcases List.mem_cons.mp h with rfl | h
      . exact .inr List.mem_cons_self
      . exact (ih h).imp_right fun hmem => List.mem_cons_of_mem _ hmem

theorem covered_mark (hkey : key ≠ []) (idx : Nat) {before after : List (Piece α)}
    (h : pieces = before ++ (key.map .element ++ after))
    : ∃ node ∈ nodes idx (mark key pieces), node.key = key
        ∧ node.position ≤ idx + (original before).length
        ∧ idx + (original before).length < node.position + key.length := by
  induction pieces using search_induction (map_element_ne_nil hkey) generalizing idx before with
  | nil =>
    have hnil := List.append_eq_nil_iff.mp h.symm
    exact absurd (List.append_eq_nil_iff.mp hnil.2).1 (map_element_ne_nil hkey)
  | found pieces ih =>
    rw [mark_append hkey, nodes]
    by_cases hlt : (original before).length < key.length
    . exact ⟨⟨key, idx⟩, List.mem_cons_self, rfl, by simp, by simp [hlt]⟩
    . have hbefore : ∃ before', before = key.map .element ++ before'
          ∧ pieces = before' ++ (key.map .element ++ after) := by
        rcases List.append_eq_append_iff.mp h with hlonger | ⟨rest, hrest, hbehind⟩
        . exact hlonger
        . obtain ⟨front, back, rfl, rfl, rfl⟩ := List.map_eq_append_iff.mp hrest
          rw [original_map_element, List.length_append] at hlt
          obtain rfl : back = [] := List.length_eq_zero_iff.mp (by omega)
          exact ⟨[], by simp, by simpa using hbehind.symm⟩
      obtain ⟨before', rfl, hbehind⟩ := hbefore
      obtain ⟨node, hnode, hkey', hle, hlt⟩ := ih (idx + key.length) hbehind
      refine ⟨node, List.mem_cons_of_mem _ hnode, hkey', ?_, ?_⟩
      . simpa [Nat.add_assoc] using hle
      . simpa [Nat.add_assoc] using hlt
  | missed piece pieces hhead ih =>
    rw [mark_cons hhead]
    cases before with
    | nil =>
      rw [List.nil_append] at h
      exact absurd (h ▸ List.prefix_append _ after) hhead
    | cons piece' before =>
      obtain ⟨rfl, hpieces⟩ := List.cons.inj h
      cases piece with
      | element a =>
        obtain ⟨node, hnode, hkey', hle, hlt⟩ := ih (idx + 1) hpieces
        refine ⟨node, hnode, hkey', ?_, ?_⟩
        . simp only [original_element, List.length_cons]
          omega
        . simp only [original_element, List.length_cons]
          omega
      | word word =>
        obtain ⟨node, hnode, hkey', hle, hlt⟩ := ih (idx + word.length) hpieces
        refine ⟨node, List.mem_cons_of_mem _ hnode, hkey', ?_, ?_⟩
        . simp only [original_word, List.length_append]
          omega
        . simp only [original_word, List.length_append]
          omega

end Mark

section Clear

variable {key : List α}

theorem prefix_original {pieces : List (Piece α)} (h : key.map .element <+: pieces) : key <+: original pieces := by
  obtain ⟨after, rfl⟩ := h
  rw [original_append, original_map_element]
  exact List.prefix_append _ _

theorem map_prefix_of_clear {idx : Nat} {pieces : List (Piece α)} (hhead : key <+: original pieces)
    (hclear : ∀ node ∈ nodes idx pieces, idx + key.length ≤ node.position)
    : key.map .element <+: pieces := by
  induction key generalizing idx pieces with
  | nil => exact List.nil_prefix
  | cons a key ih =>
    cases pieces with
    | nil => simp at hhead
    | cons piece pieces =>
      cases piece with
      | element b =>
        obtain ⟨rfl, hrest⟩ := List.cons_prefix_cons.mp hhead
        rw [List.map_cons]
        refine List.cons_prefix_cons.mpr ⟨rfl, @ih (idx + 1) pieces hrest fun node hnode => ?_⟩
        have hle := hclear node hnode
        rw [List.length_cons] at hle
        omega
      | word word =>
        have hle := hclear ⟨word, idx⟩ List.mem_cons_self
        simp only [List.length_cons] at hle
        omega

theorem exists_clear (hkey : key ≠ []) {idx pos : Nat} {pieces : List (Piece α)}
    (hhead : key <+: (original pieces).drop pos) (hwords : .word [] ∉ pieces)
    (hclear : ∀ node ∈ nodes idx pieces,
      node.position + node.key.length ≤ idx + pos ∨ idx + pos + key.length ≤ node.position)
    : ∃ before after, pieces = before ++ (key.map .element ++ after) ∧ (original before).length = pos := by
  have hlength := List.length_pos_iff.mpr hkey
  induction pieces generalizing idx pos with
  | nil =>
    rw [original_nil, List.drop_nil, List.prefix_nil] at hhead
    contradiction
  | cons piece pieces ih =>
    cases pos with
    | zero =>
      have hclear' : ∀ node ∈ nodes idx (piece :: pieces), idx + key.length ≤ node.position := by
        intro node hnode
        rcases hclear node hnode with hle | hle
        . -- an empty key would have no end behind the place
          obtain ⟨before, after, hpieces, -⟩ := mem_nodes.mp hnode
          have hidx := le_position hnode
          have hempty : node.key = [] := List.length_eq_zero_iff.mp (by omega)
          rw [hpieces, hempty] at hwords
          simp at hwords
        . exact hle
      obtain ⟨after, hafter⟩ := map_prefix_of_clear hhead hclear'
      exact ⟨[], after, hafter.symm, rfl⟩
    | succ pos =>
      have hwords' : .word [] ∉ pieces := fun hmem => hwords (List.mem_cons_of_mem _ hmem)
      cases piece with
      | element a =>
        obtain ⟨before, after, rfl, hbefore⟩ := @ih (idx + 1) pos hhead hwords' fun node hnode => by
          have hnode := hclear node hnode
          omega
        exact ⟨.element a :: before, after, rfl, by simp [hbefore]⟩
      | word word =>
        have hword : word.length ≤ pos + 1 := by
          have hnode := hclear ⟨word, idx⟩ List.mem_cons_self
          simp only [] at hnode
          omega
        rw [original_word, List.drop_append, List.drop_eq_nil_of_le hword, List.nil_append] at hhead
        obtain ⟨before, after, rfl, hbefore⟩ := ih hhead hwords' fun node hnode => by
          have hnode := hclear node (List.mem_cons_of_mem _ hnode)
          omega
        exact ⟨.word word :: before, after, rfl, by simp [hbefore]; omega⟩

end Clear

section Scan

variable {keys : List (List α)} {pieces : List (Piece α)}

def Scanned (keys : List (List α)) : List (Piece α) → Prop
  | [] => True
  | .element a :: pieces => (∀ key ∈ keys, ¬ key <+: a :: original pieces) ∧ Scanned keys pieces
  | .word word :: pieces =>
    (word ∈ keys ∧ ∀ key ∈ keys, key <+: word ++ original pieces → key.length ≤ word.length)
      ∧ Scanned keys pieces

theorem Scanned.mem_keys (h : Scanned keys pieces) {word : List α} (hword : .word word ∈ pieces)
    : word ∈ keys := by
  induction pieces with
  | nil => contradiction
  | cons piece pieces ih =>
    cases piece with
    | element a =>
      rcases List.mem_cons.mp hword with heq | hword
      . contradiction
      . exact ih h.2 hword
    | word word' =>
      rcases List.mem_cons.mp hword with heq | hword
      . obtain rfl := Piece.word.inj heq
        exact h.1.1
      . exact ih h.2 hword

theorem Scanned.key_of_mem_nodes (h : Scanned keys pieces) {idx : Nat} {node : Node α}
    (hnode : node ∈ nodes idx pieces)
    : .word node.key ∈ pieces ∧ node.key ∈ keys := by
  obtain ⟨before, after, hbefore, -⟩ := mem_nodes.mp hnode
  have hword : .word node.key ∈ pieces := by simp [hbefore]
  exact ⟨hword, h.mem_keys hword⟩

theorem Scanned.eq_of_shown_eq {mark : α} {pieces' : List (Piece α)} (h : Scanned keys pieces)
    (hinside : ∀ word, .word word ∈ pieces → ∀ key ∈ keys, key <:+: word → key = word)
    (hwords : ∀ word, .word word ∈ pieces' → word ∈ keys) (hmark : mark ∉ original pieces)
    (horiginal : original pieces' = original pieces)
    (hshown : pieces'.map (Piece.shown mark) = pieces.map (Piece.shown mark))
    : pieces' = pieces := by
  induction pieces generalizing pieces' with
  | nil =>
    rw [List.map_nil, List.map_eq_nil_iff] at hshown
    exact hshown
  | cons piece pieces ih =>
    cases pieces' with
    | nil => contradiction
    | cons piece' pieces' =>
      obtain ⟨hhead, htail⟩ := List.cons.inj hshown
      have hinside' : ∀ word, .word word ∈ pieces → ∀ key ∈ keys, key <:+: word → key = word :=
        fun word hword => hinside word (List.mem_cons_of_mem _ hword)
      have hwords' : ∀ word, .word word ∈ pieces' → word ∈ keys :=
        fun word hword => hwords word (List.mem_cons_of_mem _ hword)
      cases piece with
      | element a =>
        obtain ⟨hne, hmark'⟩ := not_or.mp (List.mem_cons.not.mp hmark)
        cases piece' with
        | element a' =>
          obtain rfl : a' = a := hhead
          rw [ih h.2 hinside' hwords' hmark' (List.cons.inj horiginal).2 htail]
        | word word' => exact absurd hhead hne
      | word word =>
        rw [original_word] at horiginal hmark
        obtain ⟨hne, hmark'⟩ := not_or.mp (List.mem_append.not.mp hmark)
        cases piece' with
        | element a' =>
          obtain rfl : a' = mark := hhead
          have hmem : a' ∈ word ++ original pieces := by
            rw [← horiginal]
            exact List.mem_cons_self
          exact absurd hmem hmark
        | word word' =>
          have hword' := hwords word' List.mem_cons_self
          rw [original_word] at horiginal
          have hhead' : word' <+: word ++ original pieces := horiginal ▸ List.prefix_append _ _
          have hlonger := List.prefix_of_prefix_length_le hhead' (List.prefix_append word _)
            (h.1.2 word' hword' hhead')
          obtain rfl := hinside word List.mem_cons_self word' hword' hlonger.isInfix
          rw [ih h.2 hinside' hwords' hmark' (List.append_cancel_left horiginal) htail]

variable [DecidableEq α]

theorem longest_eq_none {text : List α} (h : longest keys text = none) : ∀ key ∈ keys, ¬ key <+: text := by
  intro key hkey hhead
  have hmem : key ∈ keys.filter (· <+: text) := List.mem_filter.mpr ⟨hkey, by simpa using hhead⟩
  rw [List.argmax_eq_none.mp h] at hmem
  contradiction

theorem longest_eq_some {text key : List α} (h : longest keys text = some key)
    : key ∈ keys ∧ key <+: text ∧ ∀ key' ∈ keys, key' <+: text → key'.length ≤ key.length := by
  obtain ⟨hkey, hhead⟩ := List.mem_filter.mp (List.argmax_mem h)
  refine ⟨hkey, by simpa using hhead, fun key' hkey' hhead' => ?_⟩
  exact List.le_of_mem_argmax (List.mem_filter.mpr ⟨hkey', by simpa using hhead'⟩) h

theorem original_scan (hkeys : [] ∉ keys) (skip : Nat) (text : List α)
    : original (scan keys skip text) = text.drop skip := by
  induction text generalizing skip with
  | nil => cases skip <;> rfl
  | cons a text ih =>
    cases skip with
    | succ skip => exact ih skip
    | zero =>
      rw [scan]
      split
      . rw [original_element, ih]
        rfl
      . next key hlongest =>
        obtain ⟨hkey, hhead, -⟩ := longest_eq_some hlongest
        cases key with
        | nil => exact absurd hkey hkeys
        | cons b key =>
          rw [original_word, ih, List.drop_zero]
          exact (List.prefix_iff_eq_append.mp hhead)

theorem scanned_scan (hkeys : [] ∉ keys) (skip : Nat) (text : List α) : Scanned keys (scan keys skip text) := by
  induction text generalizing skip with
  | nil => cases skip <;> trivial
  | cons a text ih =>
    cases skip with
    | succ skip => exact ih skip
    | zero =>
      have horiginal := original_scan hkeys 0 (a :: text)
      rw [scan] at horiginal ⊢
      split at horiginal
      . next hlongest =>
        refine ⟨?_, ih 0⟩
        rw [original_element, List.drop_zero] at horiginal
        rw [horiginal]
        exact longest_eq_none hlongest
      . next key hlongest =>
        obtain ⟨hkey, -, hlongest'⟩ := longest_eq_some hlongest
        rw [original_word, List.drop_zero] at horiginal
        refine ⟨⟨hkey, ?_⟩, ih _⟩
        rw [horiginal]
        exact hlongest'

end Scan

section Sheltered

variable {keys : List (List α)} {pieces : List (Piece α)}

/-- A key that begins inside of another one that is taken shares its place with one that is taken and comes
earlier. -/
def Sheltered (earlier : List α → List α → Prop) (keys : List (List α)) (pieces : List (Piece α)) : Prop :=
  ∀ key ∈ keys, ∀ pos, key <+: (original pieces).drop pos →
    ∀ taken ∈ nodes 0 pieces, taken.key ≠ key → taken.position ≤ pos → pos < taken.position + taken.key.length →
      ∃ other ∈ nodes 0 pieces, earlier other.key key
        ∧ other.position < pos + key.length ∧ pos < other.position + other.key.length

theorem Sheltered.congr {earlier earlier' : List α → List α → Prop}
    (h : ∀ other ∈ nodes 0 pieces, ∀ key ∈ keys, earlier other.key key ↔ earlier' other.key key)
    : Sheltered earlier keys pieces ↔ Sheltered earlier' keys pieces := by
  refine forall₅_congr fun key hkey pos _ taken => forall₄_congr fun _ _ _ _ => ?_
  refine exists_congr fun other => and_congr_right fun hother => and_congr_left' ?_
  exact h other hother key hkey

end Sheltered

section Marks

variable [DecidableEq α] {keys order : List (List α)} {pieces : List (Piece α)}

def marks (order : List (List α)) (pieces : List (Piece α)) : List (Piece α) :=
  order.foldl (fun pieces key => mark key pieces) pieces

def expand (done : List (List α)) (pieces : List (Piece α)) : List (Piece α) :=
  pieces.flatMap fun piece =>
    match piece with
    | .element a => [.element a]
    | .word key => if key ∈ done then [.word key] else key.map .element

def IsBefore (order : List (List α)) (key' key : List α) : Prop := order.idxOf key' < order.idxOf key

theorem shown_marks {mark' : α} (horder : [] ∉ order) (hmark : ∀ key ∈ order, mark' ∉ key)
    (pieces : List (Piece α))
    : (marks order pieces).map (Piece.shown mark')
        = order.foldl (fun text key => replace key mark' 0 text) (pieces.map (Piece.shown mark')) := by
  induction order generalizing pieces with
  | nil => rfl
  | cons key order ih =>
    obtain ⟨hkey, horder⟩ := not_or.mp (List.mem_cons.not.mp horder)
    obtain ⟨hmark', hmark⟩ := List.forall_mem_cons.mp hmark
    rw [List.foldl_cons, ← shown_mark (Ne.symm hkey) hmark']
    exact ih horder hmark (mark key pieces)

theorem original_marks (horder : [] ∉ order) (pieces : List (Piece α))
    : original (marks order pieces) = original pieces := by
  induction order generalizing pieces with
  | nil => rfl
  | cons key order ih =>
    obtain ⟨hkey, horder⟩ := not_or.mp (List.mem_cons.not.mp horder)
    rw [marks, List.foldl_cons]
    exact (ih horder _).trans (original_mark (Ne.symm hkey) pieces)

theorem mem_nodes_marks (horder : [] ∉ order) {idx : Nat} {node : Node α} (h : node ∈ nodes idx pieces)
    : node ∈ nodes idx (marks order pieces) := by
  induction order generalizing pieces with
  | nil => exact h
  | cons key order ih =>
    obtain ⟨hkey, horder⟩ := not_or.mp (List.mem_cons.not.mp horder)
    exact ih horder (mem_nodes_mark (Ne.symm hkey) h)

theorem mem_of_word_marks (horder : [] ∉ order) {word : List α} (h : .word word ∈ marks order pieces)
    : word ∈ order ∨ .word word ∈ pieces := by
  induction order generalizing pieces with
  | nil => exact .inr h
  | cons key order ih =>
    obtain ⟨hkey, horder⟩ := not_or.mp (List.mem_cons.not.mp horder)
    rcases ih horder h with hmem | hmem
    . exact .inl (List.mem_cons_of_mem _ hmem)
    . obtain ⟨before, after, hpieces⟩ := List.append_of_mem hmem
      have hnode : ⟨word, (original before).length⟩ ∈ nodes 0 (mark key pieces) :=
        mem_nodes.mpr ⟨before, after, hpieces, (Nat.zero_add _).symm⟩
      exact (key_of_mem_nodes_mark (Ne.symm hkey) hnode).imp_left fun heq => List.mem_cons.mpr (.inl heq)

@[simp]
theorem expand_element (done : List (List α)) (a : α) (pieces : List (Piece α))
    : expand done (.element a :: pieces) = .element a :: expand done pieces := rfl

theorem expand_word (done : List (List α)) (key : List α) (pieces : List (Piece α))
    : expand done (.word key :: pieces)
        = (if key ∈ done then [.word key] else key.map .element) ++ expand done pieces := rfl

theorem expand_append (done : List (List α)) (pieces pieces' : List (Piece α))
    : expand done (pieces ++ pieces') = expand done pieces ++ expand done pieces' := List.flatMap_append

@[simp]
theorem original_expand (done : List (List α)) (pieces : List (Piece α))
    : original (expand done pieces) = original pieces := by
  induction pieces with
  | nil => rfl
  | cons piece pieces ih =>
    cases piece with
    | element a => rw [expand_element, original_element, original_element, ih]
    | word key =>
      rw [expand_word, original_append, ih, original_word]
      split
      . simp
      . rw [original_map_element]

theorem expand_nil (pieces : List (Piece α)) : expand [] pieces = (original pieces).map .element := by
  induction pieces with
  | nil => rfl
  | cons piece pieces ih =>
    cases piece with
    | element a => rw [expand_element, ih, original_element, List.map_cons]
    | word key => rw [expand_word, ih, original_word, List.map_append, if_neg List.not_mem_nil]

theorem expand_of_mem {done : List (List α)} (h : ∀ word, .word word ∈ pieces → word ∈ done)
    : expand done pieces = pieces := by
  induction pieces with
  | nil => rfl
  | cons piece pieces ih =>
    have ih := ih fun word hword => h word (List.mem_cons_of_mem _ hword)
    cases piece with
    | element a => rw [expand_element, ih]
    | word key => rw [expand_word, ih, if_pos (h key List.mem_cons_self), List.singleton_append]

theorem expand_congr {done done' : List (List α)} (h : ∀ word, word ∈ done ↔ word ∈ done')
    (pieces : List (Piece α))
    : expand done pieces = expand done' pieces := by
  induction pieces with
  | nil => rfl
  | cons piece pieces ih =>
    cases piece with
    | element a => rw [expand_element, expand_element, ih]
    | word key => rw [expand_word, expand_word, ih, if_congr (h key) rfl rfl]

theorem length_expand_le (done : List (List α)) (hwords : .word [] ∉ pieces)
    : (expand done pieces).length ≤ (original pieces).length := by
  induction pieces with
  | nil => exact Nat.le_refl _
  | cons piece pieces ih =>
    obtain ⟨hne, hwords⟩ := not_or.mp (List.mem_cons.not.mp hwords)
    have ih := ih hwords
    cases piece with
    | element a =>
      rw [expand_element, original_element, List.length_cons, List.length_cons]
      omega
    | word key =>
      have hlength : 0 < key.length := List.length_pos_iff.mpr fun heq => hne (by rw [heq])
      rw [expand_word, original_word, List.length_append, List.length_append]
      split
      . rw [List.length_singleton]
        omega
      . rw [List.length_map]
        omega

theorem mark_expand {key : List α} {done : List (List α)} (hkey : key ∈ keys) (hne : key ≠ [])
    (hpieces : Scanned keys pieces)
    (hclear : ∀ before word after front back, pieces = before ++ .word word :: after → word = front ++ back →
      back ≠ [] → word ≠ key → word ∉ done → ¬ key.map .element <+: back.map .element ++ expand done after)
    : mark key (expand done pieces) = expand (key :: done) pieces := by
  induction pieces with
  | nil => rfl
  | cons piece pieces ih =>
    have ih := ih (by cases piece <;> exact hpieces.2) fun before word after front back heq =>
      hclear (piece :: before) word after front back (by rw [heq, List.cons_append])
    cases piece with
    | element a =>
      have hmissed : ¬ key.map .element <+: .element a :: expand done pieces := by
        intro hhead
        have hhead' := prefix_original hhead
        rw [original_element, original_expand] at hhead'
        exact hpieces.1 key hkey hhead'
      rw [expand_element, expand_element, mark_cons hmissed, ih]
    | word word =>
      rw [expand_word, expand_word]
      by_cases hdone : word ∈ done
      . have hmissed : ¬ key.map .element <+: .word word :: expand done pieces := by
          cases key with
          | nil => exact absurd rfl hne
          | cons a key => simp [List.cons_prefix_cons]
        rw [if_pos hdone, if_pos (List.mem_cons_of_mem _ hdone), List.singleton_append, List.singleton_append,
          mark_cons hmissed, ih]
      . rw [if_neg hdone]
        by_cases heq : word = key
        . rw [if_pos (List.mem_cons.mpr (.inl heq)), heq, mark_append hne, ih, List.singleton_append]
        . have hnot : word ∉ key :: done := by simp [heq, hdone]
          have hmissed : ∀ front back, word = front ++ back →
              mark key (back.map .element ++ expand done pieces)
                = back.map .element ++ mark key (expand done pieces) := by
            intro front back hword
            induction back generalizing front with
            | nil => rfl
            | cons a back ihback =>
              have hno := hclear [] word pieces front (a :: back) rfl hword (List.cons_ne_nil _ _) heq hdone
              rw [List.map_cons, List.cons_append] at hno ⊢
              rw [mark_cons hno, ihback (front ++ [a]) (by simp [hword]), List.cons_append]
          rw [if_neg hnot, hmissed [] word rfl, ih]

theorem mem_done {done rest : List (List α)} {key key' : List α} (horder : order = done ++ key :: rest)
    (h : IsBefore order key' key)
    : key' ∈ done := by
  by_contra hdone
  rw [IsBefore] at h
  rw [horder, List.idxOf_append_of_notMem hdone] at h
  by_cases hkey : key ∈ done
  . rw [List.idxOf_append_of_mem hkey] at h
    have hlt := List.idxOf_lt_length_of_mem hkey
    omega
  . rw [List.idxOf_append_of_notMem hkey, List.idxOf_cons_self] at h
    omega

theorem Sheltered.clear {key : List α} {done rest : List (List α)} (h : Sheltered (IsBefore order) keys pieces)
    (hwords : .word [] ∉ pieces) (hkey : key ∈ keys) (horder : order = done ++ key :: rest)
    {before after : List (Piece α)} {word front back : List α} (hpieces : pieces = before ++ .word word :: after)
    (hword : word = front ++ back) (hback : back ≠ []) (hne : word ≠ key) (hdone : word ∉ done)
    : ¬ key.map .element <+: back.map .element ++ expand done after := by
  intro hhead
  have hlength := List.length_pos_iff.mpr hback
  have htext : key <+: (original pieces).drop ((original before).length + front.length) := by
    have hhead' := prefix_original hhead
    rw [original_append, original_map_element, original_expand] at hhead'
    rw [hpieces, original_append, original_word, hword, ← List.drop_drop, List.drop_left, List.append_assoc,
      List.drop_left]
    exact hhead'
  obtain ⟨other, hother, hbefore, hlt, hlt'⟩ := h key hkey _ htext ⟨word, (original before).length⟩
    (mem_nodes.mpr ⟨before, after, hpieces, by simp⟩) hne (by simp) (by simp [hword]; omega)
  have hmem := mem_done horder hbefore
  obtain ⟨before', after', hpieces', hpos⟩ := mem_nodes.mp hother
  rw [hpieces] at hpieces'
  rcases List.append_eq_append_iff.mp hpieces' with ⟨mid, rfl, hmid⟩ | ⟨mid, rfl, hmid⟩
  . cases mid with
    | nil =>
      obtain rfl := Piece.word.inj (List.cons.inj hmid).1
      exact hdone hmem
    | cons piece mid =>
      rw [List.cons_append] at hmid
      obtain ⟨rfl, rfl⟩ := List.cons.inj hmid
      -- the mark of the other key would be an element of this one
      have hmid : .word [] ∉ mid := fun hmem => hwords (by simp [hpieces, hmem])
      have hlength' := length_expand_le done hmid
      rw [hpos, original_append, original_word, hword] at hlt
      simp only [List.length_append] at hlt
      have hmark : back.map Piece.element ++ (expand done mid ++ [.word other.key]) <+: key.map .element := by
        refine List.prefix_of_prefix_length_le ?_ hhead ?_
        . refine (List.prefix_append_right_inj _).mpr ?_
          rw [expand_append, expand_word, if_pos hmem, ← List.append_assoc]
          exact List.prefix_append _ _
        . simp only [List.length_append, List.length_map, List.length_singleton]
          omega
      have hmem' : Piece.word other.key ∈ key.map Piece.element := hmark.subset (by simp)
      simp at hmem'
  . cases mid with
    | nil =>
      obtain rfl := Piece.word.inj (List.cons.inj hmid).1
      exact hdone hmem
    | cons piece mid =>
      obtain ⟨rfl, -⟩ := List.cons.inj hmid
      simp only [original_append, original_word, List.length_append] at hlt'
      omega

theorem word_of_marks {text word : List α} (horder : [] ∉ order) (h : .word word ∈ marks order (text.map .element))
    : word ∈ order := by
  rcases mem_of_word_marks horder h with hword | hword
  . exact hword
  . simp at hword

theorem exists_marked {text key : List α} {done rest : List (List α)} (horder : [] ∉ done ++ key :: rest)
    {pos : Nat} (hhead : key <+: text.drop pos)
    (hclear : ∀ node ∈ nodes 0 (marks (done ++ key :: rest) (text.map .element)), node.key ∈ done →
      node.position + node.key.length ≤ pos ∨ pos + key.length ≤ node.position)
    : ∃ node ∈ nodes 0 (marks (done ++ key :: rest) (text.map .element)),
        node.key = key ∧ node.position ≤ pos ∧ pos < node.position + node.key.length := by
  simp only [List.mem_append, List.mem_cons, not_or] at horder
  obtain ⟨hdone, hkey, hrest⟩ := horder
  have hsplit : marks (done ++ key :: rest) (text.map .element)
      = marks rest (mark key (marks done (text.map .element))) := by
    rw [marks, marks, marks, List.foldl_append, List.foldl_cons]
  rw [hsplit] at hclear ⊢
  have hfree : ∀ node ∈ nodes 0 (marks done (text.map .element)),
      node.position + node.key.length ≤ 0 + pos ∨ 0 + pos + key.length ≤ node.position := by
    intro node hnode
    obtain ⟨before, after, hbefore, -⟩ := mem_nodes.mp hnode
    rw [Nat.zero_add]
    apply hclear node (mem_nodes_marks hrest (mem_nodes_mark (Ne.symm hkey) hnode))
    apply word_of_marks hdone
    rw [hbefore]
    exact List.mem_append_right _ List.mem_cons_self
  have hhead' : key <+: (original (marks done (text.map .element))).drop pos := by
    rw [original_marks hdone, original_map_element]
    exact hhead
  obtain ⟨before, after, hbefore, hpos⟩ :=
    exists_clear (Ne.symm hkey) hhead' (fun hmem => hdone (word_of_marks hdone hmem)) hfree
  obtain ⟨node, hnode, hsame, hle, hlt⟩ := covered_mark (Ne.symm hkey) 0 hbefore
  exact ⟨node, mem_nodes_marks hrest hnode, hsame, by omega, by rw [hsame]; omega⟩

theorem Sheltered.marks_expand {done rest : List (List α)} (h : Sheltered (IsBefore order) keys pieces)
    (hpieces : Scanned keys pieces) (hkeys : [] ∉ keys) (hall : ∀ key ∈ order, key ∈ keys)
    (horder : order = done ++ rest)
    : marks rest (expand done pieces) = expand order pieces := by
  induction rest generalizing done with
  | nil =>
    rw [horder, List.append_nil]
    rfl
  | cons key rest ih =>
    have hkey : key ∈ keys := hall key (by simp [horder])
    have hmark := mark_expand hkey (fun heq => hkeys (heq ▸ hkey)) hpieces
      fun before word after front back hbefore hword hback hne hdone =>
        h.clear (fun hmem => hkeys (hpieces.mem_keys hmem)) hkey horder hbefore hword hback hne hdone
    have hmem : ∀ word, word ∈ key :: done ↔ word ∈ done ++ [key] := by
      intro word
      rw [List.mem_cons, List.mem_append, List.mem_singleton, or_comm]
    rw [marks, List.foldl_cons, hmark, expand_congr hmem]
    apply ih
    rw [horder, List.append_assoc, List.singleton_append]

theorem marks_eq_iff {text : List α} (hpieces : Scanned keys pieces) (hkeys : [] ∉ keys)
    (horder : ∀ key ∈ order, key ∈ keys) (hall : ∀ word, .word word ∈ pieces → word ∈ order)
    (htext : original pieces = text)
    : marks order (text.map .element) = pieces ↔ Sheltered (IsBefore order) keys pieces := by
  constructor
  . intro hmarks key hkey pos hhead taken htaken hne hle hlt
    by_contra hclear
    by_cases hmem : key ∈ order
    . obtain ⟨done, rest, hdone, hnot⟩ := List.eq_append_cons_of_mem hmem
      rw [htext] at hhead
      rw [hdone] at hmarks
      obtain ⟨node, hnode, rfl, hle', hlt'⟩ := @exists_marked _ _ text key done rest
        (fun hnil => hkeys (horder [] (hdone ▸ hnil))) pos hhead fun node hnode hmem' => by
          rw [hmarks] at hnode
          have hidx : IsBefore order node.key key := by
            rw [IsBefore, hdone, List.idxOf_append_of_mem hmem', List.idxOf_append_of_notMem hnot,
              List.idxOf_cons_self]
            exact List.idxOf_lt_length_of_mem hmem'
          by_contra hoverlap
          exact hclear ⟨node, hnode, hidx, by omega, by omega⟩
      rw [hmarks] at hnode
      exact hne (congrArg Node.key (node_unique htaken hnode hle hlt hle' hlt'))
    . -- what is taken comes before a key that is not replaced at all
      have hidx : IsBefore order taken.key key := by
        rw [IsBefore, List.idxOf_eq_length hmem]
        exact List.idxOf_lt_length_of_mem (hall taken.key (hpieces.key_of_mem_nodes htaken).1)
      have hlength := List.length_pos_iff.mpr fun heq => hkeys (heq ▸ hkey)
      exact hclear ⟨taken, htaken, hidx, by omega, hlt⟩
  . intro hsheltered
    have hdone := hsheltered.marks_expand hpieces hkeys horder (List.nil_append order).symm
    rw [expand_nil, htext, expand_of_mem hall] at hdone
    exact hdone

end Marks

end Substrings
