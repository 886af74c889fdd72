import WzGame.Util.KeyedList
import WzGame.Util.Substitutions

/-!
This module contains when marks that are replaced by their values one after the other are replaced as all at once.
-/

namespace Substitutions

open Substrings (positions le_of_mem_positions)

variable {α : Type}

/-- The text with a value at each of the numbers, where `width` elements are left out. The first element of the text has
the number `idx`. -/
def replaceAt (value : List α) (width : Nat) : Nat → List Nat → List α → List α
  | _, [], text => text
  | idx, pos :: ps, text =>
    text.take (pos - idx) ++ (value ++ replaceAt value width (pos + width) ps (text.drop (pos - idx + width)))

def Fits (width : Nat) : Nat → List Nat → List α → Prop
  | _, [], _ => True
  | idx, pos :: ps, text =>
    idx ≤ pos ∧ pos + width ≤ idx + text.length ∧ Fits width (pos + width) ps (text.drop (pos - idx + width))

section Replace

variable {width idx : Nat} {ps qs : List Nat} {text : List α}

theorem replaceAt_append (value : List α) (width : Nat) {idx : Nat} {ps : List Nat} {front : List α} (text : List α)
    (hbehind : ∀ pos ∈ ps, idx + front.length ≤ pos)
    : replaceAt value width idx ps (front ++ text) = front ++ replaceAt value width (idx + front.length) ps text := by
  cases ps with
  | nil => rfl
  | cons pos ps =>
    have hpos := hbehind pos List.mem_cons_self
    have htake : pos - idx = front.length + (pos - (idx + front.length)) := by omega
    rw [replaceAt, replaceAt, htake, List.take_length_add_append, Nat.add_assoc, List.drop_length_add_append,
      List.append_assoc]

theorem fits_append {front : List α} (hbehind : ∀ pos ∈ ps, idx + front.length ≤ pos)
    (h : Fits width (idx + front.length) ps text) : Fits width idx ps (front ++ text) := by
  cases ps with
  | nil => trivial
  | cons pos ps =>
    have hpos := hbehind pos List.mem_cons_self
    have hdrop : pos - idx = front.length + (pos - (idx + front.length)) := by omega
    obtain ⟨hle, hroom, hrest⟩ := h
    refine ⟨by omega, by rw [List.length_append]; omega, ?_⟩
    rwa [hdrop, Nat.add_assoc, List.drop_length_add_append]

theorem exists_replaceAt_ne [Nontrivial α] {pos : Nat} (hwidth : 0 < width) (hps : Fits width idx (pos :: ps) text)
    (hqs : ∀ pos' ∈ qs.head?, pos < pos')
    : ∃ value, replaceAt value width idx (pos :: ps) text ≠ replaceAt value width idx qs text := by
  obtain ⟨hle, hroom, -⟩ := hps
  have hin : pos - idx < text.length := by omega
  obtain ⟨c, hc⟩ := exists_ne text[pos - idx]
  refine ⟨[c], fun hequal => hc ?_⟩
  have hvalue : (replaceAt [c] width idx (pos :: ps) text)[pos - idx]? = some c := by
    have hlength : (text.take (pos - idx)).length = pos - idx := by
      rw [List.length_take]
      omega
    rw [replaceAt, List.getElem?_append_right (by omega), hlength, Nat.sub_self]
    rfl
  have hkept : (replaceAt [c] width idx qs text)[pos - idx]? = some text[pos - idx] := by
    rw [← List.getElem?_eq_getElem hin]
    cases qs with
    | nil => rfl
    | cons pos' qs =>
      have hlt : pos < pos' := hqs pos' rfl
      have hfront : pos - idx < (text.take (pos' - idx)).length := by
        rw [List.length_take]
        omega
      rw [replaceAt, List.getElem?_append_left hfront, List.getElem?_take_of_lt (by omega)]
  rw [hequal, hkept] at hvalue
  exact (Option.some.inj hvalue).symm

theorem replaceAt_injective [Nontrivial α] (hwidth : 0 < width) (hps : Fits width idx ps text)
    (hqs : Fits width idx qs text)
    (h : ∀ value, replaceAt value width idx ps text = replaceAt value width idx qs text) : ps = qs := by
  induction ps generalizing idx qs text with
  | nil =>
    cases qs with
    | nil => rfl
    | cons pos' qs =>
      obtain ⟨value, hne⟩ := @exists_replaceAt_ne _ width idx qs [] text _ pos' hwidth hqs (by simp)
      exact absurd (h value).symm hne
  | cons pos ps ih =>
    cases qs with
    | nil =>
      obtain ⟨value, hne⟩ := @exists_replaceAt_ne _ width idx ps [] text _ pos hwidth hps (by simp)
      exact absurd (h value) hne
    | cons pos' qs =>
      rcases Nat.lt_trichotomy pos pos' with hlt | rfl | hlt
      . obtain ⟨value, hne⟩ := @exists_replaceAt_ne _ width idx ps (pos' :: qs) text _ pos hwidth hps (by simp [hlt])
        exact absurd (h value) hne
      . have hrest := ih hps.right.right hqs.right.right fun value => by
          have hwhole := List.append_cancel_left (h value)
          exact List.append_cancel_left hwhole
        rw [hrest]
      . obtain ⟨value, hne⟩ := @exists_replaceAt_ne _ width idx qs (pos :: ps) text _ pos' hwidth hqs (by simp [hlt])
        exact absurd (h value).symm hne

variable [DecidableEq α] {fold : α → α} {mark : List α}

theorem replaceAll_eq (hmark : mark ≠ []) (value : List α) (skip idx : Nat) (text : List α)
    : replaceAll fold mark value skip text
        = replaceAt value mark.length (idx + skip) (positions (mark.map fold) skip idx (text.map fold))
            (text.drop skip) := by
  have hpositive := List.length_pos_iff.mpr hmark
  induction text generalizing skip idx with
  | nil => simp [replaceAll, positions, replaceAt]
  | cons a text ih =>
    cases skip with
    | succ skip =>
      rw [replaceAll, ih skip (idx + 1), List.drop_succ_cons, Nat.add_assoc, Nat.add_comm 1]
      rfl
    | zero =>
      rw [replaceAll, List.map_cons, positions, List.length_map]
      split
      . next hoccurs =>
        have hdrop : (a :: text).drop mark.length = text.drop (mark.length - 1) := by
          rw [← Nat.sub_add_cancel hpositive, List.drop_succ_cons, Nat.add_sub_cancel]
        have hbehind : idx + 1 + (mark.length - 1) = idx + mark.length := by omega
        rw [if_pos (show mark.map fold <+: fold a :: text.map fold from hoccurs), ih (mark.length - 1) (idx + 1),
          hbehind, replaceAt]
        simp [hdrop]
      . next hmissed =>
        have hrest : ∀ pos ∈ positions (mark.map fold) 0 (idx + 1) (text.map fold), idx + [a].length ≤ pos := by
          intro pos hpos
          simpa using le_of_mem_positions hpos
        rw [if_neg (show ¬ mark.map fold <+: fold a :: text.map fold from hmissed), ih 0 (idx + 1)]
        exact (replaceAt_append value mark.length text hrest).symm

theorem fits_positions (hmark : mark ≠ []) (skip idx : Nat) (text : List α)
    : Fits mark.length (idx + skip) (positions (mark.map fold) skip idx (text.map fold)) (text.drop skip) := by
  have hpositive := List.length_pos_iff.mpr hmark
  induction text generalizing skip idx with
  | nil => trivial
  | cons a text ih =>
    cases skip with
    | succ skip =>
      have hrest := ih skip (idx + 1)
      rwa [Nat.add_assoc, Nat.add_comm 1] at hrest
    | zero =>
      rw [List.map_cons, positions, List.length_map]
      split
      . next hoccurs =>
        have hdrop : (a :: text).drop mark.length = text.drop (mark.length - 1) := by
          rw [← Nat.sub_add_cancel hpositive, List.drop_succ_cons, Nat.add_sub_cancel]
        have hroom := hoccurs.length_le
        have hbehind : idx + 1 + (mark.length - 1) = idx + mark.length := by omega
        have hrest := ih (mark.length - 1) (idx + 1)
        rw [hbehind, ← hdrop] at hrest
        refine ⟨Nat.le_refl _, ?_, ?_⟩
        . simpa using hroom
        . simpa using hrest
      . have hrest : ∀ pos ∈ positions (mark.map fold) 0 (idx + 1) (text.map fold), idx + [a].length ≤ pos := by
          intro pos hpos
          simpa using le_of_mem_positions hpos
        exact fits_append hrest (ih 0 (idx + 1))

end Replace

section Shown

theorem word_of_mark {mark : List α} {parts : List (Part α)} {part : Part α} (hpart : part.mark? = some mark)
    (hin : part ∈ parts) (hwords : ∀ word, .replaced word mark ∈ parts → word.length = mark.length)
    : part.word.length = mark.length := by
  cases part with
  | kept a => contradiction
  | replaced word mark' =>
    obtain rfl := Option.some.inj hpart
    exact hwords word hin

variable [DecidableEq α] {done : List (Entry α)} {mark : List α} {parts : List (Part α)}

@[simp]
theorem shown_cons (entries : List (Entry α)) (part : Part α) (parts : List (Part α))
    : shown entries (part :: parts) = part.shown entries ++ shown entries parts := rfl

@[simp]
theorem shown_append (entries : List (Entry α)) (parts parts' : List (Part α))
    : shown entries (parts ++ parts') = shown entries parts ++ shown entries parts' := List.flatMap_append

theorem shown_nil (parts : List (Part α)) : shown [] parts = source parts := by
  induction parts with
  | nil => rfl
  | cons part parts ih =>
    rw [shown_cons, source_cons, ih]
    cases part <;> rfl

@[simp]
theorem shown_map_kept (entries : List (Entry α)) (text : List α) : shown entries (text.map .kept) = text := by
  induction text with
  | nil => rfl
  | cons a text ih => rw [List.map_cons, shown_cons, ih, Part.shown, List.singleton_append]

theorem valueOf_eq_none (hnew : mark ∉ done.map (·.1)) : valueOf done mark = none := by
  rw [valueOf, Option.map_eq_none_iff, List.find?_eq_none]
  intro entry hentry hequal
  exact hnew (List.mem_map.mpr ⟨entry, hentry, by simpa using hequal⟩)

theorem valueOf_append (done : List (Entry α)) (mark value mark' : List α)
    : valueOf (done ++ [(mark, value)]) mark'
        = (valueOf done mark').or (if mark = mark' then some value else none) := by
  rw [valueOf, List.find?_append, valueOf, Option.map_or]
  congr 1
  split
  . next h => simp [h]
  . next h => simp [h]

theorem shown_of_mark (hnew : mark ∉ done.map (·.1)) (value : List α) {part : Part α} (hpart : part.mark? = some mark)
    : part.shown (done ++ [(mark, value)]) = value ∧ part.shown done = part.word := by
  cases part with
  | kept a => contradiction
  | replaced word mark' =>
    obtain rfl := Option.some.inj hpart
    rw [Part.shown, Part.shown, valueOf_append, valueOf_eq_none hnew, if_pos rfl]
    exact ⟨rfl, rfl⟩

theorem shown_of_ne (done : List (Entry α)) (value : List α) {part : Part α} (hpart : part.mark? ≠ some mark)
    : part.shown (done ++ [(mark, value)]) = part.shown done := by
  cases part with
  | kept a => rfl
  | replaced word mark' =>
    have hne : mark ≠ mark' := fun h => hpart (h ▸ rfl)
    rw [Part.shown, Part.shown, valueOf_append, if_neg hne, Option.or_none]

theorem le_of_mem_places {idx pos : Nat} (h : pos ∈ places done mark idx parts) : idx ≤ pos := by
  induction parts generalizing idx with
  | nil => simp [places] at h
  | cons part parts ih =>
    simp only [places] at h
    split at h
    . rcases List.mem_cons.mp h with rfl | h
      . exact Nat.le_refl _
      . have hle := ih h
        omega
    . have hle := ih h
      omega

theorem shown_eq_replaceAt (hnew : mark ∉ done.map (·.1)) (value : List α) (idx : Nat)
    (hwords : ∀ word, .replaced word mark ∈ parts → word.length = mark.length)
    : shown (done ++ [(mark, value)]) parts
        = replaceAt value mark.length idx (places done mark idx parts) (shown done parts) := by
  induction parts generalizing idx with
  | nil => rfl
  | cons part parts ih =>
    have hrest := fun idx => ih idx fun word hword => hwords word (List.mem_cons_of_mem _ hword)
    simp only [places]
    split
    . next hpart =>
      obtain ⟨hvalue, hword⟩ := shown_of_mark hnew value hpart
      have hlength := word_of_mark hpart List.mem_cons_self hwords
      rw [shown_cons, shown_cons, hvalue, hword, hlength, hrest (idx + mark.length), replaceAt, Nat.sub_self,
        List.take_zero, List.nil_append, Nat.zero_add, ← hlength, List.drop_left]
    . next hpart =>
      rw [shown_cons, shown_cons, shown_of_ne done value hpart, replaceAt_append _ _ _ fun pos => le_of_mem_places,
        ← hrest]

theorem fits_places (hnew : mark ∉ done.map (·.1)) (idx : Nat)
    (hwords : ∀ word, .replaced word mark ∈ parts → word.length = mark.length)
    : Fits mark.length idx (places done mark idx parts) (shown done parts) := by
  induction parts generalizing idx with
  | nil => trivial
  | cons part parts ih =>
    have hrest := fun idx => ih idx fun word hword => hwords word (List.mem_cons_of_mem _ hword)
    simp only [places]
    split
    . next hpart =>
      obtain ⟨-, hword⟩ := shown_of_mark hnew [] hpart
      have hlength := word_of_mark hpart List.mem_cons_self hwords
      rw [shown_cons, hword, hlength]
      refine ⟨Nat.le_refl _, by rw [List.length_append, hlength]; omega, ?_⟩
      rw [Nat.sub_self, Nat.zero_add, ← hlength, List.drop_left, hlength]
      exact hrest (idx + mark.length)
    . exact fits_append (fun pos => le_of_mem_places) (hrest _)

end Shown

section Restrict

variable [DecidableEq α] {fold : α → α} {marks marks' : List (List α)} {text : List α} {parts : List (Part α)}

def restrict (marks : List (List α)) (parts : List (Part α)) : List (Part α) :=
  parts.flatMap fun part =>
    match part with
    | .kept a => [.kept a]
    | .replaced word mark => if marks.contains mark then [.replaced word mark] else word.map .kept

theorem restrict_kept (marks : List (List α)) (a : α) (parts : List (Part α))
    : restrict marks (.kept a :: parts) = .kept a :: restrict marks parts := rfl

theorem restrict_replaced (marks : List (List α)) (word mark : List α) (parts : List (Part α))
    : restrict marks (.replaced word mark :: parts)
        = (if mark ∈ marks then [.replaced word mark] else word.map .kept) ++ restrict marks parts := by
  simp only [← List.contains_iff_mem]
  rfl

theorem restrict_append (marks : List (List α)) (parts parts' : List (Part α))
    : restrict marks (parts ++ parts') = restrict marks parts ++ restrict marks parts' := List.flatMap_append

theorem source_restrict (marks : List (List α)) (parts : List (Part α))
    : source (restrict marks parts) = source parts := by
  induction parts with
  | nil => rfl
  | cons part parts ih =>
    cases part with
    | kept a => rw [restrict_kept, source_cons, source_cons, ih]
    | replaced word mark =>
      rw [restrict_replaced, source_append, source_cons, ih]
      split
      . rw [source_cons, source_nil, List.append_nil]
      . rw [source_map_kept]
        rfl

theorem mem_of_mem_restrict {word mark : List α} (h : .replaced word mark ∈ restrict marks parts)
    : .replaced word mark ∈ parts ∧ mark ∈ marks := by
  obtain ⟨part, hpart, h⟩ := List.mem_flatMap.mp h
  cases part with
  | kept a => simp at h
  | replaced word' mark' =>
    dsimp only at h
    split at h
    . next hmark =>
      obtain ⟨rfl, rfl⟩ := Part.replaced.inj (List.mem_singleton.mp h)
      exact ⟨hpart, List.contains_iff_mem.mp hmark⟩
    . simp at h

theorem Decomposes.restrict (h : Decomposes fold marks text parts) (hmarks : ∀ mark ∈ marks', mark ∈ marks)
    : Decomposes fold marks' text (restrict marks' parts) := by
  refine ⟨by rw [source_restrict, h.covers], ?_, ?_⟩
  . intro word mark hmem
    obtain ⟨hmem, hmark⟩ := mem_of_mem_restrict hmem
    exact ⟨hmark, (h.marked word mark hmem).right⟩
  . intro mark hmark front back htext hoccurs
    obtain ⟨before, word, after, rfl, hbefore⟩ := h.complete mark (hmarks mark hmark) front back htext hoccurs
    refine ⟨Substitutions.restrict marks' before, word, Substitutions.restrict marks' after, ?_, ?_⟩
    . rw [restrict_append, restrict_replaced, if_pos hmark, List.singleton_append]
    . rw [source_restrict, hbefore]

theorem shown_restrict (entries : List (Entry α)) (parts : List (Part α))
    : shown entries (Substitutions.restrict (entries.map (·.1)) parts) = shown entries parts := by
  induction parts with
  | nil => rfl
  | cons part parts ih =>
    cases part with
    | kept a => rw [restrict_kept, shown_cons, shown_cons, ih]
    | replaced word mark =>
      rw [restrict_replaced, shown_append, shown_cons, ih]
      split
      . rw [shown_cons, shown, List.flatMap_nil, List.append_nil]
      . next hnew =>
        rw [shown_map_kept, Part.shown, valueOf_eq_none hnew]
        rfl

theorem simultaneous_iff {entries : List (Entry α)} {result : List α} (hnil : [] ∉ marks)
    (h : Decomposes fold marks text parts) (hentries : ∀ mark ∈ entries.map (·.1), mark ∈ marks)
    : Simultaneous fold entries text result ↔ shown entries parts = result := by
  have hparts := h.restrict hentries
  rw [← shown_restrict]
  constructor
  . rintro ⟨parts', hparts', rfl⟩
    rw [hparts.unique (fun hmem => hnil (hentries [] hmem)) hparts']
  . intro hresult
    exact ⟨_, hparts, hresult⟩

theorem valueOf_eq_some {entries : List (Entry α)} {mark value : List α} (hnodup : (entries.map (·.1)).Nodup)
    : valueOf entries mark = some value ↔ (mark, value) ∈ entries := by
  rw [valueOf, Option.map_eq_some_iff]
  constructor
  . rintro ⟨entry, hfind, rfl⟩
    have hmark : entry.1 = mark := by simpa using List.find?_some hfind
    rw [← hmark]
    exact List.mem_of_find?_eq_some hfind
  . intro hentry
    exact ⟨(mark, value), KeyedList.find?_key hnodup hentry, rfl⟩

theorem Simultaneous.shown_scan {entries : List (Entry α)} {result : List α} (hnil : [] ∉ entries.map (·.1))
    (h : Simultaneous fold entries text result) : shown entries (scan fold (entries.map (·.1)) 0 text) = result := by
  obtain ⟨parts, hparts, rfl⟩ := h
  rw [hparts.unique hnil (decomposes_scan hnil (hparts.apart hnil))]

theorem Simultaneous.perm {entries entries' : List (Entry α)} {result : List α} (hperm : entries.Perm entries')
    (hnodup : (entries.map (·.1)).Nodup) (h : Simultaneous fold entries text result)
    : Simultaneous fold entries' text result := by
  obtain ⟨parts, hparts, rfl⟩ := h
  have hvalues : valueOf entries' = valueOf entries := by
    funext mark
    apply Option.ext
    intro value
    rw [valueOf_eq_some hnodup, valueOf_eq_some ((hperm.map _).nodup_iff.mp hnodup)]
    exact hperm.mem_iff.symm
  refine ⟨parts, hparts.congr fun mark => (hperm.map _).mem_iff, ?_⟩
  unfold shown
  congr 1
  funext part
  cases part with
  | kept a => rfl
  | replaced word mark => rw [Part.shown, Part.shown, hvalues]

end Restrict

section Runs

variable [DecidableEq α] {fold : α → α} {text : List α} {entries done rest : List (Entry α)} {mark : List α}
  {parts : List (Part α)}

def run (fold : α → α) (entries : List (Entry α)) (text : List α) : List α :=
  entries.foldl (fun text entry => replaceAll fold entry.1 entry.2 0 text) text

theorem run_append (done : List (Entry α)) (mark value text : List α)
    : run fold (done ++ [(mark, value)]) text = replaceAll fold mark value 0 (run fold done text) := by
  rw [run, List.foldl_append]
  rfl

/-- The marks do not share a place in the text, and when it is the turn of a mark, it is found from left to right where
it stands in the text, in which the entries before it are substituted all at once. -/
def Undisturbed (fold : α → α) (entries : List (Entry α)) (text : List α) : Prop :=
  Apart fold (entries.map (·.1)) text ∧ ∀ done entry rest, entries = done ++ entry :: rest →
    positions (entry.1.map fold) 0 0 ((shown done (scan fold (entries.map (·.1)) 0 text)).map fold)
      = places done entry.1 0 (scan fold (entries.map (·.1)) 0 text)

def Throughout (fold : α → α) (entries : List (Entry α)) (text : List α) : Prop :=
  Simultaneous fold entries text (run fold entries text)
    ∧ ∀ done mark value rest, entries = done ++ (mark, value) :: rest →
      ∀ value', Simultaneous fold (done ++ [(mark, value')]) text (run fold (done ++ [(mark, value')]) text)

section Step

variable (hmark : mark ≠ []) (hnew : mark ∉ done.map (·.1))
  (hwords : ∀ word, .replaced word mark ∈ parts → word.length = mark.length)
include hmark hnew hwords

theorem replaceAll_eq_shown (value : List α)
    (h : positions (mark.map fold) 0 0 ((shown done parts).map fold) = places done mark 0 parts)
    : replaceAll fold mark value 0 (shown done parts) = shown (done ++ [(mark, value)]) parts := by
  rw [replaceAll_eq hmark, h, shown_eq_replaceAt hnew value 0 hwords]
  rfl

theorem positions_eq_places [Nontrivial α]
    (h : ∀ value, replaceAll fold mark value 0 (shown done parts) = shown (done ++ [(mark, value)]) parts)
    : positions (mark.map fold) 0 0 ((shown done parts).map fold) = places done mark 0 parts := by
  refine replaceAt_injective (List.length_pos_iff.mpr hmark) (fits_positions hmark 0 0 _) (fits_places hnew 0 hwords) ?_
  intro value
  have hfound := @replaceAll_eq _ _ fold mark hmark value 0 0 (shown done parts)
  exact hfound.symm.trans ((h value).trans (shown_eq_replaceAt hnew value 0 hwords))

end Step

section Split

variable {value : List α} (hentries : entries = done ++ (mark, value) :: rest)
include hentries

omit [DecidableEq α] in
theorem mark_mem : mark ∈ entries.map (·.1) := by
  simp [hentries]

omit [DecidableEq α] in
theorem mark_new (hnodup : (entries.map (·.1)).Nodup) : mark ∉ done.map (·.1) := by
  rw [hentries, List.map_append] at hnodup
  intro hmem
  exact (List.nodup_append.mp hnodup).right.right mark hmem mark (by simp) rfl

omit [DecidableEq α] in
theorem marks_subset (value' : List α) : ∀ m ∈ (done ++ [(mark, value')]).map (·.1), m ∈ entries.map (·.1) := by
  intro m hm
  simp only [hentries, List.map_append, List.mem_append, List.map_cons, List.mem_cons] at hm ⊢
  simp only [List.map_nil, List.not_mem_nil, or_false] at hm
  exact hm.imp_right Or.inl

end Split

theorem run_eq_shown (hnil : [] ∉ entries.map (·.1)) (hnodup : (entries.map (·.1)).Nodup)
    (h : Undisturbed fold entries text) (hentries : entries = done ++ rest)
    : run fold done text = shown done (scan fold (entries.map (·.1)) 0 text) := by
  have hparts := decomposes_scan hnil h.left
  induction done using List.reverseRecOn generalizing rest with
  | nil => rw [shown_nil, hparts.covers]; rfl
  | append_singleton done entry ih =>
    have hsplit : entries = done ++ (entry.1, entry.2) :: rest := by
      rw [hentries, List.append_assoc, List.singleton_append]
    have hmark : entry.1 ≠ [] := fun hempty => hnil (hempty ▸ mark_mem hsplit)
    rw [run_append, ih hsplit]
    exact replaceAll_eq_shown hmark (mark_new hsplit hnodup) (fun word => hparts.length_word) entry.2
      (h.right done entry rest hsplit)

theorem throughout_iff [Nontrivial α] (hnil : [] ∉ entries.map (·.1)) (hnodup : (entries.map (·.1)).Nodup)
    : Throughout fold entries text ↔ Undisturbed fold entries text := by
  constructor
  . rintro ⟨⟨parts, hparts, -⟩, hfirst⟩
    have hapart := hparts.apart hnil
    have hscan := decomposes_scan hnil hapart
    have hrun : ∀ done mark value rest, entries = done ++ (mark, value) :: rest → ∀ value',
        shown (done ++ [(mark, value')]) (scan fold (entries.map (·.1)) 0 text)
          = run fold (done ++ [(mark, value')]) text := by
      intro done mark value rest hentries value'
      have hsimultaneous := hfirst done mark value rest hentries value'
      exact (simultaneous_iff hnil hscan (marks_subset hentries value')).mp hsimultaneous
    refine ⟨hapart, ?_⟩
    intro done entry rest hentries
    have hdone : run fold done text = shown done (scan fold (entries.map (·.1)) 0 text) := by
      rcases List.eq_nil_or_concat done with rfl | ⟨before, last, rfl⟩
      . rw [shown_nil, hscan.covers]
        rfl
      . rw [List.concat_eq_append, List.append_assoc, List.singleton_append] at hentries
        rw [List.concat_eq_append]
        exact (hrun before last.1 last.2 _ hentries last.2).symm
    have hmark : entry.1 ≠ [] := fun hempty => hnil (hempty ▸ mark_mem hentries)
    refine positions_eq_places hmark (mark_new hentries hnodup) (fun word => hscan.length_word) ?_
    intro value
    rw [← hdone, ← run_append, hrun done entry.1 entry.2 rest hentries]
  . intro h
    have hscan := decomposes_scan hnil h.left
    refine ⟨?_, ?_⟩
    . have hall := run_eq_shown hnil hnodup h (List.append_nil entries).symm
      exact (simultaneous_iff hnil hscan fun mark hmark => hmark).mpr hall.symm
    . intro done mark value rest hentries value'
      have hmark : mark ≠ [] := fun hempty => hnil (hempty ▸ mark_mem hentries)
      have hfound := replaceAll_eq_shown hmark (mark_new hentries hnodup) (fun word => hscan.length_word) value'
        (h.right done (mark, value) rest hentries)
      refine (simultaneous_iff hnil hscan (marks_subset hentries value')).mpr ?_
      rw [run_append, run_eq_shown hnil hnodup h hentries, hfound]

theorem shown_scan_singleton (mark value : List α) (skip : Nat) (text : List α)
    : shown [(mark, value)] (scan fold [mark] skip text) = replaceAll fold mark value skip text := by
  have hvalue : valueOf [(mark, value)] mark = some value := by simp [valueOf]
  induction text generalizing skip with
  | nil => simp [scan, replaceAll, shown]
  | cons a text ih =>
    cases skip with
    | succ skip => exact ih skip
    | zero =>
      by_cases hoccurs : Occurs fold mark (a :: text)
      . rw [scan, replaceAll, if_pos hoccurs, List.find?_cons_of_pos (by simpa using hoccurs), shown_cons, ih,
          Part.shown, hvalue]
        rfl
      . rw [scan, replaceAll, if_neg hoccurs, List.find?_cons_of_neg (by simpa using hoccurs), List.find?_nil,
          shown_cons, ih]
        rfl

theorem simultaneous_singleton (hmark : mark ≠ []) (value : List α) (hapart : Apart fold [mark] text)
    : Simultaneous fold [(mark, value)] text (run fold [(mark, value)] text) := by
  have hnil : [] ∉ [mark] := by simpa using hmark.symm
  exact ⟨_, decomposes_scan hnil hapart, shown_scan_singleton mark value 0 text⟩

end Runs

end Substitutions
