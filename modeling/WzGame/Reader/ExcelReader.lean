import WzGame.Util.MapObject
import WzGame.Util.Splits

/-!
This module contains how the configuration tool reads a cell with a list of lists, which stand in brackets.
-/

namespace WzGame

namespace ConvertUtil

-- a `NumberFormatException` gives 0
def safe2Int (value : List Char) : Int32 := .ofInt ((MapObject.parseInt value).getD 0)

end ConvertUtil

namespace ExcelReader

variable {ε : Type}

def getArrayList (convert : List Char → ε) (value : List Char) : List ε := (Splits.split ',' value).map convert

-- `substring`, where `none` is a `StringIndexOutOfBoundsException`.
def substring (value : List Char) (beginIndex endIndex : Nat) : Option (List Char) :=
  if beginIndex ≤ endIndex ∧ endIndex ≤ value.length then
    some ((value.drop beginIndex).take (endIndex - beginIndex))
  else
    none

inductive Slices where
  | running
  | threw
  | ended (stringList : List (List Char))
deriving DecidableEq

def sliceLoop : Nat → List Char → List (List Char) → Slices
  | 0, _, _ => .running
  | rounds + 1, value, stringList =>
    match value.idxOf? '[', value.idxOf? ']' with
    | some beginIndex, some endIndex =>
      match substring value (beginIndex + 1) endIndex, substring value (endIndex + 1) value.length with
      | some slice, some rest => sliceLoop rounds rest (stringList ++ [slice])
      | _, _ => .threw
    | _, _ => .ended stringList

/-- `getArray2List` with a loop of `rounds` rounds at most; `none` is an exception or a loop that is not at its
end. -/
def getArray2List (convert : List Char → ε) (rounds : Nat) (value : List Char) : Option (List (List ε)) :=
  match sliceLoop rounds value [] with
  | .ended stringList => some (stringList.map (getArrayList convert))
  | _ => none

def writtenRow (row : List Int32) : List Char := Splits.join ',' (row.map fun v => v.toInt.repr.toList)

def written (rows : List (List Int32)) : List Char := rows.flatMap fun row => '[' :: writtenRow row ++ [']']

def Bracketed (cell : List Char) : Prop :=
  ∀ before after, cell = before ++ ']' :: after → '[' ∈ after →
    ∃ front back, before = front ++ '[' :: back ∧ ']' ∉ back

section Loop

variable {value : List Char} {stringList : List (List Char)} {rounds : Nat}

theorem sliceLoop_ended (h : '[' ∉ value ∨ ']' ∉ value)
    : sliceLoop (rounds + 1) value stringList = .ended stringList := by
  rw [sliceLoop]
  rcases h with h | h
  . rw [List.idxOf?_eq_none_iff.mpr h]
  . rw [List.idxOf?_eq_none_iff.mpr h]
    cases value.idxOf? '[' <;> rfl

theorem idxOf?_append {front rest : List Char} {c : Char} (h : c ∉ front)
    : (front ++ c :: rest).idxOf? c = some front.length := by
  induction front with
  | nil => simp [List.idxOf?_cons]
  | cons a front ih =>
    rw [List.mem_cons, not_or] at h
    rw [List.cons_append, List.idxOf?_cons, if_neg (by simpa using Ne.symm h.1), ih h.2]
    rfl

theorem substring_append {front : List Char} (slice rest : List Char) {beginIndex endIndex : Nat}
    (hbegin : beginIndex = front.length) (hend : endIndex = front.length + slice.length)
    : substring (front ++ (slice ++ rest)) beginIndex endIndex = some slice := by
  have hle : front.length ≤ front.length + slice.length
      ∧ front.length + slice.length ≤ (front ++ (slice ++ rest)).length := by
    rw [List.length_append, List.length_append]
    omega
  rw [hbegin, hend, substring, if_pos hle, List.drop_left, Nat.add_sub_cancel_left, List.take_left]

theorem substring_end {front : List Char} (rest : List Char) {beginIndex : Nat} (hbegin : beginIndex = front.length)
    : substring (front ++ rest) beginIndex (front ++ rest).length = some rest := by
  have hall := substring_append rest [] hbegin List.length_append
  rwa [List.append_nil] at hall

theorem sliceLoop_slice {front slice rest : List Char} (hopen : '[' ∉ front) (hfront : ']' ∉ front)
    (hslice : ']' ∉ slice)
    : sliceLoop (rounds + 1) (front ++ '[' :: (slice ++ ']' :: rest)) stringList
        = sliceLoop rounds rest (stringList ++ [slice]) := by
  have hassoc : front ++ '[' :: (slice ++ ']' :: rest) = (front ++ '[' :: slice) ++ ']' :: rest := by simp
  have hlength : (front ++ '[' :: slice).length = front.length + 1 + slice.length := by simp; omega
  have hend : (front ++ '[' :: (slice ++ ']' :: rest)).idxOf? ']' = some (front.length + 1 + slice.length) := by
    rw [hassoc, idxOf?_append (by simp [hfront, hslice]), hlength]
  have hcut : substring (front ++ '[' :: (slice ++ ']' :: rest)) (front.length + 1) (front.length + 1 + slice.length)
      = some slice := by
    rw [List.append_cons front]
    exact substring_append slice _ (by simp) (by simp)
  have hrest : substring (front ++ '[' :: (slice ++ ']' :: rest)) (front.length + 1 + slice.length + 1)
      (front ++ '[' :: (slice ++ ']' :: rest)).length = some rest := by
    rw [hassoc, List.append_cons _ ']']
    exact substring_end rest (by rw [List.length_append, hlength, List.length_singleton])
  rw [sliceLoop, idxOf?_append hopen, hend]
  simp only [hcut, hrest]

theorem sliceLoop_threw {front rest : List Char} (hopen : '[' ∉ front) (hclose : ']' ∉ front) (hrest : '[' ∈ rest)
    : sliceLoop (rounds + 1) (front ++ ']' :: rest) stringList = .threw := by
  obtain ⟨middle, rest', rfl, hmiddle⟩ := List.eq_append_cons_of_mem hrest
  have hassoc : front ++ ']' :: (middle ++ '[' :: rest') = (front ++ ']' :: middle) ++ '[' :: rest' := by simp
  have hbegin : (front ++ ']' :: (middle ++ '[' :: rest')).idxOf? '[' = some (front ++ ']' :: middle).length := by
    rw [hassoc, idxOf?_append (by simp [hopen, hmiddle])]
  have hcut : substring (front ++ ']' :: (middle ++ '[' :: rest')) ((front ++ ']' :: middle).length + 1) front.length
      = none := by
    rw [substring, if_neg]
    simp only [List.length_append, List.length_cons]
    omega
  rw [sliceLoop, hbegin, idxOf?_append hclose]
  simp only [hcut]

inductive Round : List Char → Prop where
  | last {value : List Char} (h : '[' ∉ value ∨ ']' ∉ value) : Round value
  | slice {front slice rest : List Char} (hopen : '[' ∉ front) (hfront : ']' ∉ front) (hslice : ']' ∉ slice)
    : Round (front ++ '[' :: (slice ++ ']' :: rest))
  | throws {front rest : List Char} (hopen : '[' ∉ front) (hclose : ']' ∉ front) (hrest : '[' ∈ rest)
    : Round (front ++ ']' :: rest)

theorem round_of (value : List Char) : Round value := by
  by_cases hopen : '[' ∈ value
  . by_cases hclose : ']' ∈ value
    . obtain ⟨before, rest, rfl, hbefore⟩ := List.eq_append_cons_of_mem hclose
      by_cases hin : '[' ∈ before
      . obtain ⟨front, slice, rfl, hfront⟩ := List.eq_append_cons_of_mem hin
        have hassoc : front ++ '[' :: slice ++ ']' :: rest = front ++ '[' :: (slice ++ ']' :: rest) := by simp
        simp only [List.mem_append, List.mem_cons, not_or] at hbefore
        exact hassoc ▸ .slice hfront hbefore.1 hbefore.2.2
      . have hrest : '[' ∈ rest := by simpa [hin] using hopen
        exact .throws hin hbefore hrest
    . exact .last (.inr hclose)
  . exact .last (.inl hopen)

theorem bracketed_last (h : '[' ∉ value ∨ ']' ∉ value) : Bracketed value := by
  rintro before after rfl hafter
  rcases h with h | h
  . exact absurd (by simp [hafter]) h
  . exact absurd (by simp) h

theorem bracketed_slice_iff {front slice rest : List Char} (hfront : ']' ∉ front) (hslice : ']' ∉ slice)
    : Bracketed (front ++ '[' :: (slice ++ ']' :: rest)) ↔ Bracketed rest := by
  have hassoc : front ++ '[' :: (slice ++ ']' :: rest) = (front ++ '[' :: slice) ++ ']' :: rest := by simp
  have hhead : ']' ∉ front ++ '[' :: slice := by simp [hfront, hslice]
  rw [hassoc]
  constructor
  . rintro h before after rfl hafter
    obtain ⟨front', back, hbefore, hback⟩ := h (front ++ '[' :: slice ++ ']' :: before) after (by simp) hafter
    rcases List.append_eq_append_iff.mp hbefore with ⟨middle, -, hmiddle⟩ | ⟨middle, -, hmiddle⟩
    . cases middle with
      | nil => simp at hmiddle
      | cons c middle => exact ⟨middle, back, (List.cons.inj hmiddle).2, hback⟩
    . cases middle with
      | nil => simp at hmiddle
      | cons c middle =>
        rw [(List.cons.inj hmiddle).2] at hback
        simp at hback
  . intro h before after hcell hafter
    rcases List.append_eq_append_iff.mp hcell with ⟨middle, rfl, hmiddle⟩ | ⟨middle, hmiddle', hmiddle⟩
    . cases middle with
      | nil => exact ⟨front, slice, List.append_nil _, hslice⟩
      | cons c middle =>
        obtain ⟨rfl, hrest⟩ := List.cons.inj hmiddle
        obtain ⟨front', back, rfl, hback⟩ := h middle after hrest hafter
        exact ⟨front ++ '[' :: slice ++ ']' :: front', back, by simp, hback⟩
    . cases middle with
      | nil => exact ⟨front, slice, (hmiddle'.trans (List.append_nil _)).symm, hslice⟩
      | cons c middle =>
        obtain ⟨rfl, -⟩ := List.cons.inj hmiddle
        rw [hmiddle'] at hhead
        simp at hhead

theorem not_bracketed_throws {front rest : List Char} (hopen : '[' ∉ front) (hrest : '[' ∈ rest)
    : ¬ Bracketed (front ++ ']' :: rest) := by
  intro h
  obtain ⟨front', back, rfl, -⟩ := h front rest rfl hrest
  simp at hopen

theorem sliceLoop_iff (h : value.length < rounds)
    : sliceLoop rounds value stringList ≠ .running
        ∧ ((∃ list, sliceLoop rounds value stringList = .ended list) ↔ Bracketed value) := by
  induction rounds generalizing value stringList with
  | zero => contradiction
  | succ rounds ih =>
    cases round_of value with
    | last hlast =>
      rw [sliceLoop_ended hlast]
      exact ⟨by simp, ⟨fun _ => bracketed_last hlast, fun _ => ⟨_, rfl⟩⟩⟩
    | slice hopen hfront hslice =>
      rw [sliceLoop_slice hopen hfront hslice, bracketed_slice_iff hfront hslice]
      exact ih (by simp at h; omega)
    | throws hopen hclose hrest =>
      rw [sliceLoop_threw hopen hclose hrest]
      exact ⟨by simp, ⟨fun hended => by simp at hended, fun hgood => absurd hgood (not_bracketed_throws hopen hrest)⟩⟩

theorem sliceLoop_mono {rounds' : Nat} (hle : rounds ≤ rounds') (h : sliceLoop rounds value stringList ≠ .running)
    : sliceLoop rounds' value stringList = sliceLoop rounds value stringList := by
  induction rounds generalizing value stringList rounds' with
  | zero => exact absurd rfl h
  | succ rounds ih =>
    obtain ⟨rounds', rfl⟩ : ∃ n, rounds' = n + 1 := ⟨rounds' - 1, by omega⟩
    cases round_of value with
    | last hlast => rw [sliceLoop_ended hlast, sliceLoop_ended hlast]
    | slice hopen hfront hslice =>
      rw [sliceLoop_slice hopen hfront hslice] at h ⊢
      rw [sliceLoop_slice hopen hfront hslice]
      exact ih (by omega) h
    | throws hopen hclose hrest => rw [sliceLoop_threw hopen hclose hrest, sliceLoop_threw hopen hclose hrest]

theorem sliceLoop_unique {rounds' : Nat} (h : sliceLoop rounds value stringList ≠ .running)
    (h' : sliceLoop rounds' value stringList ≠ .running)
    : sliceLoop rounds value stringList = sliceLoop rounds' value stringList := by
  rcases Nat.le_total rounds rounds' with hle | hle
  . exact (sliceLoop_mono hle h).symm
  . exact sliceLoop_mono hle h'

end Loop

section Rows

variable {rows : List (List Int32)} {rounds : Nat}

theorem notMem_repr (v : Int32) {c : Char} (hc : c ∈ [',', '[', ']']) : c ∉ v.toInt.repr.toList := by
  have hdigits : ∀ n : Nat, c ∉ Nat.toDigits 10 n := by
    intro n hmem
    have hdigit := Nat.isDigit_of_mem_toDigits (by decide) (by decide) hmem
    simp only [List.mem_cons, List.not_mem_nil, or_false] at hc
    rcases hc with rfl | rfl | rfl <;> exact absurd hdigit (by decide)
  have hminus : c ≠ '-' := by
    rintro rfl
    exact absurd hc (by decide)
  have htext : "-".toList = ['-'] := by decide
  rw [Int.repr_eq_if]
  split
  . rw [Nat.toList_repr]
    exact hdigits _
  . rw [String.toList_append, Nat.toList_repr, htext, List.singleton_append, List.mem_cons, not_or]
    exact ⟨hminus, hdigits _⟩

theorem repr_ne_nil (v : Int32) : v.toInt.repr.toList ≠ [] := by
  rw [Int.repr_eq_if]
  split
  . rw [Nat.toList_repr]
    exact Nat.toDigits_ne_nil
  . simp [String.toList_append]

theorem sliceLoop_written (h : rows.length < rounds) (stringList : List (List Char))
    : sliceLoop rounds (written rows) stringList = .ended (stringList ++ rows.map writtenRow) := by
  induction rows generalizing rounds stringList with
  | nil =>
    obtain ⟨rounds, rfl⟩ : ∃ n, rounds = n + 1 := ⟨rounds - 1, by omega⟩
    rw [sliceLoop_ended (.inl (by simp [written])), List.map_nil, List.append_nil]
  | cons row rows ih =>
    obtain ⟨rounds, rfl⟩ : ∃ n, rounds = n + 1 := ⟨rounds - 1, by omega⟩
    have hrow : written (row :: rows) = [] ++ '[' :: (writtenRow row ++ ']' :: written rows) := by
      simp [written, writtenRow]
    have hclose : ']' ∉ writtenRow row := by
      refine Splits.notMem_join (by decide) fun part hpart => ?_
      obtain ⟨v, -, rfl⟩ := List.mem_map.mp hpart
      exact notMem_repr v (by simp)
    rw [hrow, sliceLoop_slice (by simp) (by simp) hclose, ih (by simpa using h), List.map_cons, List.append_assoc,
      List.singleton_append]

theorem safe2Int_repr (v : Int32) : ConvertUtil.safe2Int v.toInt.repr.toList = v := by
  rw [ConvertUtil.safe2Int, MapObject.parseInt_repr ⟨v.le_toInt, v.toInt_lt⟩]
  exact Int32.ofInt_toInt v

theorem getArrayList_writtenRow (row : List Int32)
    : getArrayList ConvertUtil.safe2Int (writtenRow row) = if row = [] then [0] else row := by
  split
  . next hrow =>
    rw [hrow]
    decide
  . next hrow =>
    have hsplit : Splits.Splittable ',' (row.map fun v => v.toInt.repr.toList) := by
      refine ⟨by simpa using hrow, ?_, fun hlast => ?_⟩
      . intro part hpart
        obtain ⟨v, -, rfl⟩ := List.mem_map.mp hpart
        exact notMem_repr v (by simp)
      . obtain ⟨v, -, hempty⟩ := List.mem_map.mp (List.mem_of_getLast? hlast)
        exact absurd hempty (repr_ne_nil v)
    rw [getArrayList, writtenRow, Splits.split_join hsplit, List.map_map]
    exact (List.map_congr_left fun v _ => safe2Int_repr v).trans (List.map_id' row)

theorem getArray2List_written (h : rows.length < rounds)
    : getArray2List ConvertUtil.safe2Int rounds (written rows)
        = some (rows.map fun row => if row = [] then [0] else row) := by
  rw [getArray2List, sliceLoop_written h]
  simp [getArrayList_writtenRow]

theorem eq_of_getArray2List {list : List (List Int32)}
    (h : getArray2List ConvertUtil.safe2Int rounds (written rows) = some list)
    : list = rows.map fun row => if row = [] then [0] else row := by
  have hended : sliceLoop rounds (written rows) [] ≠ .running := by
    intro hrunning
    simp [getArray2List, hrunning] at h
  have hread := getArray2List_written (Nat.lt_succ_self rows.length)
  rw [getArray2List, sliceLoop_unique (by simp [sliceLoop_written]) hended, ← getArray2List, h,
    Option.some_inj] at hread
  exact hread

end Rows

/-- The loop ends for every cell, it ends without an exception exactly if the cell is bracketed, and lists come back
from their cell exactly if none of them is empty. -/
theorem getArray2List_iff (cell : List Char) (rows : List (List Int32))
    : (∃ rounds, sliceLoop rounds cell [] ≠ .running)
        ∧ ((∃ rounds stringList, sliceLoop rounds cell [] = .ended stringList) ↔ Bracketed cell)
        ∧ ((∃ rounds, getArray2List ConvertUtil.safe2Int rounds (written rows) = some rows)
          ↔ ∀ row ∈ rows, row ≠ []) := by
  refine ⟨⟨cell.length + 1, (sliceLoop_iff (Nat.lt_succ_self _)).1⟩, ?_, ?_⟩
  . rw [← (@sliceLoop_iff cell [] _ (Nat.lt_succ_self _)).2]
    constructor
    . rintro ⟨rounds, stringList, hended⟩
      have hnot : sliceLoop rounds cell [] ≠ .running := by simp [hended]
      exact ⟨stringList, (sliceLoop_unique (sliceLoop_iff (Nat.lt_succ_self _)).1 hnot).trans hended⟩
    . rintro ⟨stringList, hended⟩
      exact ⟨_, stringList, hended⟩
  . constructor
    . rintro ⟨rounds, hrows⟩ row hrow rfl
      have hsame := List.map_inj_left.mp ((List.map_id' rows).trans (eq_of_getArray2List hrows)) [] hrow
      simp at hsame
    . intro hrows
      refine ⟨rows.length + 1, ?_⟩
      rw [getArray2List_written (Nat.lt_succ_self _), Option.some_inj]
      exact (List.map_congr_left fun row hrow => if_neg (hrows row hrow)).trans (List.map_id' rows)

theorem getArray2List_counterexample
    : ¬ ((∀ rows, ∃ rounds, getArray2List ConvertUtil.safe2Int rounds (written rows) = some rows)
        ∧ ∀ cell, ∃ rounds stringList, sliceLoop rounds cell [] = .ended stringList) := by
  rintro ⟨hrows, -⟩
  obtain ⟨rounds, hread⟩ := hrows [[]]
  exact absurd (eq_of_getArray2List hread) (by decide)

end ExcelReader

end WzGame
