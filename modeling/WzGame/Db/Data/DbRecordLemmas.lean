import Mathlib.Data.List.Perm.Basic
import WzGame.Db.Data.DbRecord

/-!
This module contains what `DbRecord.update` does to the records of one key.
-/

namespace WzGame

inductive KeyValue where
  | number (n : Int)
  | object (v : Value)
deriving DecidableEq

def Value.keyValue (v : Value) : KeyValue :=
  if v.toLong.getD (-1) = -1 then .object v else .number (v.toLong.getD (-1))

namespace MapObject

def rowKey (keys : List String) (data : MapObject) : List KeyValue :=
  keys.map fun key => (data.get key).keyValue

-- the columns `keys` are not null
def HasKeys (keys : List String) (data : MapObject) : Prop := ∀ key ∈ keys, data.get key ≠ .null

end MapObject

open MapObject

namespace DbRecord

theorem sameRecord_cons {data1 data2 : MapObject} {key : String} {keys : List String}
    (hkey : data1.get key ≠ .null)
    : sameRecord data1 data2 (key :: keys)
        = if (data1.get key).keyValue = (data2.get key).keyValue then
            sameRecord data1 data2 keys
          else
            some false := by
  have h1 : data1.getLong key (-1) = (data1.get key).toLong.getD (-1) := rfl
  have h2 : data2.getLong key (-1) = (data2.get key).toLong.getD (-1) := rfl
  rw [sameRecord]
  unfold Value.keyValue
  rw [← h1, ← h2]
  by_cases hl1 : data1.getLong key (-1) = -1 <;> by_cases hl2 : data2.getLong key (-1) = -1
  . simp [hl1, hl2, hkey]
  . simp [hl1, hl2, Ne.symm hl2]
  . simp [hl1, hl2]
  . simp [hl1, hl2]

theorem sameRecord_eq {data1 : MapObject} (data2 : MapObject) {keys : List String}
    (h : HasKeys keys data1)
    : sameRecord data1 data2 keys = some (decide (rowKey keys data1 = rowKey keys data2)) := by
  induction keys with
  | nil => rfl
  | cons key keys ih =>
    rw [sameRecord_cons (h key (by simp)), ih (fun key' hkey' => h key' (by simp [hkey']))]
    unfold rowKey
    split
    . next heq => simp [heq]
    . next hne => simp [hne]

theorem find?_eq_some {keys : List String} {rows : List MapObject} {row : MapObject}
    (hnodup : (rows.map (rowKey keys)).Nodup) (hrow : row ∈ rows)
    : rows.find? (fun row' => rowKey keys row' = rowKey keys row) = some row := by
  induction rows with
  | nil => simp at hrow
  | cons r rows ih =>
    rw [List.map_cons, List.nodup_cons] at hnodup
    rcases List.mem_cons.mp hrow with rfl | hrow
    . simp
    . have hne : rowKey keys r ≠ rowKey keys row := fun h =>
        hnodup.1 (List.mem_map.mpr ⟨row, hrow, h.symm⟩)
      rw [List.find?_cons_of_neg (by simpa using hne)]
      exact ih hnodup.2 hrow

theorem filter_rowKey {keys : List String} {rows : List MapObject}
    (hnodup : (rows.map (rowKey keys)).Nodup) (i : List KeyValue)
    : (rows.filter fun row => rowKey keys row = i)
        = (rows.find? fun row => rowKey keys row = i).toList := by
  induction rows with
  | nil => rfl
  | cons r rows ih =>
    rw [List.map_cons, List.nodup_cons] at hnodup
    by_cases h : rowKey keys r = i
    . have hempty : (rows.filter fun row => rowKey keys row = i) = [] := by
        apply List.filter_eq_nil_iff.mpr
        intro row hrow
        have : rowKey keys row ≠ i := fun h' =>
          hnodup.1 (List.mem_map.mpr ⟨row, hrow, h'.trans h.symm⟩)
        simpa using this
      rw [List.filter_cons_of_pos (by simpa using h), List.find?_cons_of_pos (by simpa using h), hempty]
      rfl
    . rw [List.filter_cons_of_neg (by simpa using h), List.find?_cons_of_neg (by simpa using h)]
      exact ih hnodup.2

variable [DataUtil]

def id (keys : List String) (record : DbRecord) : List KeyValue := rowKey keys record.data

def merged (inirecord record : DbRecord) : DbRecord :=
  if inirecord.key ≠ record.key then ⟨record.key, .new, record.data⟩ else inirecord

theorem merge_cases {keys : List String} {record : DbRecord} (hkeys : HasKeys keys record.data)
    (records : List DbRecord)
    : (merge keys record records = some none ∧ ∀ r ∈ records, id keys r ≠ id keys record)
        ∨ ∃ front r back, records = front ++ r :: back
            ∧ (∀ r' ∈ front, id keys r' ≠ id keys record) ∧ id keys r = id keys record
            ∧ merge keys record records = some (some (front ++ merged r record :: back)) := by
  induction records with
  | nil =>
    left
    simp [merge]
  | cons r records ih =>
    have hsame := sameRecord_eq r.data hkeys
    by_cases hid : id keys r = id keys record
    . right
      refine ⟨[], r, records, rfl, by simp, hid, ?_⟩
      have hid : rowKey keys record.data = rowKey keys r.data := hid.symm
      simp only [merge, hsame, hid, decide_true]
      unfold merged
      split <;> rfl
    . have hne : rowKey keys record.data ≠ rowKey keys r.data := fun h => hid h.symm
      have hmerge : merge keys record (r :: records)
          = (merge keys record records).map (Option.map (r :: ·)) := by
        simp only [merge, hsame, hne, decide_false]
      rcases ih with ⟨hnone, hall⟩ | ⟨front, r', back, rfl, hfront, hr', hsome⟩
      . left
        rw [hmerge, hnone]
        refine ⟨rfl, ?_⟩
        intro r' hr'
        rcases List.mem_cons.mp hr' with rfl | hr'
        . exact hid
        . exact hall r' hr'
      . right
        refine ⟨r :: front, r', back, rfl, ?_, hr', ?_⟩
        . intro r'' hr''
          rcases List.mem_cons.mp hr'' with rfl | hr''
          . exact hid
          . exact hfront r'' hr''
        . rw [hmerge, hsome]
          rfl

theorem id_merged {keys : List String} {r record : DbRecord} (h : id keys r = id keys record)
    : id keys (merged r record) = id keys record := by
  unfold merged
  split
  . rfl
  . exact h

def mergeFirst : Option DbRecord → List DbRecord → List DbRecord
  | some record, r :: records => merged r record :: records
  | some _, [] => []
  | none, records => records

theorem mergeAll_eq {keys : List String} {moduleRecords : List DbRecord}
    (hkeys : ∀ record ∈ moduleRecords, HasKeys keys record.data)
    (hnodup : (moduleRecords.map (id keys)).Nodup) (records moduleOnlys : List DbRecord)
    : ∃ records',
        mergeAll keys records moduleOnlys moduleRecords = .ok (records',
          moduleOnlys ++ moduleRecords.filter fun record => id keys record ∉ records.map (id keys))
        ∧ records'.map (id keys) = records.map (id keys)
        ∧ (∀ i, (records'.filter fun r => id keys r = i)
            = mergeFirst (moduleRecords.find? fun record => id keys record = i)
              (records.filter fun r => id keys r = i))
        ∧ ∀ r ∈ records', r ∈ records ∨ ∃ record ∈ moduleRecords, r = ⟨record.key, .new, record.data⟩ := by
  induction moduleRecords generalizing records moduleOnlys with
  | nil => exact ⟨records, by simp [mergeAll], rfl, fun i => rfl, fun r hr => .inl hr⟩
  | cons record moduleRecords ih =>
    have hrest : ∀ record ∈ moduleRecords, HasKeys keys record.data := fun r hr =>
      hkeys r (by simp [hr])
    rw [List.map_cons, List.nodup_cons] at hnodup
    obtain ⟨hnotin, hnodup⟩ := hnodup
    have hfind : moduleRecords.find? (fun r => id keys r = id keys record) = none := by
      apply List.find?_eq_none.mpr
      intro r hr
      have : id keys r ≠ id keys record := fun h => hnotin (List.mem_map.mpr ⟨r, hr, h⟩)
      simpa using this
    rcases merge_cases (hkeys record (by simp)) records with
      ⟨hmerge, hnone⟩ | ⟨front, r, back, rfl, hfront, hr, hmerge⟩
    . obtain ⟨records', heq, hids, hfibers, hmem⟩ := ih hrest hnodup records (moduleOnlys ++ [record])
      refine ⟨records', ?_, hids, ?_, ?_⟩
      . have hnew : id keys record ∉ records.map (id keys) := by
          intro h
          obtain ⟨r, hr, hid⟩ := List.mem_map.mp h
          exact hnone r hr hid
        simp only [mergeAll, hmerge, heq]
        rw [List.filter_cons_of_pos (by simpa using hnew)]
        simp
      . intro i
        rw [hfibers]
        by_cases hi : id keys record = i
        . have hempty : (records.filter fun r => id keys r = i) = [] := by
            apply List.filter_eq_nil_iff.mpr
            intro r hr
            simpa [← hi] using hnone r hr
          subst hi
          rw [hfind, hempty, List.find?_cons_of_pos (by simp)]
          rfl
        . rw [List.find?_cons_of_neg (by simpa using hi)]
      . intro r' hr'
        rcases hmem r' hr' with h | ⟨record', h, rfl⟩
        . exact .inl h
        . exact .inr ⟨record', by simp [h], rfl⟩
    . have hmergedId := id_merged hr
      have hmapEq : (front ++ merged r record :: back).map (id keys)
          = (front ++ r :: back).map (id keys) := by
        simp [hmergedId, hr]
      obtain ⟨records', heq, hids, hfibers, hmem⟩ := ih hrest hnodup (front ++ merged r record :: back)
        moduleOnlys
      rw [hmapEq] at heq hids
      refine ⟨records', ?_, hids, ?_, ?_⟩
      . simp only [mergeAll, hmerge, heq]
        rw [List.filter_cons_of_neg]
        simp [← hr]
      . intro i
        rw [hfibers]
        by_cases hi : id keys record = i
        . subst hi
          have hempty : (front.filter fun r' => id keys r' = id keys record) = [] := by
            apply List.filter_eq_nil_iff.mpr
            intro r' hr'
            simpa using hfront r' hr'
          rw [hfind, List.find?_cons_of_pos (by simp), List.filter_append, List.filter_append, hempty,
            List.filter_cons_of_pos (by simpa using hmergedId), List.filter_cons_of_pos (by simpa using hr)]
          rfl
        . rw [List.find?_cons_of_neg (by simpa using hi), List.filter_append, List.filter_append,
            List.filter_cons_of_neg (by rw [hmergedId]; simpa using hi),
            List.filter_cons_of_neg (by rw [hr]; simpa using hi)]
      . intro r' hr'
        rcases hmem r' hr' with h | ⟨record', h, rfl⟩
        . rw [List.mem_append, List.mem_cons] at h
          rcases h with h | rfl | h
          . exact .inl (by simp [h])
          . unfold merged
            split
            . exact .inr ⟨record, by simp, rfl⟩
            . exact .inl (by simp)
          . exact .inl (by simp [h])
        . exact .inr ⟨record', by simp [h], rfl⟩

theorem anySame_eq {keys : List String} {moduleRecords : List DbRecord}
    (hkeys : ∀ record ∈ moduleRecords, HasKeys keys record.data) (r : DbRecord)
    : anySame keys r moduleRecords = some (decide (id keys r ∈ moduleRecords.map (id keys))) := by
  induction moduleRecords with
  | nil => rfl
  | cons record moduleRecords ih =>
    have hsame := sameRecord_eq r.data (hkeys record (by simp))
    specialize ih (fun r hr => hkeys r (by simp [hr]))
    by_cases hid : id keys r = id keys record
    . have hid' : rowKey keys record.data = rowKey keys r.data := hid.symm
      simp [anySame, hsame, hid', hid]
    . have hid' : rowKey keys record.data ≠ rowKey keys r.data := fun h => hid h.symm
      simp [anySame, hsame, hid', hid, ih]

def mark (keys : List String) (moduleRecords : List DbRecord) (r : DbRecord) : DbRecord :=
  if id keys r ∈ moduleRecords.map (id keys) then r else { r with stat := .delete }

@[simp]
theorem id_mark {keys : List String} {moduleRecords : List DbRecord} {r : DbRecord}
    : id keys (mark keys moduleRecords r) = id keys r := by
  unfold mark
  split <;> rfl

theorem markDeletes_eq {keys : List String} {moduleRecords : List DbRecord}
    (hkeys : ∀ record ∈ moduleRecords, HasKeys keys record.data) (records : List DbRecord)
    : markDeletes keys moduleRecords records = .ok (records.map (mark keys moduleRecords)) := by
  induction records with
  | nil => rfl
  | cons r records ih =>
    simp only [markDeletes, anySame_eq hkeys, ih, List.map_cons]
    unfold mark
    simp

def added (row : MapObject) : DbRecord := { ofData row with stat := .new }

@[simp]
theorem id_ofData {keys : List String} {row : MapObject}
    : id keys (ofData row) = rowKey keys row := rfl

@[simp]
theorem id_added {keys : List String} {row : MapObject} : id keys (added row) = rowKey keys row :=
  rfl

def updatedFiber : Option MapObject → List DbRecord → List DbRecord
  | some row, [] => [added row]
  | some row, r :: records => merged r (ofData row) :: records
  | none, records => records.map fun r => { r with stat := .delete }

theorem find?_ofData {keys : List String} {i : List KeyValue} (rows : List MapObject)
    : (rows.map ofData).find? (fun record => id keys record = i)
        = (rows.find? fun row => rowKey keys row = i).map ofData := by
  rw [List.find?_map]
  rfl

theorem ids_ofData {keys : List String} (rows : List MapObject)
    : (rows.map ofData).map (id keys) = rows.map (rowKey keys) := by
  rw [List.map_map]
  rfl

theorem fiber_mark {keys : List String} {rows : List MapObject} (records : List DbRecord)
    (i : List KeyValue)
    : ((records.map (mark keys (rows.map ofData))).filter fun r => id keys r = i)
        = if i ∈ rows.map (rowKey keys) then
            records.filter fun r => id keys r = i
          else
            (records.filter fun r => id keys r = i).map fun r => { r with stat := .delete } := by
  have hfilter : (fun r => decide (id keys r = i)) ∘ mark keys (rows.map ofData)
      = fun r => decide (id keys r = i) := by
    funext r
    simp
  have hmark : ∀ r ∈ records.filter (fun r => decide (id keys r = i)),
      mark keys (rows.map ofData) r
        = if i ∈ rows.map (rowKey keys) then r else { r with stat := .delete } := by
    intro r hr
    have hid : id keys r = i := by simpa using (List.mem_filter.mp hr).2
    unfold mark
    rw [ids_ofData, hid]
  rw [List.filter_map, hfilter, List.map_congr_left hmark]
  split
  . exact List.map_id' _
  . rfl

theorem fiber_added {keys : List String} {rows : List MapObject}
    (hnodup : (rows.map (rowKey keys)).Nodup) (ids : List (List KeyValue)) (i : List KeyValue)
    : (((rows.filter fun row => decide (rowKey keys row ∉ ids)).map added).filter fun r => id keys r = i)
        = if i ∈ ids then [] else (rows.find? fun row => rowKey keys row = i).toList.map added := by
  rw [List.filter_map, List.filter_filter]
  split
  . next hi =>
    apply List.map_eq_nil_iff.mpr
    apply List.filter_eq_nil_iff.mpr
    intro row _ hc
    simp only [Function.comp_apply, id_added, Bool.and_eq_true, decide_eq_true_eq] at hc
    have hrow : rowKey keys row = i := of_decide_eq_true hc.1
    rw [← hrow] at hi
    exact hc.2 hi
  . next hi =>
    rw [← filter_rowKey hnodup]
    congr 1
    apply List.filter_congr
    intro row _
    by_cases hrow : rowKey keys row = i
    . simp only [Function.comp_apply, id_added, hrow, hi]
      simp
    . simp [hrow]

theorem filter_eq_nil_iff {keys : List String} {records : List DbRecord} {i : List KeyValue}
    : (records.filter fun r => id keys r = i) = [] ↔ i ∉ records.map (id keys) := by
  rw [List.filter_eq_nil_iff]
  simp

theorem update_eq {keys : List String} {rows : List MapObject}
    (hkeys : ∀ row ∈ rows, HasKeys keys row) (hnodup : (rows.map (rowKey keys)).Nodup)
    (records : List DbRecord)
    : ∃ records', update records (some rows) keys false = .ok records'
        ∧ records'.map (id keys) = records.map (id keys)
          ++ (rows.map (rowKey keys)).filter (fun i => decide (i ∉ records.map (id keys)))
        ∧ (∀ i, (records'.filter fun r => id keys r = i)
            = updatedFiber (rows.find? fun row => rowKey keys row = i)
              (records.filter fun r => id keys r = i))
        ∧ ∀ r ∈ records', (∃ row ∈ rows, r = added row)
          ∨ (r ∈ records ∧ id keys r ∈ rows.map (rowKey keys))
          ∨ ∃ r₀ ∈ records, r = { r₀ with stat := .delete } := by
  have hkeys' : ∀ record ∈ rows.map ofData, HasKeys keys record.data := by
    intro record hrecord
    obtain ⟨row, hrow, rfl⟩ := List.mem_map.mp hrecord
    exact hkeys row hrow
  obtain ⟨records₁, hmerge, hids₁, hfibers, hmem⟩ :=
    mergeAll_eq hkeys' (ids_ofData rows ▸ hnodup) records []
  have honlys : (((rows.map ofData).filter fun record =>
        decide (id keys record ∉ records.map (id keys))).map fun record =>
          { record with stat := .new })
      = (rows.filter fun row => decide (rowKey keys row ∉ records.map (id keys))).map added := by
    rw [List.filter_map, List.map_map]
    rfl
  refine ⟨records₁.map (mark keys (rows.map ofData))
    ++ (rows.filter fun row => decide (rowKey keys row ∉ records.map (id keys))).map added,
    ?_, ?_, ?_, ?_⟩
  . simp only [update, hmerge, markDeletes_eq hkeys', ← honlys]
    rfl
  . rw [List.map_append, List.map_map, List.map_map, List.filter_map, ← hids₁]
    congr 1
    apply List.map_congr_left
    intro r _
    exact id_mark
  . intro i
    rw [List.filter_append, fiber_mark, fiber_added hnodup, hfibers, find?_ofData]
    have hfind : (rows.find? fun row => rowKey keys row = i).isSome ↔ i ∈ rows.map (rowKey keys) := by
      simp
    cases hrow : rows.find? (fun row => decide (rowKey keys row = i)) with
    | none =>
      have hi : i ∉ rows.map (rowKey keys) := by simpa [hrow] using hfind
      rw [if_neg hi]
      simp [mergeFirst, updatedFiber]
    | some row =>
      have hi : i ∈ rows.map (rowKey keys) := by simpa [hrow] using hfind
      rw [if_pos hi]
      cases hrecords : records.filter (fun r => decide (id keys r = i)) with
      | nil =>
        rw [if_neg (filter_eq_nil_iff.mp hrecords)]
        rfl
      | cons r rest =>
        have hin : i ∈ records.map (id keys) := by
          by_contra hc
          simp [filter_eq_nil_iff.mpr hc] at hrecords
        rw [if_pos hin, List.append_nil]
        rfl
  . intro r hr
    rcases List.mem_append.mp hr with hr | hr
    . obtain ⟨r₁, hr₁, rfl⟩ := List.mem_map.mp hr
      unfold mark
      rw [ids_ofData]
      rcases hmem r₁ hr₁ with hold | ⟨record, hrecord, rfl⟩
      . split
        . next hid => exact .inr (.inl ⟨hold, hid⟩)
        . exact .inr (.inr ⟨r₁, hold, rfl⟩)
      . obtain ⟨row, hrow, rfl⟩ := List.mem_map.mp hrecord
        have hid : rowKey keys row ∈ rows.map (rowKey keys) := List.mem_map_of_mem hrow
        left
        refine ⟨row, hrow, ?_⟩
        exact if_pos hid
    . obtain ⟨row, hrow, rfl⟩ := List.mem_map.mp hr
      exact .inl ⟨row, (List.mem_filter.mp hrow).1, rfl⟩

section lists

variable {records : List DbRecord}

theorem mem_updates {row : MapObject}
    : row ∈ updates records ↔ ∃ r ∈ records, r.stat = .new ∧ r.data = row := by
  simp [updates, and_assoc]

theorem mem_deletes {row : MapObject}
    : row ∈ deletes records ↔ ∃ r ∈ records, r.stat = .delete ∧ r.data = row := by
  simp [deletes, and_assoc]

theorem mem_view {row : MapObject}
    : row ∈ view records ↔ ∃ r ∈ records, r.stat ≠ .delete ∧ r.data = row := by
  simp [view, and_assoc]

theorem mem_saved {r : DbRecord}
    : r ∈ saved records ↔ ∃ r₀ ∈ records, r₀.stat ≠ .delete ∧ { r₀ with stat := .valid } = r := by
  simp [saved, and_assoc]

theorem view_saved : view (saved records) = view records := by
  unfold view saved
  rw [List.filter_map, List.map_map]
  have hfilter : ((fun r : DbRecord => decide (r.stat ≠ .delete))
      ∘ fun r : DbRecord => { r with stat := .valid }) = fun _ => true := by
    funext r
    simp
  rw [hfilter, List.filter_true]
  rfl

end lists

end DbRecord

end WzGame
