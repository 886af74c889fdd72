import WzGame.Util.KeyedList
import WzGame.Database.DBUtil

/-!
This module contains the effect of the batches on the rows of one character.
-/

namespace WzGame

open KeyedList

namespace DBUtil

variable [SqlServer] {keys : List String} {col : String} {char_id : Value} {d row : MapObject}

def sqlKey (keys : List String) (row : MapObject) : List (Option SqlServer.Key) :=
  keys.map fun key => SqlServer.columnKey (row.get key)

def owns (col : String) (char_id : Value) (row : MapObject) : Bool := sqlEq (row.get col) char_id

theorem sqlEq_of_ne_null {v w : Value} (hw : w ≠ .null)
    : sqlEq v w = decide (SqlServer.columnKey v = SqlServer.columnKey w) := by
  have hkey : SqlServer.columnKey w ≠ none := fun h => hw ((SqlServer.columnKey_eq_none w).mp h)
  unfold sqlEq
  cases hv : SqlServer.columnKey v <;> cases hw' : SqlServer.columnKey w <;> simp_all

omit [SqlServer] in
theorem mem_of_get_ne_null {key : String} (h : d.get key ≠ .null) : key ∈ d := by
  by_contra hc
  apply h
  unfold MapObject.get
  rw [Finmap.lookup_eq_none.mpr hc]
  rfl

theorem whereFields_eq (hkeys : ∀ key ∈ keys, d.get key ≠ .null)
    : whereFields keys d = fun row => decide (sqlKey keys row = sqlKey keys d) := by
  funext row
  unfold whereFields sqlKey
  induction keys with
  | nil => rfl
  | cons key keys ih =>
    have hkey := hkeys key (by simp)
    have hmem := mem_of_get_ne_null hkey
    rw [List.all_cons, ih (fun key' h => hkeys key' (by simp [h])), sqlEq_of_ne_null hkey]
    simp [hmem]

theorem all_sqlEq_eq (hkeys : ∀ key ∈ keys, d.get key ≠ .null) (row : MapObject)
    : (keys.all fun key => sqlEq (row.get key) (d.get key))
        = decide (sqlKey keys row = sqlKey keys d) := by
  unfold sqlKey
  induction keys with
  | nil => rfl
  | cons key keys ih =>
    rw [List.all_cons, ih (fun key' h => hkeys key' (by simp [h])),
      sqlEq_of_ne_null (hkeys key (by simp))]
    simp

theorem owns_of_sqlKey_eq (hcol : col ∈ keys) (h : sqlKey keys row = sqlKey keys d)
    : owns col char_id row = owns col char_id d := by
  have hkey := List.map_inj_left.mp h col hcol
  unfold owns sqlEq
  rw [hkey]

omit [SqlServer] in
theorem union_eq_left (hcols : row.keys ⊆ d.keys) : d ∪ row = d := by
  apply Finmap.ext_lookup
  intro key
  by_cases hd : key ∈ d
  . exact Finmap.lookup_union_left hd
  . have hrow : key ∉ row := fun h => hd (Finmap.mem_keys.mp (hcols (Finmap.mem_keys.mpr h)))
    rw [Finmap.lookup_union_right hd, Finmap.lookup_eq_none.mpr hd, Finmap.lookup_eq_none.mpr hrow]

omit [SqlServer] in
theorem get_union {key : String} (hkey : d.get key ≠ .null) : (d ∪ row).get key = d.get key := by
  unfold MapObject.get
  rw [Finmap.lookup_union_left (mem_of_get_ne_null hkey)]

section batch

variable (hcol : col ∈ keys) (hkeys : ∀ key ∈ keys, d.get key ≠ .null)
  (hd : owns col char_id d = true)
include hcol hkeys hd

theorem filter_insertOrUpdate {rows : List MapObject}
    (hcols : ∀ row ∈ rows, owns col char_id row = true → row.keys ⊆ d.keys)
    : (insertOrUpdate keys rows d).filter (owns col char_id)
        = upsert (sqlKey keys) (rows.filter (owns col char_id)) d := by
  have howns : ∀ row : MapObject, sqlKey keys row = sqlKey keys d → owns col char_id row = true := by
    intro row h
    rw [owns_of_sqlKey_eq hcol h, hd]
  have hany : ((rows.filter (owns col char_id)).any fun row => sqlKey keys row = sqlKey keys d)
      = rows.any fun row => sqlKey keys row = sqlKey keys d := by
    rw [List.any_filter]
    congr 1
    funext row
    by_cases h : sqlKey keys row = sqlKey keys d
    . simp [h, howns row h]
    . simp [h]
  unfold insertOrUpdate upsert
  simp only [whereFields_eq hkeys, hany, decide_eq_true_eq]
  split
  . rw [List.filter_map]
    have hfilter : (owns col char_id) ∘ (fun row => if sqlKey keys row = sqlKey keys d then d ∪ row else row)
        = owns col char_id := by
      funext row
      simp only [Function.comp_apply]
      split
      . next h =>
        rw [howns row h]
        unfold owns
        rw [get_union (hkeys col hcol)]
        exact hd
      . rfl
    rw [hfilter]
    apply List.map_congr_left
    intro row hrow
    obtain ⟨hrow, howned⟩ := List.mem_filter.mp hrow
    rw [union_eq_left (hcols row hrow howned)]
  . rw [List.filter_append]
    simp [hd]

theorem filter_not_insertOrUpdate (rows : List MapObject)
    : (insertOrUpdate keys rows d).filter (fun row => !owns col char_id row)
        = rows.filter (fun row => !owns col char_id row) := by
  unfold insertOrUpdate
  simp only [whereFields_eq hkeys, decide_eq_true_eq]
  split
  . rw [List.filter_map]
    have hfilter : (fun row => !owns col char_id row)
          ∘ (fun row => if sqlKey keys row = sqlKey keys d then d ∪ row else row)
        = fun row => !owns col char_id row := by
      funext row
      simp only [Function.comp_apply]
      split
      . next h =>
        rw [owns_of_sqlKey_eq hcol h]
        unfold owns
        rw [get_union (hkeys col hcol)]
      . rfl
    rw [hfilter]
    apply List.map_congr_left (g := fun row => row) ?_ |>.trans (List.map_id' _)
    intro row hrow
    apply if_neg
    intro h
    have howned := (List.mem_filter.mp hrow).2
    rw [owns_of_sqlKey_eq hcol h, hd] at howned
    contradiction
  . rw [List.filter_append]
    simp [hd]

omit hd in
theorem filter_deleteRow (rows : List MapObject)
    : (deleteRow keys rows d).filter (owns col char_id)
        = remove (sqlKey keys) (rows.filter (owns col char_id)) d := by
  have hsize : d.size ≠ 0 := by
    have hmem := Finmap.mem_keys.mpr (mem_of_get_ne_null (hkeys col hcol))
    exact Finset.card_ne_zero_of_mem hmem
  unfold deleteRow remove
  rw [if_neg hsize, List.filter_filter, List.filter_filter]
  apply List.filter_congr
  intro row _
  rw [all_sqlEq_eq hkeys, Bool.and_comm]
  simp

theorem filter_not_deleteRow (rows : List MapObject)
    : (deleteRow keys rows d).filter (fun row => !owns col char_id row)
        = rows.filter (fun row => !owns col char_id row) := by
  have hsize : d.size ≠ 0 := by
    have hmem := Finmap.mem_keys.mpr (mem_of_get_ne_null (hkeys col hcol))
    exact Finset.card_ne_zero_of_mem hmem
  unfold deleteRow
  rw [if_neg hsize, List.filter_filter]
  apply List.filter_congr
  intro row _
  rw [all_sqlEq_eq hkeys]
  by_cases h : sqlKey keys row = sqlKey keys d
  . simp [h, owns_of_sqlKey_eq hcol h, hd]
  . simp [h]

end batch

structure Fits (columns : Finset String) (keys : List String) (col : String) (char_id : Value)
    (row : MapObject) : Prop where
  columns : row.keys = columns
  keys : ∀ key ∈ keys, row.get key ≠ .null
  owned : owns col char_id row = true

section character

variable {columns : Finset String} (hcol : col ∈ keys)
include hcol

theorem filter_foldl_insertOrUpdate {ds rows : List MapObject}
    (hds : ∀ d ∈ ds, Fits columns keys col char_id d)
    (hrows : ∀ row ∈ rows.filter (owns col char_id), Fits columns keys col char_id row)
    : (ds.foldl (insertOrUpdate keys) rows).filter (owns col char_id)
          = ds.foldl (upsert (sqlKey keys)) (rows.filter (owns col char_id))
        ∧ (ds.foldl (insertOrUpdate keys) rows).filter (fun row => !owns col char_id row)
          = rows.filter (fun row => !owns col char_id row) := by
  induction ds generalizing rows with
  | nil => exact ⟨rfl, rfl⟩
  | cons d ds ih =>
    have hd := hds d (by simp)
    have hcols : ∀ row ∈ rows, owns col char_id row = true → row.keys ⊆ d.keys := by
      intro row hrow howned
      rw [(hrows row (List.mem_filter.mpr ⟨hrow, howned⟩)).columns, hd.columns]
    have hfilter := filter_insertOrUpdate hcol hd.keys hd.owned hcols
    have hrows' : ∀ row ∈ (insertOrUpdate keys rows d).filter (owns col char_id),
        Fits columns keys col char_id row := by
      intro row hrow
      rw [hfilter, mem_upsert] at hrow
      rcases hrow with ⟨hrow, -⟩ | rfl
      . exact hrows row hrow
      . exact hd
    obtain ⟨h, hnot⟩ := ih (fun d' h => hds d' (by simp [h])) hrows'
    simp only [List.foldl_cons]
    rw [h, hnot, hfilter, filter_not_insertOrUpdate hcol hd.keys hd.owned]
    exact ⟨rfl, rfl⟩

theorem filter_foldl_deleteRow {ds rows : List MapObject}
    (hds : ∀ d ∈ ds, Fits columns keys col char_id d)
    : (ds.foldl (deleteRow keys) rows).filter (owns col char_id)
          = ds.foldl (remove (sqlKey keys)) (rows.filter (owns col char_id))
        ∧ (ds.foldl (deleteRow keys) rows).filter (fun row => !owns col char_id row)
          = rows.filter (fun row => !owns col char_id row) := by
  induction ds generalizing rows with
  | nil => exact ⟨rfl, rfl⟩
  | cons d ds ih =>
    have hd := hds d (by simp)
    have hrest : ∀ d' ∈ ds, Fits columns keys col char_id d' := fun d' h => hds d' (by simp [h])
    obtain ⟨h, hnot⟩ := @ih (deleteRow keys rows d) hrest
    simp only [List.foldl_cons]
    rw [h, hnot, filter_deleteRow hcol hd.keys, filter_not_deleteRow hcol hd.keys hd.owned]
    exact ⟨rfl, rfl⟩

theorem batchInsertOrUpdate_eq {db db' : Database} {table : String} {ds : List MapObject}
    {succeeds : Bool} (hds : ∀ d ∈ ds, Fits columns keys col char_id d)
    (hrows : ∀ row ∈ (db table).filter (owns col char_id), Fits columns keys col char_id row)
    (h : batchInsertOrUpdate db table keys ds succeeds = some db')
    : (db' table).filter (owns col char_id)
          = ds.foldl (upsert (sqlKey keys)) ((db table).filter (owns col char_id))
        ∧ (db' table).filter (fun row => !owns col char_id row)
          = (db table).filter (fun row => !owns col char_id row)
        ∧ ∀ table' ≠ table, db' table' = db table' := by
  unfold batchInsertOrUpdate at h
  split at h
  . next hempty =>
    obtain rfl := Option.some.inj h
    simp [hempty]
  . split at h
    . obtain rfl := Option.some.inj h
      obtain ⟨howned, hnot⟩ := filter_foldl_insertOrUpdate hcol hds hrows
      simp only [Function.update_self]
      exact ⟨howned, hnot, fun table' hne => Function.update_of_ne hne _ _⟩
    . contradiction

theorem batchDelete_eq {db db' : Database} {table : String} {ds : List MapObject}
    {succeeds : Bool} (hds : ∀ d ∈ ds, Fits columns keys col char_id d)
    (h : batchDelete db table keys ds succeeds = some db')
    : (db' table).filter (owns col char_id)
          = ds.foldl (remove (sqlKey keys)) ((db table).filter (owns col char_id))
        ∧ (db' table).filter (fun row => !owns col char_id row)
          = (db table).filter (fun row => !owns col char_id row)
        ∧ ∀ table' ≠ table, db' table' = db table' := by
  have hne : keys ≠ [] := List.ne_nil_of_mem hcol
  simp only [batchDelete, hne, if_false] at h
  split at h
  . obtain rfl := Option.some.inj h
    obtain ⟨howned, hnot⟩ := @filter_foldl_deleteRow _ keys col char_id columns hcol ds (db table) hds
    simp only [Function.update_self]
    exact ⟨howned, hnot, fun table' hne => Function.update_of_ne hne _ _⟩
  . contradiction

end character

end DBUtil

namespace DataQueryResult

open DBUtil

variable [SqlServer] {db : Database} {table col : String} {value : Value} {rows : List MapObject}

theorem load_success
    : load db table col value .success = some ((db table).filter (owns col value)) := rfl

theorem load_sublist {outcome : QueryOutcome} (h : load db table col value outcome = some rows)
    : rows.Sublist ((db table).filter (owns col value)) := by
  cases outcome with
  | success =>
    rw [load_success] at h
    obtain rfl := Option.some.inj h
    exact List.Sublist.refl _
  | sqlException read =>
    obtain rfl : ((db table).filter (owns col value)).take read = rows := Option.some.inj h
    exact List.take_sublist _ _
  | exception => contradiction

end DataQueryResult

end WzGame
