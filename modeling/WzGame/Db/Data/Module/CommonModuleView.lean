import WzGame.Db.Data.DbRecordLemmas
import WzGame.Db.Data.Module.CommonModule

/-!
This module contains when the view of a module is what the last update supplied.
-/

namespace WzGame

open MapObject

namespace DbRecord

variable [DataUtil]

def Keyed (records : List DbRecord) : Prop := ∀ r ∈ records, r.key = DataUtil.crc32 r.data

theorem keyed_append {xs ys : List DbRecord} (hx : Keyed xs) (hy : Keyed ys)
    : Keyed (xs ++ ys) := by
  intro r hr
  rcases List.mem_append.mp hr with h | h
  . exact hx r h
  . exact hy r h

theorem keyed_cons {r : DbRecord} {records : List DbRecord}
    : Keyed (r :: records) ↔ r.key = DataUtil.crc32 r.data ∧ Keyed records := by
  simp [Keyed]

theorem keyed_ofData (rows : List MapObject) : Keyed (rows.map ofData) := by
  intro r hr
  obtain ⟨row, -, rfl⟩ := List.mem_map.mp hr
  rfl

theorem keyed_saved {records : List DbRecord} (h : Keyed records) : Keyed (saved records) := by
  intro r hr
  obtain ⟨r₀, hr₀, rfl⟩ := List.mem_map.mp hr
  exact h r₀ (List.mem_filter.mp hr₀).1

theorem merge_keyed {keys : List String} {record : DbRecord} {records records' : List DbRecord}
    (hrecord : record.key = DataUtil.crc32 record.data) (h : Keyed records)
    (hres : merge keys record records = some (some records'))
    : Keyed records' := by
  induction records generalizing records' with
  | nil => simp [merge] at hres
  | cons r records ih =>
    rw [keyed_cons] at h
    unfold merge at hres
    split at hres
    . contradiction
    . split at hres <;> simp only [Option.some.injEq] at hres <;> subst hres
      . exact keyed_cons.mpr ⟨hrecord, h.2⟩
      . exact keyed_cons.mpr h
    . cases hrest : merge keys record records with
      | none => simp [hrest] at hres
      | some o =>
        cases o with
        | none => simp [hrest] at hres
        | some rest =>
          obtain rfl : r :: rest = records' := by simpa [hrest] using hres
          exact keyed_cons.mpr ⟨h.1, ih h.2 hrest⟩

theorem mergeAll_keyed {keys : List String} {records onlys moduleRecords : List DbRecord}
    (hrows : Keyed moduleRecords) (h : Keyed records) (honlys : Keyed onlys)
    : (∀ e, mergeAll keys records onlys moduleRecords = .error e → Keyed e)
        ∧ ∀ p, mergeAll keys records onlys moduleRecords = .ok p → Keyed p.1 ∧ Keyed p.2 := by
  induction moduleRecords generalizing records onlys with
  | nil =>
    refine ⟨by simp [mergeAll], ?_⟩
    intro p hp
    obtain rfl : (records, onlys) = p := Except.ok.inj hp
    exact ⟨h, honlys⟩
  | cons record moduleRecords ih =>
    rw [keyed_cons] at hrows
    have hres : Keyed [record] := keyed_cons.mpr ⟨hrows.1, by simp [Keyed]⟩
    cases hmerge : merge keys record records with
    | none =>
      simp only [mergeAll, hmerge]
      exact ⟨fun e he => Except.error.inj he ▸ h, by simp⟩
    | some o =>
      cases o with
      | none =>
        simp only [mergeAll, hmerge]
        exact ih hrows.2 h (keyed_append honlys hres)
      | some records' =>
        simp only [mergeAll, hmerge]
        exact ih hrows.2 (merge_keyed hrows.1 h hmerge) honlys

theorem markDeletes_keyed {keys : List String} {moduleRecords records e : List DbRecord}
    (h : Keyed records)
    (hres : markDeletes keys moduleRecords records = .ok e
      ∨ markDeletes keys moduleRecords records = .error e)
    : Keyed e := by
  induction records generalizing e with
  | nil =>
    obtain rfl : e = [] := by simpa [markDeletes, eq_comm] using hres
    exact h
  | cons r records ih =>
    rw [keyed_cons] at h
    cases hsame : anySame keys r moduleRecords with
    | none =>
      obtain rfl : e = r :: records := by simpa [markDeletes, hsame, eq_comm] using hres
      exact keyed_cons.mpr h
    | some found =>
      have hr : (if found = true then r else { r with stat := .delete }).key
          = DataUtil.crc32 (if found = true then r else { r with stat := .delete }).data := by
        split <;> exact h.1
      cases hrest : markDeletes keys moduleRecords records with
      | ok rest =>
        obtain rfl : e = (if found = true then r else { r with stat := .delete }) :: rest := by
          simpa [markDeletes, hsame, hrest, eq_comm] using hres
        exact keyed_cons.mpr ⟨hr, ih h.2 (.inl hrest)⟩
      | error rest =>
        obtain rfl : e = (if found = true then r else { r with stat := .delete }) :: rest := by
          simpa [markDeletes, hsame, hrest, eq_comm] using hres
        exact keyed_cons.mpr ⟨hr, ih h.2 (.inr hrest)⟩

theorem update_some (records : List DbRecord) (rows : List MapObject) (keys : List String)
    (desableDelete : Bool)
    : update records (some rows) keys desableDelete
        = match mergeAll keys records [] (rows.map ofData) with
          | .error e => .error e
          | .ok p =>
            match if desableDelete then .ok p.1 else markDeletes keys (rows.map ofData) p.1 with
            | .error e => .error e
            | .ok records' => .ok (records' ++ p.2.map fun record => { record with stat := .new }) := by
  cases hall : mergeAll keys records [] (rows.map ofData) with
  | error e =>
    simp only [update, hall]
    rfl
  | ok p =>
    simp only [update, hall]
    cases desableDelete with
    | true => rfl
    | false =>
      cases hdel : markDeletes keys (rows.map ofData) p.1 with
      | error e =>
        simp only [bind, Except.bind, hdel]
        rfl
      | ok records' =>
        simp only [bind, Except.bind, hdel]
        rfl

theorem update_keyed {keys : List String} {records e : List DbRecord}
    {rows : Option (List MapObject)} {desableDelete : Bool} (h : Keyed records)
    (hres : update records rows keys desableDelete = .ok e
      ∨ update records rows keys desableDelete = .error e)
    : Keyed e := by
  cases rows with
  | none =>
    obtain rfl : e = records := by simpa [update, eq_comm] using hres
    exact h
  | some rows =>
    have honlys : Keyed ([] : List DbRecord) := by simp [Keyed]
    obtain ⟨herror, hok⟩ := @mergeAll_keyed _ keys _ _ _ (keyed_ofData rows) h honlys
    cases hall : mergeAll keys records [] (rows.map ofData) with
    | error records' =>
      obtain rfl : e = records' := by simpa [update_some, hall, eq_comm] using hres
      exact herror e hall
    | ok p =>
      obtain ⟨hrecords, honlys⟩ := hok p hall
      have hnew : Keyed (p.2.map fun record => { record with stat := .new }) := by
        intro r hr
        obtain ⟨record, hrecord, rfl⟩ := List.mem_map.mp hr
        exact honlys record hrecord
      cases desableDelete with
      | true =>
        obtain rfl : e = p.1 ++ p.2.map fun record => { record with stat := .new } := by
          simpa [update_some, hall, eq_comm] using hres
        exact keyed_append hrecords hnew
      | false =>
        cases hdel : markDeletes keys (rows.map ofData) p.1 with
        | error records' =>
          obtain rfl : e = records' := by simpa [update_some, hall, hdel, eq_comm] using hres
          exact markDeletes_keyed hrecords (.inr hdel)
        | ok records' =>
          obtain rfl : e = records' ++ p.2.map fun record => { record with stat := .new } := by
            simpa [update_some, hall, hdel, eq_comm] using hres
          exact keyed_append (markDeletes_keyed hrecords (.inl hdel)) hnew

def Distinct (keys : List String) (rows : List MapObject) : Prop :=
  rows.Pairwise fun row row' => sameRecord row row' keys = some false

omit [DataUtil] in
theorem distinct_nodup {keys : List String} {rows : List MapObject}
    (hkeys : ∀ row ∈ rows, HasKeys keys row)
    : Distinct keys rows ↔ (rows.map (rowKey keys)).Nodup := by
  unfold Distinct List.Nodup
  rw [List.pairwise_map]
  apply List.Pairwise.iff_of_mem
  intro row row' hrow _
  rw [sameRecord_eq row' (hkeys row hrow)]
  simp

/--
Of the records of a supplied row only the first one is looked at. It shows the row, unless it is
marked for deletion and holds the row already; the ones behind it show what they did before.
-/
def ShowsOnce (keys : List String) (records : List DbRecord) (rows : List MapObject) : Prop :=
  ∀ row ∈ rows, ∀ r later,
    (records.filter fun r => sameRecord row r.data keys = some true) = r :: later
      → view later = if r.stat = .delete ∧ r.data = row then [row] else []

theorem view_append (xs ys : List DbRecord) : view (xs ++ ys) = view xs ++ view ys := by
  simp [view]

theorem view_map_ofData (rows : List MapObject) : view (rows.map ofData) = rows := by
  induction rows with
  | nil => rfl
  | cons row rows ih =>
    rw [List.map_cons]
    show view ([ofData row] ++ rows.map ofData) = _
    rw [view_append, ih]
    rfl

theorem filter_view {keys : List String} (records : List DbRecord) (i : List KeyValue)
    : ((view records).filter fun row => rowKey keys row = i)
        = view (records.filter fun r => id keys r = i) := by
  unfold view
  rw [List.filter_map, List.filter_filter, List.filter_filter]
  congr 1
  apply List.filter_congr
  intro r _
  exact Bool.and_comm _ _

omit [DataUtil] in
theorem perm_iff_filter (keys : List String) (xs ys : List MapObject)
    : xs.Perm ys ↔ ∀ i, (xs.filter fun row => rowKey keys row = i).Perm
        (ys.filter fun row => rowKey keys row = i) := by
  constructor
  . intro h i
    exact h.filter _
  . intro h
    apply List.perm_iff_count.mpr
    intro row
    have hcount := (h (rowKey keys row)).count_eq row
    rwa [List.count_filter (by simp), List.count_filter (by simp)] at hcount

theorem view_delete (records : List DbRecord)
    : view (records.map fun r => { r with stat := .delete }) = [] := by
  simp [view]

theorem view_merged {r : DbRecord} {row : MapObject} (hcrc : Function.Injective DataUtil.crc32)
    (hr : r.key = DataUtil.crc32 r.data)
    : view [merged r (ofData row)] = if r.stat = .delete ∧ r.data = row then [] else [row] := by
  unfold merged ofData
  by_cases hdata : r.data = row
  . have hkey : r.key = DataUtil.crc32 row := by rw [hr, hdata]
    simp only [hkey, ne_eq, not_true_eq_false, if_false, hdata, and_true]
    by_cases hstat : r.stat = .delete
    . simp [view, hstat]
    . simp [view, hstat, hdata]
  . have hkey : r.key ≠ DataUtil.crc32 row := by
      rw [hr]
      exact fun h => hdata (hcrc h)
    simp [hkey, hdata, view]

theorem view_update_iff {keys : List String} {records records' : List DbRecord}
    {rows : List MapObject} (hcrc : Function.Injective DataUtil.crc32) (hkeyed : Keyed records)
    (hkeys : ∀ row ∈ rows, HasKeys keys row) (hnodup : (rows.map (rowKey keys)).Nodup)
    (hfibers : ∀ i, (records'.filter fun r => id keys r = i)
      = updatedFiber (rows.find? fun row => rowKey keys row = i)
        (records.filter fun r => id keys r = i))
    : (view records').Perm rows ↔ ShowsOnce keys records rows := by
  have hsame : ∀ row ∈ rows, (records.filter fun r => sameRecord row r.data keys = some true)
      = records.filter fun r => id keys r = rowKey keys row := by
    intro row hrow
    apply List.filter_congr
    intro r _
    rw [sameRecord_eq r.data (hkeys row hrow)]
    simp [id, eq_comm]
  -- the rows of one key
  have hkey : ∀ i, ((view records').filter fun row => rowKey keys row = i).Perm
        (rows.filter fun row => rowKey keys row = i)
      ↔ ∀ row, rows.find? (fun row => rowKey keys row = i) = some row → ∀ r later,
        (records.filter fun r => id keys r = i) = r :: later
          → view later = if r.stat = .delete ∧ r.data = row then [row] else [] := by
    intro i
    rw [filter_view, hfibers, filter_rowKey hnodup]
    cases hrow : rows.find? (fun row => rowKey keys row = i) with
    | none => simp [updatedFiber, view_delete]
    | some row =>
      cases hrecords : records.filter (fun r => decide (id keys r = i)) with
      | nil => simp [updatedFiber, view, added, ofData]
      | cons r later =>
        have hmem : r ∈ records := by
          have : r ∈ records.filter fun r => decide (id keys r = i) := by simp [hrecords]
          exact (List.mem_filter.mp this).1
        have hview : view (updatedFiber (some row) (r :: later))
            = (if r.stat = .delete ∧ r.data = row then [] else [row]) ++ view later := by
          rw [← view_merged hcrc (hkeyed r hmem), ← view_append]
          rfl
        rw [hview]
        simp only [Option.toList_some, Option.some.injEq, List.cons.injEq, forall_eq', and_imp]
        split
        . next h => simp [List.perm_singleton, h]
        . next h => simp [List.perm_singleton, h]
  rw [perm_iff_filter keys]
  simp only [hkey]
  constructor
  . intro h row hrow r later hrecords
    rw [hsame row hrow] at hrecords
    exact h _ row (find?_eq_some hnodup hrow) r later hrecords
  . intro h i row hfind r later hrecords
    have hrow := List.mem_of_find?_eq_some hfind
    have hi : rowKey keys row = i := by simpa using List.find?_some hfind
    subst hi
    apply h row hrow r later
    rw [hsame row hrow, hrecords]

end DbRecord

namespace CommonModule

open DbRecord

section exec

variable [DataUtil] [SqlServer]

theorem exec_load (s : CommonModule × Database) (outcome : QueryOutcome)
    : ∃ rows, exec s (.load outcome)
          = ({ s.1 with records := s.1.records ++ rows.map ofData }, s.2)
        ∧ (rows = [] ∨ DataQueryResult.load s.2 s.1.table_name s.1.charid_col (.long s.1.char_id)
          outcome = some rows) := by
  cases h : DataQueryResult.load s.2 s.1.table_name s.1.charid_col (.long s.1.char_id) outcome with
  | none => exact ⟨[], by simp [exec, load, h], .inl rfl⟩
  | some rows => exact ⟨rows, by simp [exec, load, h], .inr rfl⟩

theorem exec_update (s : CommonModule × Database) (rows : Option (List MapObject))
    : ∃ records, exec s (.update rows) = ({ s.1 with records := records }, s.2)
        ∧ (DbRecord.update s.1.records rows s.1.key_list s.1.disAbleDelete = .ok records
          ∨ DbRecord.update s.1.records rows s.1.key_list s.1.disAbleDelete = .error records) := by
  cases h : DbRecord.update s.1.records rows s.1.key_list s.1.disAbleDelete with
  | ok records => exact ⟨records, by simp [exec, update, h], .inl rfl⟩
  | error records => exact ⟨records, by simp [exec, update, h], .inr rfl⟩

theorem save_records {records records' : List DbRecord} {table : String} {keys : List String}
    {updatesSucceed deletesSucceed : Bool} {db db' : Database}
    (h : DbRecord.save records table keys updatesSucceed deletesSucceed db = (db', some records'))
    : records' = saved records := by
  unfold DbRecord.save at h
  split at h
  . next hempty =>
    simp only [Prod.mk.injEq, Option.some.injEq] at h
    simp [← h.2, hempty, saved]
  . split at h
    . simp at h
    . split at h
      . simp at h
      . next hdel =>
        simp only [Prod.mk.injEq, Option.some.injEq] at h
        unfold saveDeletes at hdel
        split at hdel
        . simp only [Option.some.injEq, Prod.mk.injEq] at hdel
          rw [← h.2, ← hdel.2]
        . obtain ⟨db'', -, hdel⟩ := Option.map_eq_some_iff.mp hdel
          simp only [Prod.mk.injEq] at hdel
          rw [← h.2, ← hdel.2]

theorem exec_save (s : CommonModule × Database) (updatesSucceed deletesSucceed : Bool)
    : exec s (.save updatesSucceed deletesSucceed)
        = match DbRecord.save s.1.records s.1.table_name s.1.key_list updatesSucceed deletesSucceed
            s.2 with
          | (db, some records) => ({ s.1 with records := records }, db)
          | (db, none) => (s.1, db) := by
  rcases h : DbRecord.save s.1.records s.1.table_name s.1.key_list updatesSucceed deletesSucceed s.2
    with ⟨db, _ | records⟩ <;> simp [exec, save, h]

theorem exec_keyed {s : CommonModule × Database} (op : Op) (h : Keyed s.1.records)
    : Keyed (exec s op).1.records := by
  cases op with
  | load outcome =>
    obtain ⟨rows, hres, -⟩ := exec_load s outcome
    rw [hres]
    exact keyed_append h (keyed_ofData rows)
  | update rows =>
    obtain ⟨records, hres, hup⟩ := exec_update s rows
    rw [hres]
    exact update_keyed h hup
  | save updatesSucceed deletesSucceed =>
    rw [exec_save]
    split
    . next hsave =>
      rw [save_records hsave]
      exact keyed_saved h
    . exact h

theorem foldl_keyed (ops : List Op) {s : CommonModule × Database} (h : Keyed s.1.records)
    : Keyed (ops.foldl exec s).1.records := by
  induction ops generalizing s with
  | nil => exact h
  | cons op ops ih => exact ih (exec_keyed op h)

/--
After an update of any records that calls on a module lead to, the view is the supplied rows exactly
when none of them is shadowed by a record that is marked for deletion.
-/
theorem update_view_iff (hcrc : Function.Injective DataUtil.crc32) (char_id : Int)
    (table_name charid_col : String) (key_list : List String) (db : Database) (ops : List Op)
    (rows : List MapObject) (hkeys : ∀ row ∈ rows, HasKeys key_list row)
    (hdistinct : Distinct key_list rows)
    : ∃ records',
        DbRecord.update (ops.foldl exec (new char_id table_name charid_col key_list false, db)).1.records
          (some rows) key_list false = .ok records'
        ∧ ((view records').Perm rows ↔ ShowsOnce key_list
          (ops.foldl exec (new char_id table_name charid_col key_list false, db)).1.records rows) := by
  have hnodup := (distinct_nodup hkeys).mp hdistinct
  have hkeyed := foldl_keyed ops (s := (new char_id table_name charid_col key_list false, db))
    (by simp [Keyed, new])
  obtain ⟨records', hupdate, -, hfibers, -⟩ := update_eq hkeys hnodup
    (ops.foldl exec (new char_id table_name charid_col key_list false, db)).1.records
  exact ⟨records', hupdate, view_update_iff hcrc hkeyed hkeys hnodup hfibers⟩

end exec

@[reducible]
def rowDigest : DataUtil := ⟨MapObject, inferInstance, fun data => data⟩

@[reducible]
def numericServer : SqlServer where
  Key := Value
  decEqKey := inferInstance
  columnKey v :=
    match v with
    | .null => none
    | .int v => some (.long v)
    | v => some v
  columnKey_eq_none v := by cases v <;> simp

theorem rowDigest_injective : Function.Injective rowDigest.crc32 := fun _ _ h => h

def levelRow (level : Int) : MapObject :=
  (Finmap.singleton "player_id" (.long 7)).insert "level" (.int level)

theorem update_view_counterexample
    : ¬ ∀ [DataUtil] [SqlServer], Function.Injective DataUtil.crc32
        → ∀ (char_id : Int) (table_name charid_col : String) (key_list : List String) (db : Database)
          (ops : List Op) (rows : List MapObject),
          (∀ row ∈ db table_name, HasKeys key_list row)
          → (∀ rows', .update (some rows') ∈ ops → ∀ row ∈ rows', HasKeys key_list row)
          → (∀ row ∈ rows, HasKeys key_list row) → Distinct key_list rows
          → ∀ records',
            DbRecord.update
              (ops.foldl exec (new char_id table_name charid_col key_list false, db)).1.records
              (some rows) key_list false = .ok records'
            → (view records').Perm rows := by
  intro h
  have hkeys : ∀ row ∈ [levelRow 1], HasKeys ["player_id"] row := by
    intro row hrow key hkey
    obtain rfl := List.mem_singleton.mp hrow
    obtain rfl := List.mem_singleton.mp hkey
    decide
  have hview := @h rowDigest numericServer rowDigest_injective 7 "player" "player_id" ["player_id"]
    (fun _ => [levelRow 1]) [.load .success, .update (some [])] [levelRow 1] hkeys (by simp) hkeys
    (by simp [Distinct]) _ rfl
  revert hview
  decide

theorem update_view_iff_levelRow
    : letI := rowDigest
      letI := numericServer
      ∃ records',
        DbRecord.update
          ([Op.load .success].foldl exec
            (new 7 "player" "player_id" ["player_id"] false, fun _ => [levelRow 1])).1.records
          (some [levelRow 2]) ["player_id"] false = .ok records'
        ∧ ((view records').Perm [levelRow 2] ↔ ShowsOnce ["player_id"]
          ([Op.load .success].foldl exec
            (new 7 "player" "player_id" ["player_id"] false, fun _ => [levelRow 1])).1.records
          [levelRow 2]) := by
  have hkeys : ∀ row ∈ [levelRow 2], HasKeys ["player_id"] row := by
    intro row hrow key hkey
    obtain rfl := List.mem_singleton.mp hrow
    obtain rfl := List.mem_singleton.mp hkey
    decide
  exact @update_view_iff rowDigest numericServer rowDigest_injective 7 "player" "player_id"
    ["player_id"] (fun _ => [levelRow 1]) [.load .success] [levelRow 2] hkeys (by simp [Distinct])

end CommonModule

end WzGame
