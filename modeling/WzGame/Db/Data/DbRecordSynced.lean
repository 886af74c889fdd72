import WzGame.Database.DBUtilLemmas
import WzGame.Db.Data.DbRecordLemmas

/-!
This module contains the relation between the records of a module and the rows of its character that
the table stores, and what loading, updating and saving do to it.
-/

namespace WzGame

open MapObject DBUtil KeyedList

namespace DbRecord

variable [SqlServer]

def Agree (keys : List String) (rows : List MapObject) : Prop :=
  ∀ row ∈ rows, ∀ row' ∈ rows,
    sameRecord row row' keys = some (keys.all fun key => sqlEq (row.get key) (row'.get key))

theorem agree_iff {keys : List String} {rows : List MapObject}
    (hkeys : ∀ row ∈ rows, HasKeys keys row)
    : Agree keys rows ↔ ∀ row ∈ rows, ∀ row' ∈ rows,
        (rowKey keys row = rowKey keys row' ↔ sqlKey keys row = sqlKey keys row') := by
  constructor
  . intro h row hrow row' hrow'
    have := h row hrow row' hrow'
    rw [sameRecord_eq row' (hkeys row hrow), all_sqlEq_eq (hkeys row' hrow')] at this
    simpa using this
  . intro h row hrow row' hrow'
    rw [sameRecord_eq row' (hkeys row hrow), all_sqlEq_eq (hkeys row' hrow')]
    simp [h row hrow row' hrow']

variable [DataUtil] {columns : Finset String} {keys : List String} {col : String} {char_id : Value}

structure Synced (columns : Finset String) (keys : List String) (col : String) (char_id : Value)
    (records : List DbRecord) (stored : List MapObject) : Prop where
  fits : ∀ r ∈ records, Fits columns keys col char_id r.data
  ids : (records.map (id keys)).Nodup
  sqlIds : (records.map fun r => sqlKey keys r.data).Nodup
  storedFits : ∀ row ∈ stored, Fits columns keys col char_id row
  storedNodup : (stored.map (sqlKey keys)).Nodup
  valid : ∀ r ∈ records, r.stat = .valid → r.data ∈ stored

def Complete (keys : List String) (records : List DbRecord) (stored : List MapObject) : Prop :=
  ∀ row ∈ stored, ∃ r ∈ records, sqlKey keys row = sqlKey keys r.data

variable {records records' : List DbRecord} {stored rows : List MapObject}

theorem synced_ofData (hfits : ∀ row ∈ stored, Fits columns keys col char_id row)
    (hnodup : (stored.map (sqlKey keys)).Nodup) (hids : (stored.map (rowKey keys)).Nodup)
    : Synced columns keys col char_id (stored.map ofData) stored := by
  constructor
  case fits =>
    intro r hr
    obtain ⟨row, hrow, rfl⟩ := List.mem_map.mp hr
    exact hfits row hrow
  case ids =>
    rw [ids_ofData]
    exact hids
  case sqlIds =>
    rw [List.map_map]
    exact hnodup
  case storedFits => exact hfits
  case storedNodup => exact hnodup
  case valid =>
    intro r hr _
    obtain ⟨row, hrow, rfl⟩ := List.mem_map.mp hr
    exact hrow

theorem complete_ofData : Complete keys (stored.map ofData) stored := by
  intro row hrow
  exact ⟨ofData row, List.mem_map_of_mem hrow, rfl⟩

theorem sqlIds_nodup (hids : (records'.map (id keys)).Nodup) {all : List MapObject}
    (hall : ∀ r ∈ records', r.data ∈ all) (hkeys : ∀ row ∈ all, HasKeys keys row)
    (hagree : Agree keys all)
    : (records'.map fun r => sqlKey keys r.data).Nodup := by
  unfold List.Nodup at hids ⊢
  rw [List.pairwise_map] at hids ⊢
  apply hids.imp_of_mem
  intro r r' hr hr' hne heq
  exact hne (((agree_iff hkeys).mp hagree _ (hall r hr) _ (hall r' hr')).mpr heq)

theorem synced_update (S : Synced columns keys col char_id records stored)
    (hrows : ∀ row ∈ rows, Fits columns keys col char_id row)
    (hnodup : (rows.map (rowKey keys)).Nodup) (hagree : Agree keys (rows ++ records.map data))
    (hupdate : update records (some rows) keys false = .ok records')
    : Synced columns keys col char_id records' stored
        ∧ (Complete keys records stored → Complete keys records' stored) := by
  have hkeys : ∀ row ∈ rows ++ records.map data, HasKeys keys row := by
    intro row hrow
    rcases List.mem_append.mp hrow with h | h
    . exact (hrows row h).keys
    . obtain ⟨r, hr, rfl⟩ := List.mem_map.mp h
      exact (S.fits r hr).keys
  obtain ⟨records₁, heq, hids, -, hmem⟩ := update_eq (fun row h => (hrows row h).keys) hnodup records
  obtain rfl : records₁ = records' := by
    rw [heq] at hupdate
    exact Except.ok.inj hupdate
  have hall : ∀ r ∈ records₁, r.data ∈ rows ++ records.map data := by
    intro r hr
    rcases hmem r hr with ⟨row, hrow, rfl⟩ | ⟨hr, -⟩ | ⟨r₀, hr₀, rfl⟩
    . exact List.mem_append_left _ hrow
    . exact List.mem_append_right _ (List.mem_map_of_mem hr)
    . exact List.mem_append_right _ (List.mem_map.mpr ⟨r₀, hr₀, rfl⟩)
  have hfits : ∀ r ∈ records₁, Fits columns keys col char_id r.data := by
    intro r hr
    rcases hmem r hr with ⟨row, hrow, rfl⟩ | ⟨hr, -⟩ | ⟨r₀, hr₀, rfl⟩
    . exact hrows row hrow
    . exact S.fits r hr
    . exact S.fits r₀ hr₀
  have hidsNodup : (records₁.map (id keys)).Nodup := by
    rw [hids, List.nodup_append]
    refine ⟨S.ids, hnodup.filter _, ?_⟩
    rintro i hi i' hi' rfl
    simpa [hi] using (List.mem_filter.mp hi').2
  constructor
  . constructor
    case fits => exact hfits
    case ids => exact hidsNodup
    case sqlIds => exact sqlIds_nodup hidsNodup hall hkeys hagree
    case storedFits => exact S.storedFits
    case storedNodup => exact S.storedNodup
    case valid =>
      intro r hr hstat
      rcases hmem r hr with ⟨row, hrow, rfl⟩ | ⟨hr, -⟩ | ⟨r₀, hr₀, rfl⟩
      . simp [added] at hstat
      . exact S.valid r hr hstat
      . simp at hstat
  . intro hcomplete row hrow
    obtain ⟨r, hr, hkey⟩ := hcomplete row hrow
    -- the record of the row has a successor with its id
    have hid : id keys r ∈ records₁.map (id keys) := by
      rw [hids]
      exact List.mem_append_left _ (List.mem_map_of_mem hr)
    obtain ⟨r', hr', hid'⟩ := List.mem_map.mp hid
    refine ⟨r', hr', ?_⟩
    rw [hkey]
    exact ((agree_iff hkeys).mp hagree _ (List.mem_append_right _ (List.mem_map_of_mem hr)) _
      (hall r' hr')).mp hid'.symm

theorem Synced.eq_of_sqlKey_eq (S : Synced columns keys col char_id records stored)
    {r r' : DbRecord} (hr : r ∈ records) (hr' : r' ∈ records)
    (h : sqlKey keys r.data = sqlKey keys r'.data)
    : r = r' :=
  List.inj_on_of_nodup_map S.sqlIds hr hr' h

theorem Synced.updates_nodup (S : Synced columns keys col char_id records stored)
    : ((updates records).map (sqlKey keys)).Nodup := by
  unfold updates
  rw [List.map_map]
  exact S.sqlIds.sublist (List.filter_sublist.map _)

theorem synced_saveUpdates (S : Synced columns keys col char_id records stored)
    : Synced columns keys col char_id records ((updates records).foldl (upsert (sqlKey keys)) stored)
        ∧ (Complete keys records stored
          → Complete keys records ((updates records).foldl (upsert (sqlKey keys)) stored))
        ∧ ∀ row ∈ updates records, row ∈ (updates records).foldl (upsert (sqlKey keys)) stored := by
  have hmem : ∀ x, x ∈ (updates records).foldl (upsert (sqlKey keys)) stored
      ↔ (x ∈ stored ∧ sqlKey keys x ∉ (updates records).map (sqlKey keys)) ∨ x ∈ updates records :=
    fun x => mem_foldl_upsert S.updates_nodup
  refine ⟨?_, ?_, ?_⟩
  . constructor
    case fits => exact S.fits
    case ids => exact S.ids
    case sqlIds => exact S.sqlIds
    case storedFits =>
      intro row hrow
      rcases (hmem row).mp hrow with ⟨h, -⟩ | h
      . exact S.storedFits row h
      . obtain ⟨r, hr, -, rfl⟩ := mem_updates.mp h
        exact S.fits r hr
    case storedNodup => exact nodup_foldl_upsert S.storedNodup _
    case valid =>
      intro r hr hstat
      rw [hmem]
      refine .inl ⟨S.valid r hr hstat, ?_⟩
      intro h
      obtain ⟨row, hrow, hkey⟩ := List.mem_map.mp h
      obtain ⟨r', hr', hstat', rfl⟩ := mem_updates.mp hrow
      obtain rfl := S.eq_of_sqlKey_eq hr' hr hkey
      rw [hstat] at hstat'
      contradiction
  . intro hcomplete row hrow
    rcases (hmem row).mp hrow with ⟨h, -⟩ | h
    . exact hcomplete row h
    . obtain ⟨r, hr, -, rfl⟩ := mem_updates.mp h
      exact ⟨r, hr, rfl⟩
  . intro row hrow
    exact (hmem row).mpr (.inr hrow)

theorem synced_saveDeletes (S : Synced columns keys col char_id records stored)
    (hnew : ∀ row ∈ updates records, row ∈ stored)
    : Synced columns keys col char_id (saved records) ((deletes records).foldl (remove (sqlKey keys)) stored)
        ∧ (Complete keys records stored
          → Complete keys (saved records) ((deletes records).foldl (remove (sqlKey keys)) stored)
            ∧ ((deletes records).foldl (remove (sqlKey keys)) stored).Perm (view records)) := by
  have hmem : ∀ x, x ∈ (deletes records).foldl (remove (sqlKey keys)) stored
      ↔ x ∈ stored ∧ sqlKey keys x ∉ (deletes records).map (sqlKey keys) := fun x => mem_foldl_remove
  have hkept : ∀ r ∈ records, r.stat ≠ .delete
      → r.data ∈ (deletes records).foldl (remove (sqlKey keys)) stored := by
    intro r hr hstat
    rw [hmem]
    constructor
    . cases hs : r.stat with
      | valid => exact S.valid r hr hs
      | new => exact hnew r.data (mem_updates.mpr ⟨r, hr, hs, rfl⟩)
      | delete => exact absurd hs hstat
    . intro h
      obtain ⟨row, hrow, hkey⟩ := List.mem_map.mp h
      obtain ⟨r', hr', hstat', rfl⟩ := mem_deletes.mp hrow
      obtain rfl := S.eq_of_sqlKey_eq hr' hr hkey
      exact hstat hstat'
  have hmap : ∀ {β : Type} (f : DbRecord → β), (∀ r : DbRecord, f { r with stat := .valid } = f r)
      → ((saved records).map f).Sublist (records.map f) := by
    intro β f hf
    unfold saved
    rw [List.map_map]
    have hf' : (f ∘ fun record : DbRecord => { record with stat := .valid }) = f := funext hf
    rw [hf']
    exact List.filter_sublist.map f
  constructor
  . constructor
    case fits =>
      intro r hr
      obtain ⟨r₀, hr₀, -, rfl⟩ := mem_saved.mp hr
      exact S.fits r₀ hr₀
    case ids => exact S.ids.sublist (hmap _ fun _ => rfl)
    case sqlIds => exact S.sqlIds.sublist (hmap _ fun _ => rfl)
    case storedFits =>
      intro row hrow
      exact S.storedFits row ((hmem row).mp hrow).1
    case storedNodup => exact nodup_foldl_remove S.storedNodup _
    case valid =>
      intro r hr _
      obtain ⟨r₀, hr₀, hstat, rfl⟩ := mem_saved.mp hr
      exact hkept r₀ hr₀ hstat
  . intro hcomplete
    -- the record of a row that is left is not marked for deletion
    have hrecord : ∀ row ∈ (deletes records).foldl (remove (sqlKey keys)) stored,
        ∃ r ∈ records, r.stat ≠ .delete ∧ sqlKey keys row = sqlKey keys r.data := by
      intro row hrow
      obtain ⟨hstored, hnotin⟩ := (hmem row).mp hrow
      obtain ⟨r, hr, hkey⟩ := hcomplete row hstored
      refine ⟨r, hr, ?_, hkey⟩
      intro hstat
      apply hnotin
      rw [hkey]
      exact List.mem_map_of_mem (mem_deletes.mpr ⟨r, hr, hstat, rfl⟩)
    constructor
    . intro row hrow
      obtain ⟨r, hr, hstat, hkey⟩ := hrecord row hrow
      exact ⟨{ r with stat := .valid }, mem_saved.mpr ⟨r, hr, hstat, rfl⟩, hkey⟩
    . have hnodup := nodup_foldl_remove S.storedNodup (deletes records)
      have hview : (view records).Nodup := by
        apply List.Nodup.of_map (sqlKey keys)
        unfold view
        rw [List.map_map]
        exact S.sqlIds.sublist (List.filter_sublist.map _)
      apply (List.perm_ext_iff_of_nodup hnodup.of_map hview).mpr
      intro row
      rw [mem_view]
      constructor
      . intro hrow
        obtain ⟨r, hr, hstat, hkey⟩ := hrecord row hrow
        refine ⟨r, hr, hstat, ?_⟩
        exact (List.inj_on_of_nodup_map hnodup hrow (hkept r hr hstat) hkey).symm
      . rintro ⟨r, hr, hstat, rfl⟩
        exact hkept r hr hstat

theorem Synced.view_perm (S : Synced columns keys col char_id records stored)
    (hcomplete : Complete keys records stored) (hvalid : ∀ r ∈ records, r.stat = .valid)
    : (view records).Perm stored := by
  have hview : (view records).Nodup := by
    apply List.Nodup.of_map (sqlKey keys)
    unfold view
    rw [List.map_map]
    exact S.sqlIds.sublist (List.filter_sublist.map _)
  apply (List.perm_ext_iff_of_nodup hview S.storedNodup.of_map).mpr
  intro row
  rw [mem_view]
  constructor
  . rintro ⟨r, hr, -, rfl⟩
    exact S.valid r hr (hvalid r hr)
  . intro hrow
    obtain ⟨r, hr, hkey⟩ := hcomplete row hrow
    have hdata := List.inj_on_of_nodup_map S.storedNodup hrow (S.valid r hr (hvalid r hr)) hkey
    exact ⟨r, hr, by simp [hvalid r hr], hdata.symm⟩

section save

variable {db db' : Database} {table : String} {succeeds : Bool}

theorem saveUpdates_eq (hcol : col ∈ keys)
    (S : Synced columns keys col char_id records ((db table).filter (owns col char_id)))
    (h : saveUpdates records table keys succeeds db = some db')
    : (db' table).filter (owns col char_id)
          = (updates records).foldl (upsert (sqlKey keys)) ((db table).filter (owns col char_id))
        ∧ (db' table).filter (fun row => !owns col char_id row)
          = (db table).filter (fun row => !owns col char_id row)
        ∧ ∀ table' ≠ table, db' table' = db table' := by
  unfold saveUpdates at h
  split at h
  . next hempty =>
    obtain rfl := Option.some.inj h
    simp [hempty]
  . apply batchInsertOrUpdate_eq hcol _ S.storedFits h
    intro row hrow
    obtain ⟨r, hr, -, rfl⟩ := mem_updates.mp hrow
    exact S.fits r hr

theorem saveDeletes_eq (hcol : col ∈ keys)
    (S : Synced columns keys col char_id records ((db table).filter (owns col char_id)))
    (h : saveDeletes records table keys succeeds db = some (db', records'))
    : records' = saved records
        ∧ (db' table).filter (owns col char_id)
          = (deletes records).foldl (remove (sqlKey keys)) ((db table).filter (owns col char_id))
        ∧ (db' table).filter (fun row => !owns col char_id row)
          = (db table).filter (fun row => !owns col char_id row)
        ∧ ∀ table' ≠ table, db' table' = db table' := by
  unfold saveDeletes at h
  split at h
  . next hempty =>
    simp only [Option.some.injEq, Prod.mk.injEq] at h
    obtain ⟨rfl, rfl⟩ := h
    simp [hempty]
  . obtain ⟨db'', hbatch, heq⟩ := Option.map_eq_some_iff.mp h
    simp only [Prod.mk.injEq] at heq
    obtain ⟨rfl, rfl⟩ := heq
    have hfits : ∀ row ∈ deletes records, Fits columns keys col char_id row := by
      intro row hrow
      obtain ⟨r, hr, -, rfl⟩ := mem_deletes.mp hrow
      exact S.fits r hr
    exact ⟨rfl, batchDelete_eq hcol hfits hbatch⟩

theorem save_synced (hcol : col ∈ keys)
    (S : Synced columns keys col char_id records ((db table).filter (owns col char_id)))
    {updatesSucceed deletesSucceed : Bool} {res : Option (List DbRecord)}
    (h : save records table keys updatesSucceed deletesSucceed db = (db', res))
    : Synced columns keys col char_id (res.getD records) ((db' table).filter (owns col char_id))
        ∧ (Complete keys records ((db table).filter (owns col char_id))
          → Complete keys (res.getD records) ((db' table).filter (owns col char_id))
            ∧ (res ≠ none → ((db' table).filter (owns col char_id)).Perm (view records))) := by
  unfold save at h
  split at h
  . next hempty =>
    simp only [Prod.mk.injEq] at h
    obtain ⟨rfl, rfl⟩ := h
    refine ⟨S, fun hcomplete => ⟨hcomplete, fun _ => ?_⟩⟩
    have hstored : (db table).filter (owns col char_id) = [] := by
      apply List.eq_nil_iff_forall_not_mem.mpr
      intro row hrow
      obtain ⟨r, hr, -⟩ := hcomplete row hrow
      simp [hempty] at hr
    rw [hstored, hempty]
    exact List.Perm.refl _
  . split at h
    . simp only [Prod.mk.injEq] at h
      obtain ⟨rfl, rfl⟩ := h
      exact ⟨S, fun hcomplete => ⟨hcomplete, fun hne => absurd rfl hne⟩⟩
    . next db₁ hupdates =>
      obtain ⟨hrows₁, -, -⟩ := saveUpdates_eq hcol S hupdates
      obtain ⟨S₁, hcomplete₁, hnew⟩ := synced_saveUpdates S
      rw [← hrows₁] at S₁ hcomplete₁ hnew
      split at h
      . simp only [Prod.mk.injEq] at h
        obtain ⟨rfl, rfl⟩ := h
        exact ⟨S₁, fun hcomplete => ⟨hcomplete₁ hcomplete, fun hne => absurd rfl hne⟩⟩
      . next db₂ records₂ hdeletes =>
        simp only [Prod.mk.injEq] at h
        obtain ⟨rfl, rfl⟩ := h
        obtain ⟨rfl, hrows₂, -, -⟩ := saveDeletes_eq hcol S₁ hdeletes
        obtain ⟨S₂, hcomplete₂⟩ := synced_saveDeletes S₁ hnew
        rw [← hrows₂] at S₂ hcomplete₂
        refine ⟨S₂, fun hcomplete => ?_⟩
        obtain ⟨hleft, hperm⟩ := hcomplete₂ (hcomplete₁ hcomplete)
        exact ⟨hleft, fun _ => hperm⟩

end save

end DbRecord

end WzGame
