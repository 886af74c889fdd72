import WzGame.Db.Data.DbRecordShown
import WzGame.Db.Data.DbRecordSynced

/-!
This module contains the stored rows of one module of a character together with the records of several
copies of it in memory, of which at most one is ahead of what is stored.
-/

namespace WzGame

open MapObject DBUtil KeyedList DbRecord

structure Copies [DataUtil] where
  stored : List MapObject
  wanted : List MapObject
  records : Nat → List DbRecord

namespace Copies

variable [SqlServer] [DataUtil] {columns : Finset String} {keys : List String} {col : String}
  {char_id : Value} {c : Copies} {o : Option Nat} {d : Nat}

def Valid (records : List DbRecord) : Prop := ∀ r ∈ records, r.stat = .valid

structure AtRest (columns : Finset String) (keys : List String) (col : String) (char_id : Value)
    (c : Copies) : Prop where
  fits : ∀ row ∈ c.stored, Fits columns keys col char_id row
  nodup : (c.stored.map (sqlKey keys)).Nodup
  ids : (c.stored.map (rowKey keys)).Nodup
  wanted : c.stored.Perm c.wanted

structure Leads (columns : Finset String) (keys : List String) (col : String) (char_id : Value)
    (c : Copies) (d : Nat) : Prop where
  synced : Synced columns keys col char_id (c.records d) c.stored
  complete : Complete keys (c.records d) c.stored
  wanted : (view (c.records d)).Perm c.wanted

def Inserted (c : Copies) (d : Nat) : Prop := ∀ row ∈ updates (c.records d), row ∈ c.stored

structure Inv (columns : Finset String) (keys : List String) (col : String) (char_id : Value)
    (o : Option Nat) (c : Copies) : Prop where
  valid : ∀ d, o ≠ some d → Valid (c.records d)
  rest : o = none → AtRest columns keys col char_id c
  leads : ∀ d, o = some d → Leads columns keys col char_id c d

def setRecords (c : Copies) (d : Nat) (records : List DbRecord) : Copies :=
  { c with records := Function.update c.records d records }

def read (c : Copies) (d : Nat) : Copies := c.setRecords d (c.records d ++ c.stored.map ofData)

def update (c : Copies) (d : Nat) (rows : List MapObject) (records : List DbRecord) : Copies :=
  { c.setRecords d records with wanted := rows }

def insert (keys : List String) (c : Copies) (d : Nat) : Copies :=
  { c with stored := (updates (c.records d)).foldl (upsert (sqlKey keys)) c.stored }

def remove (keys : List String) (c : Copies) (d : Nat) : Copies :=
  { c.setRecords d (saved (c.records d)) with
    stored := (deletes (c.records d)).foldl (KeyedList.remove (sqlKey keys)) c.stored }

section

omit [SqlServer]

theorem Valid.updates_eq_nil {records : List DbRecord} (h : Valid records) : updates records = [] := by
  unfold updates
  rw [List.map_eq_nil_iff, List.filter_eq_nil_iff]
  intro r hr
  simp [h r hr]

theorem Valid.deletes_eq_nil {records : List DbRecord} (h : Valid records) : deletes records = [] := by
  unfold deletes
  rw [List.map_eq_nil_iff, List.filter_eq_nil_iff]
  intro r hr
  simp [h r hr]

theorem valid_saved (records : List DbRecord) : Valid (saved records) := by
  intro r hr
  obtain ⟨r₀, -, -, rfl⟩ := mem_saved.mp hr
  rfl

theorem valid_ofData (rows : List MapObject) : Valid (rows.map ofData) := by
  intro r hr
  obtain ⟨row, -, rfl⟩ := List.mem_map.mp hr
  rfl

theorem valid_append {records records' : List DbRecord} (h : Valid records) (h' : Valid records')
    : Valid (records ++ records') := by
  intro r hr
  rcases List.mem_append.mp hr with hr | hr
  . exact h r hr
  . exact h' r hr

theorem records_setRecords (records : List DbRecord) (d' : Nat)
    : (c.setRecords d records).records d' = if d' = d then records else c.records d' := by
  simp [setRecords, Function.update_apply]

theorem inserted_of_valid (h : Valid (c.records d)) : Inserted c d := by
  intro row hrow
  rw [h.updates_eq_nil] at hrow
  contradiction

theorem inserted_setRecords {records : List DbRecord} {d' : Nat} (hvalid : Valid records)
    (h : Inserted c d')
    : Inserted (c.setRecords d records) d' := by
  intro row hrow
  rw [records_setRecords] at hrow
  split at hrow
  . rw [hvalid.updates_eq_nil] at hrow
    contradiction
  . exact h row hrow

end

theorem Leads.atRest (L : Leads columns keys col char_id c d) (hvalid : Valid (c.records d))
    : AtRest columns keys col char_id c := by
  have hview := L.synced.view_perm L.complete hvalid
  constructor
  case fits => exact L.synced.storedFits
  case nodup => exact L.synced.storedNodup
  case ids =>
    have hids : ((view (c.records d)).map (rowKey keys)).Nodup := by
      unfold view
      rw [List.map_map]
      exact L.synced.ids.sublist (List.filter_sublist.map _)
    exact (hview.map _).nodup_iff.mp hids
  case wanted => exact hview.symm.trans L.wanted

theorem Inv.atRest (I : Inv columns keys col char_id o c) (h : ∀ d, o = some d → Valid (c.records d))
    : AtRest columns keys col char_id c := by
  cases o with
  | none => exact I.rest rfl
  | some d => exact (I.leads d rfl).atRest (h d rfl)

theorem Inv.read (I : Inv columns keys col char_id o c) (h : ∀ d, o = some d → Valid (c.records d))
    (hempty : c.records d = [])
    : Inv columns keys col char_id (some d) (c.read d) := by
  have A := I.atRest h
  have hvalid : ∀ d', Valid (c.records d') := by
    intro d'
    by_cases hd : o = some d'
    . exact h d' hd
    . exact I.valid d' hd
  have hrecords : ∀ d', (c.read d).records d' = if d' = d then c.stored.map ofData else c.records d' := by
    intro d'
    rw [Copies.read, records_setRecords, hempty]
    rfl
  constructor
  case valid =>
    intro d' hd
    rw [hrecords, if_neg fun heq => hd (by rw [heq])]
    exact hvalid d'
  case rest =>
    intro hnone
    contradiction
  case leads =>
    intro d' hd
    obtain rfl := Option.some.inj hd
    have hown := (hrecords d).trans (if_pos rfl)
    constructor
    case synced =>
      rw [hown]
      exact synced_ofData A.fits A.nodup A.ids
    case complete =>
      rw [hown]
      exact complete_ofData
    case wanted =>
      rw [hown, view_map_ofData]
      exact A.wanted

theorem Inv.setRecords (I : Inv columns keys col char_id o c) {records : List DbRecord}
    (hne : o ≠ some d) (hvalid : Valid records)
    : Inv columns keys col char_id o (c.setRecords d records) := by
  constructor
  case valid =>
    intro d' hd
    rw [records_setRecords]
    split
    . exact hvalid
    . exact I.valid d' hd
  case rest =>
    intro hnone
    obtain ⟨hfits, hnodup, hids, hwanted⟩ := I.rest hnone
    exact ⟨hfits, hnodup, hids, hwanted⟩
  case leads =>
    intro d' hd
    obtain ⟨hsynced, hcomplete, hwanted⟩ := I.leads d' hd
    have hown := (c.records_setRecords records d').trans (if_neg fun heq => hne (by rw [hd, heq]))
    exact ⟨hown ▸ hsynced, hown ▸ hcomplete, hown ▸ hwanted⟩

theorem Inv.update (I : Inv columns keys col char_id (some d) c) {rows : List MapObject}
    {records : List DbRecord} (hfits : ∀ row ∈ rows, Fits columns keys col char_id row)
    (hnodup : (rows.map (rowKey keys)).Nodup) (hagree : Agree keys (rows ++ (c.records d).map data))
    (hkeeps : ∀ row ∈ rows, ∀ r ∈ c.records d, Keeps keys row r → r.stat ≠ .delete ∧ r.data = row)
    (hupdate : DbRecord.update (c.records d) (some rows) keys false = .ok records)
    : Inv columns keys col char_id (some d) (c.update d rows records) := by
  obtain ⟨hsynced, hcomplete, -⟩ := I.leads d rfl
  obtain ⟨hsynced', hcomplete'⟩ := synced_update hsynced hfits hnodup hagree hupdate
  have hrecords : ∀ d', (c.update d rows records).records d' = if d' = d then records else c.records d' :=
    records_setRecords records
  constructor
  case valid =>
    intro d' hd
    rw [hrecords, if_neg fun heq => hd (by rw [heq])]
    exact I.valid d' hd
  case rest =>
    intro hnone
    contradiction
  case leads =>
    intro d' hd
    obtain rfl := Option.some.inj hd
    have hown := (hrecords d).trans (if_pos rfl)
    have hview := view_update_perm (fun row hrow => (hfits row hrow).keys) hnodup hsynced.ids hkeeps
      hupdate
    constructor
    case synced =>
      rw [hown]
      exact hsynced'
    case complete =>
      rw [hown]
      exact hcomplete' hcomplete
    case wanted =>
      rw [hown]
      exact hview

theorem Inv.insert_eq (I : Inv columns keys col char_id o c) (hne : o ≠ some d)
    : c.insert keys d = c := by
  unfold Copies.insert
  rw [(I.valid d hne).updates_eq_nil]
  rfl

theorem Inv.insert (I : Inv columns keys col char_id o c)
    : Inv columns keys col char_id o (c.insert keys d) ∧ Inserted (c.insert keys d) d
        ∧ ∀ d', Inserted c d' → Inserted (c.insert keys d) d' := by
  by_cases hd : o = some d
  . subst hd
    obtain ⟨hsynced, hcomplete, hwanted⟩ := I.leads d rfl
    obtain ⟨hsynced', hcomplete', hinserted⟩ := synced_saveUpdates hsynced
    refine ⟨⟨I.valid, fun hnone => by contradiction, ?_⟩, hinserted, ?_⟩
    . intro d' hd
      obtain rfl := Option.some.inj hd
      exact ⟨hsynced', hcomplete' hcomplete, hwanted⟩
    . intro d' h
      by_cases hd' : d = d'
      . subst hd'
        exact hinserted
      . exact inserted_of_valid (I.valid d' fun heq => hd' (Option.some.inj heq))
  . rw [I.insert_eq hd]
    exact ⟨I, inserted_of_valid (I.valid d hd), fun _ h => h⟩

theorem Inv.remove (I : Inv columns keys col char_id o c) (hinserted : Inserted c d)
    : Inv columns keys col char_id o (c.remove keys d)
        ∧ ∀ d', Inserted c d' → Inserted (c.remove keys d) d' := by
  have hrecords : ∀ d', (c.remove keys d).records d'
      = if d' = d then saved (c.records d) else c.records d' := records_setRecords _
  have hvalid : ∀ d', o ≠ some d' → Valid ((c.remove keys d).records d') := by
    intro d' hd
    rw [hrecords]
    split
    . exact valid_saved _
    . exact I.valid d' hd
  by_cases hd : o = some d
  . subst hd
    obtain ⟨hsynced, hcomplete, hwanted⟩ := I.leads d rfl
    obtain ⟨hsynced', hcomplete'⟩ := synced_saveDeletes hsynced hinserted
    have hown := (hrecords d).trans (if_pos rfl)
    refine ⟨⟨hvalid, fun hnone => by contradiction, ?_⟩, ?_⟩
    . intro d' hd
      obtain rfl := Option.some.inj hd
      refine ⟨hown ▸ hsynced', hown ▸ (hcomplete' hcomplete).1, ?_⟩
      rw [hown, view_saved]
      exact hwanted
    . intro d' _
      apply inserted_of_valid
      by_cases hd' : d = d'
      . subst hd'
        rw [hown]
        exact valid_saved _
      . exact hvalid d' fun heq => hd' (Option.some.inj heq)
  . have heq : c.remove keys d = c.setRecords d (saved (c.records d)) := by
      unfold Copies.remove
      rw [(I.valid d hd).deletes_eq_nil]
      rfl
    rw [heq]
    refine ⟨I.setRecords hd (valid_saved _), ?_⟩
    exact fun d' h => inserted_setRecords (valid_saved _) h

end Copies

end WzGame
