import WzGame.Util.Runs
import WzGame.Db.Data.DbRecordSynced
import WzGame.Db.Data.Module.CommonModuleView

/-!
This module contains when saving a module brings its table to its view.
-/

namespace WzGame

open Runs MapObject DBUtil DbRecord

namespace CommonModule

section

variable [DataUtil] [SqlServer]

def charRows (s : CommonModule × Database) : List MapObject :=
  (s.2 s.1.table_name).filter (owns s.1.charid_col (.long s.1.char_id))

/--
Nothing is loaded over records that are there already, and `sameRecord` compares the keys of the
supplied rows and of the records as the server does.
-/
def Sound (columns : Finset String) (s : CommonModule × Database) : Op → Prop
  | .load _ => s.1.records = []
  | .update rows => ∀ rows', rows = some rows'
      → (∀ row ∈ rows', Fits columns s.1.key_list s.1.charid_col (.long s.1.char_id) row)
        ∧ Distinct s.1.key_list rows' ∧ Agree s.1.key_list (rows' ++ s.1.records.map data)
  | .save _ _ => True

structure Tracks (columns : Finset String) (mod : CommonModule) (s : CommonModule × Database)
    : Prop where
  config : s.1 = { mod with records := s.1.records }
  synced : Synced columns s.1.key_list s.1.charid_col (.long s.1.char_id) s.1.records (charRows s)
  complete : Complete s.1.key_list s.1.records (charRows s)

variable {columns : Finset String} {mod : CommonModule} {s : CommonModule × Database}

theorem tracks_step (hcol : mod.charid_col ∈ mod.key_list) (hdelete : mod.disAbleDelete = false)
    {op : Op} (T : Tracks columns mod s) (hop : Sound columns s op)
    : Tracks columns mod (exec s op) := by
  obtain ⟨m, db⟩ := s
  obtain ⟨hconfig, S, C⟩ := T
  simp only at hconfig
  rw [hconfig] at S C hop ⊢
  cases op with
  | load outcome =>
    have hempty : m.records = [] := hop
    rw [hempty] at S C ⊢
    -- no record, so no row to read
    have hstored : charRows ({ mod with records := [] }, db) = [] := by
      apply List.eq_nil_iff_forall_not_mem.mpr
      intro row hrow
      obtain ⟨r, hr, -⟩ := C row hrow
      simp at hr
    obtain ⟨rows, hexec, hrows⟩ := exec_load ({ mod with records := [] }, db) outcome
    obtain rfl : rows = [] := by
      rcases hrows with h | hload
      . exact h
      . have hread : rows.Sublist (charRows ({ mod with records := [] }, db)) :=
          DataQueryResult.load_sublist hload
        rw [hstored] at hread
        exact List.sublist_nil.mp hread
    rw [hexec]
    exact ⟨rfl, S, C⟩
  | update rows =>
    cases rows with
    | none => exact ⟨rfl, S, C⟩
    | some rows =>
      obtain ⟨hfits, hdistinct, hagree⟩ := hop rows rfl
      have hnodup := (distinct_nodup fun row hrow => (hfits row hrow).keys).mp hdistinct
      obtain ⟨records', heq, -⟩ := update_eq (fun row hrow => (hfits row hrow).keys) hnodup m.records
      obtain ⟨S', C'⟩ := synced_update S hfits hnodup hagree heq
      have hexec : exec ({ mod with records := m.records }, db) (.update (some rows))
          = ({ mod with records := records' }, db) := by
        simp [exec, update, heq, hdelete]
      rw [hexec]
      exact ⟨rfl, S', C' C⟩
  | save updatesSucceed deletesSucceed =>
    rw [exec_save]
    split
    . next db' records' hsave =>
      obtain ⟨S', C'⟩ := save_synced hcol S hsave
      exact ⟨rfl, S', (C' C).1⟩
    . next db' hsave =>
      obtain ⟨S', C'⟩ := save_synced hcol S hsave
      exact ⟨rfl, S', (C' C).1⟩

theorem tracks_run (hcol : mod.charid_col ∈ mod.key_list) (hdelete : mod.disAbleDelete = false)
    {s₀ : CommonModule × Database} {ops : List Op} (T : Tracks columns mod s₀)
    (hrun : Run (fun s op s' => exec s op = s') (Sound columns) s₀ ops s)
    : Tracks columns mod s :=
  hrun.invariant (Tracks columns mod) T fun s op s' T hop hstep => by
    obtain rfl : exec s op = s' := hstep
    exact tracks_step hcol hdelete T hop

theorem tracks_load {char_id : Int} {table_name charid_col : String} {key_list : List String}
    {db : Database}
    (hfits : ∀ row ∈ charRows (new char_id table_name charid_col key_list false, db),
      Fits columns key_list charid_col (.long char_id) row)
    (hnodup : ((charRows (new char_id table_name charid_col key_list false, db)).map
      (sqlKey key_list)).Nodup)
    (hdistinct : Distinct key_list (charRows (new char_id table_name charid_col key_list false, db)))
    : Tracks columns (new char_id table_name charid_col key_list false)
        (exec (new char_id table_name charid_col key_list false, db) (.load .success)) := by
  have hids := (distinct_nodup fun row hrow => (hfits row hrow).keys).mp hdistinct
  have S := synced_ofData hfits hnodup hids
  exact ⟨rfl, S, complete_ofData⟩

/--
After a load and any calls on comparable rows, a save that returns normally leaves the rows of the
view in the table and valid records, and a save that throws leaves the records as they are.
-/
theorem save_run {char_id : Int} {table_name charid_col : String} {key_list : List String}
    {db : Database} {ops : List Op} (hcol : charid_col ∈ key_list)
    (hfits : ∀ row ∈ charRows (new char_id table_name charid_col key_list false, db),
      Fits columns key_list charid_col (.long char_id) row)
    (hnodup : ((charRows (new char_id table_name charid_col key_list false, db)).map
      (sqlKey key_list)).Nodup)
    (hdistinct : Distinct key_list (charRows (new char_id table_name charid_col key_list false, db)))
    (hrun : Run (fun s op s' => exec s op = s') (Sound columns)
      (exec (new char_id table_name charid_col key_list false, db) (.load .success)) ops s)
    (updatesSucceed deletesSucceed : Bool)
    : (∀ mod db', s.1.save updatesSucceed deletesSucceed s.2 = (db', some mod)
        → (charRows (mod, db')).Perm mod.getData ∧ mod.getData = s.1.getData
          ∧ ∀ r ∈ mod.records, r.stat = .valid)
      ∧ ∀ db', s.1.save updatesSucceed deletesSucceed s.2 = (db', none)
        → exec s (.save updatesSucceed deletesSucceed) = (s.1, db') := by
  have T := tracks_run hcol rfl (tracks_load hfits hnodup hdistinct) hrun
  obtain ⟨m, db₁⟩ := s
  obtain ⟨hconfig, S, C⟩ := T
  simp only at hconfig
  rw [hconfig] at S C ⊢
  constructor
  . intro mod db' hres
    rcases hrec : DbRecord.save m.records table_name key_list updatesSucceed deletesSucceed db₁
      with ⟨db'', _ | records'⟩
    . simp [save, new, hrec] at hres
    . obtain ⟨rfl, rfl⟩ : db'' = db' ∧ { m with records := records' } = mod := by
        rw [hconfig]
        simpa [save, new, hrec] using hres
      obtain rfl := save_records hrec
      obtain ⟨-, hcomplete⟩ := save_synced hcol S hrec
      obtain ⟨-, hperm⟩ := hcomplete C
      refine ⟨?_, view_saved, ?_⟩
      . have hview : getData { m with records := saved m.records } = view m.records := view_saved
        rw [hview, hconfig]
        exact hperm (by simp)
      . intro r hr
        obtain ⟨r₀, -, -, rfl⟩ := mem_saved.mp hr
        rfl
  . intro db' hres
    simp [exec, hres]

end

def equipRow (equip_id : Value) : MapObject :=
  (Finmap.singleton "player_id" (.long 7)).insert "equip_id" equip_id

def equipColumns : Finset String := {"player_id", "equip_id"}

theorem equipRow_fits {equip_id : Value} (h : equip_id ≠ .null)
    : letI := numericServer
      Fits equipColumns ["player_id", "equip_id"] "player_id" (.long 7) (equipRow equip_id) := by
  have hplayer : (equipRow equip_id).get "player_id" = .long 7 := by
    simp [equipRow, MapObject.get]
  have hequip : (equipRow equip_id).get "equip_id" = equip_id := by
    simp [equipRow, MapObject.get]
  refine @Fits.mk numericServer _ _ _ _ _ ?_ ?_ ?_
  . ext key
    rw [Finmap.mem_keys]
    simp [equipRow, equipColumns, or_comm]
  . simp [hplayer, hequip, h]
  . unfold owns
    rw [hplayer]
    rfl

theorem save_counterexample
    : ¬ ∀ [DataUtil] [SqlServer], Function.Injective DataUtil.crc32
        → ∀ (columns : Finset String) (char_id : Int) (table_name charid_col : String)
          (key_list : List String) (db : Database) (ops : List Op) (mod : CommonModule)
          (db' : Database), charid_col ∈ key_list
          → (∀ row ∈ db table_name, Fits columns key_list charid_col (.long char_id) row)
          → ((db table_name).map (sqlKey key_list)).Nodup → Distinct key_list (db table_name)
          → (∀ rows, .update (some rows) ∈ ops → Distinct key_list rows
            ∧ ((rows.map (sqlKey key_list)).Nodup)
            ∧ ∀ row ∈ rows, Fits columns key_list charid_col (.long char_id) row)
          → ((Op.load .success :: ops).foldl exec
              (new char_id table_name charid_col key_list false, db)).1.save true true
            ((Op.load .success :: ops).foldl exec
              (new char_id table_name charid_col key_list false, db)).2 = (db', some mod)
          → (charRows (mod, db')).Perm mod.getData := by
  intro h
  have hsave := @h rowDigest numericServer rowDigest_injective equipColumns 7 "char_equip" "player_id"
    ["player_id", "equip_id"] (fun _ => [equipRow (.int (-1))])
    [.update (some [equipRow (.long (-1))])] _ _ (by simp)
    (by simpa using equipRow_fits (by simp)) (by simp) (by simp [Distinct])
    (by
      intro rows hrows
      obtain rfl : rows = [equipRow (.long (-1))] := by simpa using hrows
      exact ⟨by simp [Distinct], by simp, by simpa using equipRow_fits (by simp)⟩)
    rfl
  revert hsave
  decide +kernel

theorem save_run_equipRow
    : letI := rowDigest
      letI := numericServer
      ∃ s, Run (fun s op s' => exec s op = s') (Sound equipColumns)
          (exec (new 7 "char_equip" "player_id" ["player_id", "equip_id"] false,
            fun _ => [equipRow (.long 1)]) (.load .success))
          [.update (some [equipRow (.long 2)]), .save true false] s
        ∧ (∀ mod db', s.1.save true true s.2 = (db', some mod)
          → (charRows (mod, db')).Perm mod.getData ∧ mod.getData = s.1.getData
            ∧ ∀ r ∈ mod.records, r.stat = .valid)
        ∧ ∀ db', s.1.save true true s.2 = (db', none) → exec s (.save true true) = (s.1, db') := by
  let _ : DataUtil := rowDigest
  let _ : SqlServer := numericServer
  have hstored : charRows (new 7 "char_equip" "player_id" ["player_id", "equip_id"] false,
      fun _ => [equipRow (.long 1)]) = [equipRow (.long 1)] := by
    decide +kernel
  have hsound : Sound equipColumns
      (exec (new 7 "char_equip" "player_id" ["player_id", "equip_id"] false,
        fun _ => [equipRow (.long 1)]) (.load .success))
      (.update (some [equipRow (.long 2)])) := by
    intro rows hrows
    obtain rfl : [equipRow (.long 2)] = rows := Option.some.inj hrows
    refine ⟨?_, by simp [Distinct], ?_⟩
    . intro row hrow
      obtain rfl := List.mem_singleton.mp hrow
      exact equipRow_fits (by simp)
    . unfold Agree
      decide +kernel
  have hrun : Run (fun s op s' => exec s op = s') (Sound equipColumns) _
      [.update (some [equipRow (.long 2)]), .save true false] _ :=
    .next (Run.next .start hsound rfl) trivial rfl
  refine ⟨_, hrun, save_run (by simp) ?_ ?_ ?_ hrun true true⟩
  . rw [hstored]
    simpa using equipRow_fits (by simp)
  . rw [hstored]
    simp
  . rw [hstored]
    simp [Distinct]

end CommonModule

end WzGame
