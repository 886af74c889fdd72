import WzGame.Db.DataManagerCopies

/-!
This module contains that the data which a callback gets holds the rows of the last update, unless the
player was loaded again before its update had been saved.
-/

namespace WzGame

open Runs CharData

namespace DataManager

section property

variable [DataUtil]

/--
The data that the next call of `onResult` gets shows in each module the rows of the last update, or
else the ones that have been stored from the start.
-/
def PassesCurrent (s : DataManager (DbCache Nat) (MulSearch Nat)) : Prop :=
  ∀ s' c cs d, s.callback = some s' → s'.shared.loads.completions = c :: cs → c.running = true
    → c.charData = some d → ∀ action ∈ entries,
      ∃ rows, (s'.shared.objs d).getModuleData action = some rows
        ∧ rows.Perm (s'.shared.wanted c.charId action)

end property

section runs

variable [DataUtil] [SqlServer] {maxNum cleanSize : Int} {db : Database}
  {s s₀ : DataManager (DbCache Nat) (MulSearch Nat)} {as : List Action}
  {columns : DBAction → Finset String}

theorem current_of_inv {t : Spec} (V : CopiesInv columns t) {c : Completion} {d : Nat}
    {action : DBAction} (hc : c ∈ t.shared.loads.completions) (hd : c.charData = some d)
    (haction : action ∈ entries)
    : ∃ rows, (t.shared.objs d).getModuleData action = some rows
        ∧ rows.Perm (t.shared.wanted c.charId action) := by
  obtain ⟨o, O⟩ := V.owned c.charId action haction
  have ho := O.completing c hc rfl d hd
  obtain ⟨task, htask, hchar, -⟩ := O.born d ho
  have hwanted := (O.inv.leads d ho).wanted
  rw [records_copies ((V.reads.refs.charId d task htask).trans hchar)] at hwanted
  exact ⟨_, getModuleData_eq haction, hwanted⟩

/--
As long as the statements succeed, the players that are being saved are spared and no module is loaded
before the queued saves of the player have written it, the callbacks get what the last updates
supplied.
-/
theorem passesCurrent_of_run (hlong : SqlServer.ComparesLongs) (hdb : Loadable columns db)
    (hinit : init maxNum cleanSize db = some (true, s₀))
    (hrun : Run (stepOf step)
      (fun s a => SqlSucceeds a ∧ s.SparesSaved a ∧ ReadsSaved columns s.shared a) s₀ as s)
    : s.PassesCurrent := by
  intro s' c cs d hcallback hcs _ hd action haction
  obtain ⟨maxSize, hR⟩ := refines_init hinit
  have hnext : ∀ s a s', (∃ t, Refines maxSize cleanSize s t ∧ CopiesInv columns t)
      → SqlSucceeds a ∧ s.SparesSaved a ∧ ReadsSaved columns s.shared a → stepOf step s a s'
      → ∃ t, Refines maxSize cleanSize s' t ∧ CopiesInv columns t := by
    rintro s a s' ⟨t, hR, V⟩ ⟨hsql, hspares, hsaved⟩ hstep
    obtain ⟨t', hstep', hR'⟩ := simulates maxSize cleanSize _ _ _ _ hR trivial hstep
    exact ⟨t', hR', hstep'.copiesInv V hlong hsql (sparesUpdates_of_sparesSaved hR hspares)
      (hR.2.2 ▸ hsaved)⟩
  have hlast := hrun.invariant (fun s => ∃ t, Refines maxSize cleanSize s t ∧ CopiesInv columns t)
    ⟨_, hR, copiesInv_initial hdb⟩ hnext
  obtain ⟨t, hR, V⟩ := hnext s .callback s' hlast ⟨trivial, trivial, trivial⟩ hcallback
  rw [hR.2.2] at hcs ⊢
  exact current_of_inv V (hcs ▸ List.mem_cons_self) hd haction

end runs

def reloadPlayer : List Action :=
  [.loadChar 8 false, .loadChar 7 true, .loadModule 2 .success, .loadModule 2 .success,
    .loadModule 2 .success, .loadModule 2 .success, .setData 2, .startCallbacks 2]

def queueLevel : List Action :=
  saveLevel ++ [.updateModuleData, .setDirty, .tick, .saveNextDirty]

theorem passesCurrent_counterexample
    : ¬ ∀ [DataUtil] [SqlServer] (maxNum cleanSize : Int) (db : Database)
        (s₀ s : DataManager (DbCache Nat) (MulSearch Nat)) (as : List Action),
        init maxNum cleanSize db = some (true, s₀)
          → Run (stepOf step) (fun _ a => SqlSucceeds a) s₀ as s → s.PassesCurrent := by
  intro h
  let _ : DataUtil := CommonModule.rowDigest
  let _ : SqlServer := CommonModule.numericServer
  obtain ⟨s₀, s, hinit, hrun, hcheck⟩ := @exists_guarded_run _ _ 0 1
    (fun _ => [CommonModule.levelRow 1]) (queueLevel ++ reloadPlayer) (fun _ _ => true) (fun s =>
      s.callback.any fun s' =>
        s'.shared.loads.completions.head?.any (fun c =>
          c.running && c.charData = some 2 && c.charId = 7)
        && (s'.shared.objs 2).getModuleData .player = some [CommonModule.levelRow 1]
        && s'.shared.wanted 7 .player = [CommonModule.levelRow 2]) (by decide +kernel)
  have hsql := hrun.label (P := SqlSucceeds)
    (by simp [queueLevel, saveLevel, loadPlayer, reloadPlayer, SqlSucceeds])
  obtain ⟨s', hcallback, hcheck⟩ := (Option.any_eq_true _ _).mp hcheck
  simp only [Bool.and_eq_true, decide_eq_true_eq] at hcheck
  obtain ⟨⟨hhead, hshown⟩, hwanted⟩ := hcheck
  obtain ⟨c, hc, hcheck⟩ := (Option.any_eq_true _ _).mp hhead
  simp only [Bool.and_eq_true, decide_eq_true_eq] at hcheck
  obtain ⟨⟨hrunning, hd⟩, hchar⟩ := hcheck
  obtain ⟨cs, hcs⟩ := List.head?_eq_some_iff.mp hc
  obtain ⟨rows, hrows, hperm⟩ := h 0 1 _ s₀ s _ hinit hsql s' c cs 2 hcallback hcs hrunning hd .player
    (by simp [entries])
  obtain rfl := Option.some.inj (hshown.symm.trans hrows)
  rw [hchar, hwanted, List.singleton_perm_singleton] at hperm
  revert hperm
  decide

def levelTable : Database := fun table => if table = "player" then [CommonModule.levelRow 1] else []

def levelColumns (_ : DBAction) : Finset String := {"player_id", "level"}

theorem levelRow_fits [SqlServer] {k level : Int}
    (howned : DBUtil.owns "player_id" (.long k) (CommonModule.levelRow level) = true)
    : DBUtil.Fits (levelColumns .player) (keyList .player) "player_id" (.long k)
        (CommonModule.levelRow level) := by
  have hplayer : (CommonModule.levelRow level).get "player_id" = .long 7 := by
    simp [CommonModule.levelRow, MapObject.get]
  constructor
  case columns =>
    ext key
    rw [Finmap.mem_keys]
    simp [CommonModule.levelRow, levelColumns, or_comm]
  case keys =>
    intro key hkey
    obtain rfl : key = "player_id" := by simpa [keyList, tables] using hkey
    simp [hplayer]
  case owned => exact howned

theorem levelTable_loadable [SqlServer] : Loadable levelColumns levelTable := by
  intro k action haction
  cases action with
  | player =>
    have hrows : storedRows levelTable k .player
        = if DBUtil.owns "player_id" (.long k) (CommonModule.levelRow 1) then
            [CommonModule.levelRow 1]
          else
            [] := by
      rw [storedRows_eq rfl]
      show [CommonModule.levelRow 1].filter (DBUtil.owns "player_id" (.long k)) = _
      exact List.filter_singleton.trans (Bool.cond_eq_ite _ _ _)
    rw [hrows]
    split
    case isTrue howned =>
      refine ⟨?_, List.nodup_singleton _, List.pairwise_singleton _ _⟩
      intro row hrow
      obtain rfl := List.mem_singleton.mp hrow
      exact levelRow_fits howned
    case isFalse => simp [DbRecord.Distinct]
  | _ => simp [storedRows, tables, levelTable, DbRecord.Distinct]

def suppliesLevel [DataUtil] (s : Shared) : Action → Bool
  | .loadModule _ _ => s.saves.tasks.isEmpty
  | .updateModuleData =>
    match s.saves.check with
    | .queried _ d action data =>
      action = .player && (s.objs d).charId = 7
        && Shared.suppliedRows 7 .player data = some [CommonModule.levelRow 2]
        && ((s.objs d).records .player).map DbRecord.data = [CommonModule.levelRow 1]
        && ((s.objs d).records .player).all
          (·.key ≠ DataUtil.crc32 (CommonModule.levelRow 2))
    | _ => true
  | _ => true

theorem readsSaved_of_suppliesLevel
    : letI := CommonModule.rowDigest
      letI := CommonModule.numericServer
      ∀ (s : Shared) (a : Action), suppliesLevel s a = true → ReadsSaved levelColumns s a := by
  let _ : DataUtil := CommonModule.rowDigest
  let _ : SqlServer := CommonModule.numericServer
  intro s a h
  cases a with
  | updateModuleData =>
    intro p d action data rows hcheck hrows
    simp only [suppliesLevel, hcheck, Bool.and_eq_true, decide_eq_true_eq] at h
    obtain ⟨⟨⟨⟨rfl, hchar⟩, hsupplied⟩, hdata⟩, hkeys⟩ := h
    rw [hchar] at hrows
    obtain rfl := Option.some.inj (hsupplied.symm.trans hrows)
    constructor
    case fits =>
      intro row hrow
      obtain rfl := List.mem_singleton.mp hrow
      rw [hchar]
      exact levelRow_fits rfl
    case distinct => exact List.pairwise_singleton _ _
    case agree =>
      rw [hdata]
      unfold DbRecord.Agree
      decide +kernel
    case keeps =>
      intro row hrow r hr hkeeps
      obtain rfl := List.mem_singleton.mp hrow
      have hne := List.all_eq_true.mp hkeys r hr
      exact absurd hkeeps.2 (by simpa using hne)
  | loadModule load outcome =>
    intro task action todo _ _ _ save hsave
    simp [List.isEmpty_iff.mp h] at hsave
  | _ => trivial

def saveQueued : List Action :=
  [.saveUpdates 0 true, .saveDeletes 0 true, .saveUpdates 0 true, .saveDeletes 0 true,
    .saveUpdates 0 true, .saveDeletes 0 true, .saveUpdates 0 true, .saveDeletes 0 true, .endSave 0]

theorem passesCurrent_of_run_reloadPlayer
    : letI := CommonModule.rowDigest
      letI := CommonModule.numericServer
      ∃ s₀ s, init 0 1 levelTable = some (true, s₀)
        ∧ Run (stepOf step)
          (fun s a => SqlSucceeds a ∧ s.SparesSaved a ∧ ReadsSaved levelColumns s.shared a) s₀
          (queueLevel ++ saveQueued ++ reloadPlayer) s
        ∧ s.PassesCurrent := by
  let _ : DataUtil := CommonModule.rowDigest
  let _ : SqlServer := CommonModule.numericServer
  have hlong : SqlServer.ComparesLongs := fun a b h => Value.long.inj (Option.some.inj h)
  have hok : ∀ s a, (savesApart s a && suppliesLevel s.shared a) = true
      → SqlSucceeds a ∧ s.SparesSaved a ∧ ReadsSaved levelColumns s.shared a := by
    intro s a h
    obtain ⟨hapart, hsupplies⟩ := Bool.and_eq_true_iff.mp h
    obtain ⟨hsql, hspares⟩ := sparesSaved_of_savesApart hapart
    exact ⟨hsql, hspares, readsSaved_of_suppliesLevel s.shared a hsupplies⟩
  obtain ⟨s₀, s, hinit, hrun, -⟩ := @exists_guarded_run _ _ 0 1 levelTable
    (queueLevel ++ saveQueued ++ reloadPlayer) (fun s a => savesApart s a && suppliesLevel s.shared a)
    (fun _ => true) (by decide +kernel)
  have hrun := hrun.weaken hok
  exact ⟨s₀, s, hinit, hrun, passesCurrent_of_run hlong levelTable_loadable hinit hrun⟩

end DataManager

end WzGame
