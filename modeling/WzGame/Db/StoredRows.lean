import WzGame.Db.CharData
import WzGame.Db.Data.DbRecordSynced

/-!
This module contains what a save of one module of a character does to the stored rows of all modules.
-/

namespace WzGame

open DBUtil DbRecord KeyedList

def SqlServer.ComparesLongs [SqlServer] : Prop :=
  ∀ a b : Int, SqlServer.columnKey (.long a) = SqlServer.columnKey (.long b) → a = b

namespace CharData

section

variable {action action' : DBAction} {table : String} {keys keys' : List String}

def keyList (action : DBAction) : List String := (tables action).elim [] Prod.snd

theorem keyList_eq (h : tables action = some (table, keys)) : keyList action = keys := by
  simp [keyList, h]

theorem player_id_mem (h : tables action = some (table, keys)) : "player_id" ∈ keys := by
  cases action <;> simp [tables] at h <;> simp [← h.2]

theorem tables_inj (h : tables action = some (table, keys))
    (h' : tables action' = some (table, keys'))
    : action = action' := by
  have hsame : (tables action).map Prod.fst = (tables action').map Prod.fst := by
    rw [h, h']
    rfl
  cases action <;> cases action' <;> first | rfl | simp [tables] at hsame

end

section

variable [SqlServer] {action : DBAction} {table : String} {keys : List String} {db db' : Database}
  {k : Int}

theorem storedRows_eq (h : tables action = some (table, keys))
    : storedRows db k action = (db table).filter (owns "player_id" (.long k)) := by
  unfold storedRows
  rw [h]
  rfl

theorem not_owns {k' : Int} {row : MapObject} (hlong : SqlServer.ComparesLongs) (hne : k' ≠ k)
    (h : owns "player_id" (.long k') row = true)
    : owns "player_id" (.long k) row = false := by
  unfold owns at h ⊢
  rw [sqlEq_of_ne_null (by simp)] at h ⊢
  simp only [decide_eq_true_eq, decide_eq_false_iff_not] at h ⊢
  rw [h]
  exact fun heq => hne (hlong _ _ heq)

theorem storedRows_other (hlong : SqlServer.ComparesLongs) (h : tables action = some (table, keys))
    (hnot : (db' table).filter (fun row => !owns "player_id" (.long k) row)
      = (db table).filter (fun row => !owns "player_id" (.long k) row))
    (htables : ∀ table' ≠ table, db' table' = db table') {k' : Int} {action' : DBAction}
    (hne : ¬ (k' = k ∧ action' = action))
    : storedRows db' k' action' = storedRows db k' action' := by
  cases h' : tables action' with
  | none => simp [storedRows, h']
  | some entry =>
    obtain ⟨table', keys'⟩ := entry
    rw [storedRows_eq h', storedRows_eq h']
    by_cases htable : table' = table
    . subst htable
      have hk : k' ≠ k := fun hk => hne ⟨hk, tables_inj h' h⟩
      have hsub : ∀ rows : List MapObject, rows.filter (owns "player_id" (.long k'))
          = (rows.filter fun row => !owns "player_id" (.long k) row).filter
            (owns "player_id" (.long k')) := by
        intro rows
        rw [List.filter_filter]
        apply List.filter_congr
        intro row _
        cases howns : owns "player_id" (.long k') row with
        | false => rfl
        | true => simp [not_owns hlong hk howns]
      rw [hsub, hnot, ← hsub]
    . rw [htables table' htable]

variable [DataUtil] {columns : Finset String} {records : List DbRecord}

theorem storedRows_saveUpdates (hlong : SqlServer.ComparesLongs)
    (h : tables action = some (table, keys))
    (hrecords : updates records = []
      ∨ Synced columns keys "player_id" (.long k) records (storedRows db k action)) {succeeds : Bool}
    (hsave : saveUpdates records table keys succeeds db = some db')
    : storedRows db' k action
          = (updates records).foldl (upsert (sqlKey keys)) (storedRows db k action)
        ∧ ∀ k' action', ¬ (k' = k ∧ action' = action)
          → storedRows db' k' action' = storedRows db k' action' := by
  rcases hrecords with hempty | hsynced
  . unfold saveUpdates at hsave
    rw [if_pos hempty] at hsave
    obtain rfl := Option.some.inj hsave
    rw [hempty]
    exact ⟨rfl, fun _ _ _ => rfl⟩
  . rw [storedRows_eq h] at hsynced ⊢
    rw [storedRows_eq h]
    obtain ⟨hown, hnot, htables⟩ := saveUpdates_eq (player_id_mem h) hsynced hsave
    exact ⟨hown, fun k' action' hne => storedRows_other hlong h hnot htables hne⟩

theorem storedRows_saveDeletes (hlong : SqlServer.ComparesLongs)
    (h : tables action = some (table, keys))
    (hrecords : deletes records = []
      ∨ Synced columns keys "player_id" (.long k) records (storedRows db k action)) {succeeds : Bool}
    {records' : List DbRecord}
    (hsave : saveDeletes records table keys succeeds db = some (db', records'))
    : storedRows db' k action
          = (deletes records).foldl (KeyedList.remove (sqlKey keys)) (storedRows db k action)
        ∧ ∀ k' action', ¬ (k' = k ∧ action' = action)
          → storedRows db' k' action' = storedRows db k' action' := by
  rcases hrecords with hempty | hsynced
  . unfold saveDeletes at hsave
    rw [if_pos hempty] at hsave
    obtain ⟨rfl, -⟩ := Prod.mk.inj (Option.some.inj hsave)
    rw [hempty]
    exact ⟨rfl, fun _ _ _ => rfl⟩
  . rw [storedRows_eq h] at hsynced ⊢
    rw [storedRows_eq h]
    obtain ⟨-, hown, hnot, htables⟩ := saveDeletes_eq (player_id_mem h) hsynced hsave
    exact ⟨hown, fun k' action' hne => storedRows_other hlong h hnot htables hne⟩

end

end CharData

end WzGame
