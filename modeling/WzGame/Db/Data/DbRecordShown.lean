import WzGame.Db.Data.Module.CommonModuleView

/-!
This module contains what a module shows after an update, when no two of its records have the same
key.
-/

namespace WzGame

open MapObject

namespace DbRecord

variable [DataUtil] {keys : List String} {records records' : List DbRecord}
  {rows : List MapObject} {row x : MapObject}

def Keeps (keys : List String) (row : MapObject) (r : DbRecord) : Prop :=
  sameRecord row r.data keys = some true ∧ r.key = DataUtil.crc32 row

instance : DecidablePred (Keeps keys row) :=
  fun _ => inferInstanceAs (Decidable (_ ∧ _))

def shown (keys : List String) (records : List DbRecord) (row : MapObject) : Option MapObject :=
  match records.find? fun r => Keeps keys row r with
  | none => some row
  | some r => if r.stat = .delete then none else some r.data

theorem keeps_iff {r : DbRecord} (hkeys : HasKeys keys row)
    : Keeps keys row r ↔ id keys r = rowKey keys row ∧ r.key = DataUtil.crc32 row := by
  unfold Keeps
  rw [sameRecord_eq r.data hkeys]
  simp [id, eq_comm]

theorem rowKey_shown (hkeys : HasKeys keys row) (h : shown keys records row = some x)
    : rowKey keys x = rowKey keys row := by
  unfold shown at h
  split at h
  . rw [Option.some.inj h]
  . next r hfind =>
    have hkeeps : Keeps keys row r := by simpa using List.find?_some hfind
    split at h
    . contradiction
    . rw [← Option.some.inj h]
      exact ((keeps_iff hkeys).mp hkeeps).1

theorem shown_iff {P : MapObject → Prop} {Q : Prop} (hkeys : HasKeys keys row)
    (hids : (records.map (id keys)).Nodup) (hrow : P row ↔ Q) (hdata : ∀ x, P x → Q)
    : (∃ x, shown keys records row = some x ∧ P x)
        ↔ Q ∧ ∀ r ∈ records, Keeps keys row r → r.stat ≠ .delete ∧ P r.data := by
  unfold shown
  split
  . next hnone =>
    have hnone : ∀ r ∈ records, ¬ Keeps keys row r := by simpa using hnone
    constructor
    . rintro ⟨x, hx, hP⟩
      obtain rfl := Option.some.inj hx
      exact ⟨hrow.mp hP, fun r hr hkeeps => absurd hkeeps (hnone r hr)⟩
    . rintro ⟨hQ, -⟩
      exact ⟨row, rfl, hrow.mpr hQ⟩
  . next r hfind =>
    have hr := List.mem_of_find?_eq_some hfind
    have hkeeps : Keeps keys row r := by simpa using List.find?_some hfind
    have hunique : ∀ r' ∈ records, Keeps keys row r' → r' = r := by
      intro r' hr' hkeeps'
      apply List.inj_on_of_nodup_map hids hr' hr
      rw [((keeps_iff hkeys).mp hkeeps').1, ((keeps_iff hkeys).mp hkeeps).1]
    constructor
    . rintro ⟨x, hx, hP⟩
      split at hx
      . contradiction
      . next hstat =>
        obtain rfl := Option.some.inj hx
        refine ⟨hdata _ hP, ?_⟩
        intro r' hr' hkeeps'
        obtain rfl := hunique r' hr' hkeeps'
        exact ⟨hstat, hP⟩
    . rintro ⟨-, hkept⟩
      obtain ⟨hstat, hP⟩ := hkept r hr hkeeps
      exact ⟨r.data, by simp [hstat], hP⟩

theorem view_merged_eq {r : DbRecord} (hkeys : HasKeys keys row)
    (hr : (records.filter fun r => id keys r = rowKey keys row) = [r])
    : view [merged r (ofData row)] = (shown keys records row).toList := by
  have hmem : r ∈ records ∧ id keys r = rowKey keys row := by
    have : r ∈ records.filter fun r => id keys r = rowKey keys row := by simp [hr]
    simpa using this
  have hfind : records.find? (fun r => Keeps keys row r)
      = if r.key = DataUtil.crc32 row then some r else none := by
    have heq : (fun r => decide (Keeps keys row r))
        = fun r => decide (decide (id keys r = rowKey keys row) = true
          ∧ decide (r.key = DataUtil.crc32 row) = true) := by
      funext r
      simp [keeps_iff hkeys]
    rw [heq, ← List.find?_filter, hr]
    by_cases hkey : r.key = DataUtil.crc32 row <;> simp [hkey]
  unfold shown merged ofData
  rw [hfind]
  by_cases hkey : r.key = DataUtil.crc32 row
  . by_cases hstat : r.stat = .delete <;> simp [hkey, hstat, view]
  . simp [hkey, view]

theorem nodup_view (hids : (records.map (id keys)).Nodup) : (view records).Nodup := by
  apply List.Nodup.of_map (rowKey keys)
  have hsub := (List.filter_sublist (p := fun r : DbRecord => r.stat ≠ .delete)
    (l := records)).map (id keys)
  rw [view, List.map_map]
  exact hids.sublist hsub

theorem length_filter_id_le (hids : (records.map (id keys)).Nodup) (i : List KeyValue)
    : (records.filter fun r => id keys r = i).length ≤ 1 := by
  have hall : (records.filter fun r => id keys r = i).map (id keys)
      = List.replicate (records.filter fun r => id keys r = i).length i := by
    rw [← List.length_map (id keys)]
    apply List.eq_replicate_of_mem
    intro j hj
    obtain ⟨r, hr, rfl⟩ := List.mem_map.mp hj
    simpa using (List.mem_filter.mp hr).2
  have hnodup := hids.sublist ((List.filter_sublist (p := fun r => id keys r = i)).map (id keys))
  rwa [hall, List.nodup_replicate] at hnodup

theorem mem_view_update (hkeys : ∀ row ∈ rows, HasKeys keys row)
    (hnodup : (rows.map (rowKey keys)).Nodup) (hids : (records.map (id keys)).Nodup)
    (hupdate : update records (some rows) keys false = .ok records')
    : (records'.map (id keys)).Nodup
        ∧ ∀ x, x ∈ view records' ↔ ∃ row ∈ rows, shown keys records row = some x := by
  obtain ⟨records'', hupdate', hids', hfibers, -⟩ := update_eq hkeys hnodup records
  obtain rfl : records' = records'' := Except.ok.inj (hupdate.symm.trans hupdate')
  constructor
  . rw [hids', List.nodup_append]
    refine ⟨hids, hnodup.filter _, ?_⟩
    rintro i hi j hj rfl
    exact absurd hi (by simpa using (List.mem_filter.mp hj).2)
  . intro x
    have hview : x ∈ view records' ↔ x ∈ view (updatedFiber
        (rows.find? fun row => rowKey keys row = rowKey keys x)
        (records.filter fun r => id keys r = rowKey keys x)) := by
      rw [← hfibers, ← filter_view]
      simp
    rw [hview]
    cases hrow : rows.find? (fun row => rowKey keys row = rowKey keys x) with
    | none =>
      simp only [updatedFiber, view_delete, List.not_mem_nil, false_iff]
      rintro ⟨row, hmem, hshown⟩
      have hkey := rowKey_shown (hkeys row hmem) hshown
      simpa [hkey] using List.find?_eq_none.mp hrow row hmem
    | some row =>
      have hmem := List.mem_of_find?_eq_some hrow
      have hkey : rowKey keys row = rowKey keys x := by simpa using List.find?_some hrow
      have hshown : (∃ row' ∈ rows, shown keys records row' = some x)
          ↔ shown keys records row = some x := by
        constructor
        . rintro ⟨row', hmem', hshown⟩
          have hkey' := rowKey_shown (hkeys row' hmem') hshown
          rwa [List.inj_on_of_nodup_map hnodup hmem' hmem (hkey'.symm.trans hkey.symm)] at hshown
        . intro hshown
          exact ⟨row, hmem, hshown⟩
      rw [hshown, ← hkey]
      have hlength := length_filter_id_le hids (rowKey keys row)
      cases hfiber : records.filter fun r => id keys r = rowKey keys row with
      | nil =>
        have hfind : records.find? (fun r => Keeps keys row r) = none := by
          apply List.find?_eq_none.mpr
          intro r hr hkeeps
          have hid := ((keeps_iff (hkeys row hmem)).mp (by simpa using hkeeps)).1
          simpa [hid] using List.filter_eq_nil_iff.mp hfiber r hr
        simp [updatedFiber, view, added, ofData, shown, hfind, eq_comm]
      | cons r rest =>
        obtain rfl : rest = [] := by simpa [hfiber] using hlength
        rw [updatedFiber, view_merged_eq (hkeys row hmem) hfiber]
        simp

theorem view_update_perm (hkeys : ∀ row ∈ rows, HasKeys keys row)
    (hnodup : (rows.map (rowKey keys)).Nodup) (hids : (records.map (id keys)).Nodup)
    (hkeeps : ∀ row ∈ rows, ∀ r ∈ records, Keeps keys row r → r.stat ≠ .delete ∧ r.data = row)
    (hupdate : update records (some rows) keys false = .ok records')
    : (view records').Perm rows := by
  obtain ⟨hids', hmem⟩ := mem_view_update hkeys hnodup hids hupdate
  have hshown : ∀ row ∈ rows, shown keys records row = some row := by
    intro row hrow
    unfold shown
    split
    . rfl
    . next r hfind =>
      obtain ⟨hstat, hdata⟩ := hkeeps row hrow r (List.mem_of_find?_eq_some hfind)
        (by simpa using List.find?_some hfind)
      rw [if_neg hstat, hdata]
  apply (List.perm_ext_iff_of_nodup (nodup_view hids') hnodup.of_map).mpr
  intro x
  rw [hmem]
  constructor
  . rintro ⟨row, hrow, h⟩
    obtain rfl := Option.some.inj ((hshown row hrow).symm.trans h)
    exact hrow
  . intro hx
    exact ⟨x, hx, hshown x hx⟩

theorem head?_view (hkeys : HasKeys keys row) (hids : (records.map (id keys)).Nodup)
    (hupdate : update records (some [row]) keys false = .ok records')
    : (view records').head? = shown keys records row := by
  obtain ⟨hids', hmem⟩ := mem_view_update (by simpa using hkeys) (by simp) hids hupdate
  have hnodup := nodup_view hids'
  have hshown : ∀ x, x ∈ view records' ↔ shown keys records row = some x := by
    intro x
    simpa using hmem x
  cases hview : view records' with
  | nil =>
    cases h : shown keys records row with
    | none => rfl
    | some x => simp [hview, h] at hshown
  | cons x V => exact ((hshown x).mp (by simp [hview])).symm

theorem stat_update (hkeys : ∀ row ∈ rows, HasKeys keys row)
    (hnodup : (rows.map (rowKey keys)).Nodup) (hrow : row ∈ rows)
    (hstat : ∀ r ∈ records, id keys r = rowKey keys row → r.stat ≠ .delete)
    (hupdate : update records (some rows) keys false = .ok records')
    : ∀ r ∈ records', id keys r = rowKey keys row → r.stat ≠ .delete := by
  intro r hr hid
  obtain ⟨records'', hupdate', -, hfibers, -⟩ := update_eq hkeys hnodup records
  obtain rfl : records' = records'' := Except.ok.inj (hupdate.symm.trans hupdate')
  have hmem : r ∈ records'.filter fun r => id keys r = rowKey keys row := by simp [hr, hid]
  rw [hfibers, find?_eq_some hnodup hrow] at hmem
  cases hfiber : records.filter fun r => id keys r = rowKey keys row with
  | nil =>
    simp only [hfiber, updatedFiber, List.mem_singleton] at hmem
    simp [hmem, added]
  | cons r₀ rest =>
    have hfiberStat : ∀ r ∈ r₀ :: rest, r.stat ≠ .delete := by
      intro r hr
      rw [← hfiber, List.mem_filter] at hr
      exact hstat r hr.1 (by simpa using hr.2)
    simp only [hfiber, updatedFiber, List.mem_cons] at hmem
    rcases hmem with rfl | hmem
    . unfold merged
      split
      . simp
      . exact hfiberStat r₀ (by simp)
    . exact hfiberStat r (by simp [hmem])

end DbRecord

end WzGame
