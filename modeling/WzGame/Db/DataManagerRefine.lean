import WzGame.Db.DataManagerSpec
import WzGame.Db.Cache.DbCacheLemmas.Refine
import WzGame.Db.Cache.DbCacheRuns
import WzGame.Db.Cache.MulSearchLemmas

/-!
This module contains that the steps of a `DataManager` are the ones that its specification names.
-/

namespace WzGame

open Runs

namespace DataManager

section cache

variable {maxSize maxClean : Int} {c c' : DbCache Nat} {m : LruMap Int Nat} {k : Int}

theorem occupy_step (hR : DbCache.Refines maxSize maxClean c m) {b : Bool}
    (h : c.occupy k = some (b, c'))
    : ∃ m', LruMap.Step maxSize maxClean m (.occupy k, .bool b) m'
        ∧ DbCache.Refines maxSize maxClean c' m' :=
  DbCache.occupy_simulate hR (by simp [DbCache.exec, h])

theorem query_step (hR : DbCache.Refines maxSize maxClean c m) {d : Option Nat}
    (h : c.query k = some (d, c'))
    : ∃ m', LruMap.Step maxSize maxClean m (.query k, .data d) m'
        ∧ DbCache.Refines maxSize maxClean c' m' :=
  DbCache.query_simulate hR (by simp [DbCache.exec, h])

theorem setData_step (hR : DbCache.Refines maxSize maxClean c m) {data d : Option Nat}
    (h : c.setData k data = some (d, c'))
    : ∃ m', LruMap.Step maxSize maxClean m (.setData k data, .data d) m'
        ∧ DbCache.Refines maxSize maxClean c' m' :=
  DbCache.setData_simulate hR (by simp [DbCache.exec, h])

theorem setDirty_step (hR : DbCache.Refines maxSize maxClean c m) {b : Bool}
    (h : c.setDirty k = some (b, c'))
    : ∃ m', LruMap.Step maxSize maxClean m (.setDirty k, .bool b) m'
        ∧ DbCache.Refines maxSize maxClean c' m' :=
  DbCache.setDirty_simulate hR (by simp [DbCache.exec, h])

theorem getNextDirtyNodeAndClean_step (hR : DbCache.Refines maxSize maxClean c m) {d : Option Nat}
    (h : c.getNextDirtyNodeAndClean = some (d, c'))
    : ∃ m', LruMap.Step maxSize maxClean m (.getNextDirtyNodeAndClean, .data d) m'
        ∧ DbCache.Refines maxSize maxClean c' m' :=
  DbCache.getNextDirtyNodeAndClean_simulate hR (by simp [DbCache.exec, h])

end cache

def Refines [DataUtil] (maxSize maxClean : Int) (s : DataManager (DbCache Nat) (MulSearch Nat))
    (t : Spec) : Prop :=
  DbCache.Refines maxSize maxClean s.dataCache t.dataCache ∧ s.queryCache.Holds t.queryCache
    ∧ s.shared = t.shared

variable [DataUtil] [SqlServer] {maxSize maxClean : Int}
  {s s' : DataManager (DbCache Nat) (MulSearch Nat)} {t : Spec}

theorem loadChar_simulate (hR : Refines maxSize maxClean s t) {charId : Int} {callBack : Bool}
    (h : s.loadChar charId callBack = some s')
    : ∃ t', Step maxSize maxClean t (.loadChar charId callBack) t'
        ∧ Refines maxSize maxClean s' t' := by
  obtain ⟨hcache, H, hshared⟩ := hR
  unfold loadChar at h
  rw [hshared] at h
  split at h
  case isFalse => contradiction
  next hunlocked =>
  obtain ⟨iterator, hsearch, h⟩ := Option.bind_eq_some_iff.mp h
  obtain ⟨b, hb⟩ : ∃ b, s.queryCache.pos charId = some b := by
    unfold MulSearch.search at hsearch
    obtain ⟨b, hb, -⟩ := Option.bind_eq_some_iff.mp hsearch
    exact ⟨b, hb⟩
  rw [H.search_eq hb] at hsearch
  obtain rfl := Option.some.inj hsearch
  obtain ⟨queryCache, hadd, hsize, -, H'⟩ := H.addKey_eq hb
    (if callBack = true then some t.shared.loads.calls.length else none)
  simp only [hadd, Option.bind_eq_bind, Option.bind_some, if_true] at h
  have hb' : queryCache.pos charId = some b := by
    rw [← hb]
    unfold MulSearch.pos
    rw [hsize]
  cases hqueue : t.queryCache.search charId with
  | some node =>
    obtain rfl : _ = s' := by simpa [hqueue] using h
    refine ⟨_, .join hunlocked ?_, hcache, H', rfl⟩
    intro hempty
    simp [KeyQueues.search, hempty] at hqueue
  | none =>
    have hempty := MulSearch.Holds.search_none.mp hqueue
    rw [hqueue] at h
    obtain ⟨held, hheld, h⟩ := Option.bind_eq_some_iff.mp h
    obtain ⟨⟨occupied, dataCache⟩, hoccupy, h⟩ := Option.bind_eq_some_iff.mp h
    obtain ⟨m', hstep, hcache'⟩ := occupy_step hcache hoccupy
    cases occupied with
    | true =>
      obtain rfl : _ = s' := by simpa using h
      exact ⟨_, .startLoad hunlocked hempty (DbCache.hashFind_held hcache hheld) hstep, hcache', H',
        rfl⟩
    | false =>
      obtain ⟨found, queryCache', hdelete, -, -, H''⟩ := H'.deleteKey_eq hb'
      obtain rfl : _ = s' := by simpa [hdelete] using h
      obtain rfl : m' = t.dataCache := by
        cases hstep
        rfl
      exact ⟨_, .refuse hunlocked hempty hstep, hcache', H'', rfl⟩

theorem setData_simulate (hR : Refines maxSize maxClean s t) {load : Nat}
    (h : s.setData load = some s')
    : ∃ t', Step maxSize maxClean t (.setData load) t' ∧ Refines maxSize maxClean s' t' := by
  obtain ⟨hcache, H, hshared⟩ := hR
  unfold setData at h
  rw [hshared] at h
  obtain ⟨task, htask, h⟩ := Option.bind_eq_some_iff.mp h
  obtain ⟨charData, hloaded, h⟩ := Option.bind_eq_some_iff.mp h
  obtain ⟨⟨out, dataCache⟩, hset, h⟩ := Option.bind_eq_some_iff.mp h
  obtain ⟨m', hstep, hcache'⟩ := setData_step hcache hset
  obtain rfl := Option.some.inj h
  exact ⟨_, .setData htask hloaded hstep, hcache', H, rfl⟩

theorem startCallbacks_simulate (hR : Refines maxSize maxClean s t) {load : Nat}
    (h : s.startCallbacks load = some s')
    : ∃ t', Step maxSize maxClean t (.startCallbacks load) t' ∧ Refines maxSize maxClean s' t' := by
  obtain ⟨hcache, H, hshared⟩ := hR
  unfold startCallbacks at h
  rw [hshared] at h
  obtain ⟨task, htask, h⟩ := Option.bind_eq_some_iff.mp h
  split at h
  case h_2 => contradiction
  next charData hphase =>
  split at h
  case isFalse => contradiction
  next hmay =>
  obtain ⟨subIter, hsearch, h⟩ := Option.bind_eq_some_iff.mp h
  obtain ⟨b, hb⟩ : ∃ b, s.queryCache.pos task.charId = some b := by
    unfold MulSearch.search at hsearch
    obtain ⟨b, hb, -⟩ := Option.bind_eq_some_iff.mp hsearch
    exact ⟨b, hb⟩
  rw [H.search_eq hb] at hsearch
  obtain rfl := Option.some.inj hsearch
  obtain rfl := Option.some.inj h
  exact ⟨_, .startCallbacks htask hphase hmay, hcache, H, rfl⟩

theorem callback_simulate (hR : Refines maxSize maxClean s t) (h : s.callback = some s')
    : ∃ t', Step maxSize maxClean t .callback t' ∧ Refines maxSize maxClean s' t' := by
  obtain ⟨hcache, H, hshared⟩ := hR
  unfold callback at h
  rw [hshared, H.data] at h
  split at h
  case h_2 => contradiction
  next c cs hcs =>
  split at h
  case h_2 => contradiction
  next subIter hsub hrunning =>
  split at h
  . next call hcall =>
    obtain rfl := Option.some.inj h
    exact ⟨_, .callback hcs hsub hrunning hcall, hcache, H, rfl⟩
  . next hcall =>
    obtain rfl := Option.some.inj h
    rw [H.sameNext_eq]
    exact ⟨_, .noCallback hcs hsub hrunning hcall, hcache, H, rfl⟩

theorem callbackReturns_simulate (hR : Refines maxSize maxClean s t) {threw : Bool}
    (h : s.callbackReturns threw = some s')
    : ∃ t', Step maxSize maxClean t (.callbackReturns threw) t'
        ∧ Refines maxSize maxClean s' t' := by
  obtain ⟨hcache, H, hshared⟩ := hR
  unfold callbackReturns at h
  rw [hshared] at h
  split at h
  case h_2 => contradiction
  next c cs hcs =>
  split at h
  case h_2 => contradiction
  next subIter hsub hrunning =>
  cases threw with
  | true =>
    obtain rfl := Option.some.inj h
    exact ⟨_, .throws hcs hsub hrunning, hcache, H, rfl⟩
  | false =>
    obtain rfl := Option.some.inj h
    rw [H.sameNext_eq]
    exact ⟨_, .returns hcs hsub hrunning, hcache, H, rfl⟩

theorem deleteKey_simulate (hR : Refines maxSize maxClean s t) (h : s.deleteKey = some s')
    : ∃ t', Step maxSize maxClean t .deleteKey t' ∧ Refines maxSize maxClean s' t' := by
  obtain ⟨hcache, H, hshared⟩ := hR
  unfold deleteKey at h
  rw [hshared] at h
  split at h
  case h_2 => contradiction
  next c cs hcs =>
  split at h
  case h_2 => contradiction
  next hsub hrunning =>
  obtain ⟨⟨found, queryCache⟩, hdelete, h⟩ := Option.bind_eq_some_iff.mp h
  obtain ⟨b, hb⟩ : ∃ b, s.queryCache.pos c.charId = some b := by
    unfold MulSearch.deleteKey at hdelete
    obtain ⟨b, hb, -⟩ := Option.bind_eq_some_iff.mp hdelete
    exact ⟨b, hb⟩
  obtain ⟨found', queryCache', hdelete', -, -, H'⟩ := H.deleteKey_eq hb
  rw [hdelete'] at hdelete
  obtain ⟨rfl, rfl⟩ := Prod.mk.inj (Option.some.inj hdelete)
  obtain rfl := Option.some.inj h
  exact ⟨_, .deleteKey hcs hsub hrunning, hcache, H', rfl⟩

theorem saveModule_simulate (hR : Refines maxSize maxClean s t) {playerId : Int} {action : DBAction}
    {data : Option ModuleData} (h : s.saveModule playerId action data = some s')
    : ∃ t', Step maxSize maxClean t (.saveModule playerId action data) t'
        ∧ Refines maxSize maxClean s' t' := by
  obtain ⟨hcache, H, hshared⟩ := hR
  unfold saveModule at h
  rw [hshared] at h
  split at h
  case h_2 => contradiction
  next hidle =>
  obtain ⟨⟨charData, dataCache⟩, hquery, h⟩ := Option.bind_eq_some_iff.mp h
  obtain ⟨m', hstep, hcache'⟩ := query_step hcache hquery
  cases charData with
  | none =>
    obtain rfl := Option.some.inj h
    cases hstep with
    | queryMiss hnone => exact ⟨_, .saveMiss hidle hnone, hcache', H, rfl⟩
  | some charData =>
    obtain rfl := Option.some.inj h
    exact ⟨_, .saveHit hidle hstep, hcache', H, rfl⟩

theorem setDirty_simulate (hR : Refines maxSize maxClean s t) (h : s.setDirty = some s')
    : ∃ t', Step maxSize maxClean t .setDirty t' ∧ Refines maxSize maxClean s' t' := by
  obtain ⟨hcache, H, hshared⟩ := hR
  unfold setDirty at h
  rw [hshared] at h
  split at h
  case h_2 => contradiction
  next playerId charData hcheck =>
  obtain ⟨⟨b, dataCache⟩, hset, h⟩ := Option.bind_eq_some_iff.mp h
  obtain ⟨m', hstep, hcache'⟩ := setDirty_step hcache hset
  obtain rfl := Option.some.inj h
  exact ⟨_, .setDirty hcheck hstep, hcache', H, rfl⟩

theorem saveNextDirty_simulate (hR : Refines maxSize maxClean s t) (h : s.saveNextDirty = some s')
    : ∃ t', Step maxSize maxClean t .saveNextDirty t' ∧ Refines maxSize maxClean s' t' := by
  obtain ⟨hcache, H, hshared⟩ := hR
  unfold saveNextDirty at h
  rw [hshared] at h
  split at h
  case h_2 => contradiction
  next left hcheck =>
  obtain ⟨⟨data, dataCache⟩, hnext, h⟩ := Option.bind_eq_some_iff.mp h
  obtain ⟨m', hstep, hcache'⟩ := getNextDirtyNodeAndClean_step hcache hnext
  cases data with
  | none =>
    obtain rfl := Option.some.inj h
    cases hstep with
    | nextEmpty hempty => exact ⟨_, .saveNone hcheck hempty, hcache', H, rfl⟩
  | some charData =>
    obtain rfl := Option.some.inj h
    exact ⟨_, .saveNext hcheck hstep, hcache', H, rfl⟩

theorem simulates (maxSize maxClean : Int)
    : Simulates (stepOf step) anyLabel (Step maxSize maxClean) (Refines maxSize maxClean) := by
  intro s t a s' hR _ h
  obtain ⟨hcache, H, hshared⟩ := id hR
  -- the steps that only change what the threads share
  have hmap : ∀ {o : Option Shared}, o.map (fun shared => { s with shared := shared }) = some s'
      → ∃ shared, o = some shared ∧ Refines maxSize maxClean s' { t with shared := shared } := by
    intro o ho
    obtain ⟨shared, hshared', rfl⟩ := Option.map_eq_some_iff.mp ho
    exact ⟨shared, hshared', hcache, H, rfl⟩
  cases a with
  | loadChar charId callBack => exact loadChar_simulate hR h
  | loadModule load outcome =>
    obtain ⟨shared, hstep, hR'⟩ := hmap h
    rw [hshared] at hstep
    exact ⟨_, .loadModule hstep, hR'⟩
  | setData load => exact setData_simulate hR h
  | startCallbacks load => exact startCallbacks_simulate hR h
  | callback => exact callback_simulate hR h
  | callbackReturns threw => exact callbackReturns_simulate hR h
  | deleteKey => exact deleteKey_simulate hR h
  | saveModule playerId action data => exact saveModule_simulate hR h
  | updateModuleData =>
    obtain ⟨shared, hstep, hR'⟩ := hmap h
    rw [hshared] at hstep
    exact ⟨_, .updateModuleData hstep, hR'⟩
  | setDirty => exact setDirty_simulate hR h
  | tick =>
    obtain ⟨saves, hstep, rfl⟩ := Option.map_eq_some_iff.mp h
    rw [hshared] at hstep
    exact ⟨_, .tick hstep, hcache, H, by rw [hshared]⟩
  | saveNextDirty => exact saveNextDirty_simulate hR h
  | saveUpdates task succeeds =>
    obtain ⟨shared, hstep, hR'⟩ := hmap h
    rw [hshared] at hstep
    exact ⟨_, .saveUpdates hstep, hR'⟩
  | saveDeletes task succeeds =>
    obtain ⟨shared, hstep, hR'⟩ := hmap h
    rw [hshared] at hstep
    exact ⟨_, .saveDeletes hstep, hR'⟩
  | endSave task =>
    obtain ⟨saves, hstep, rfl⟩ := Option.map_eq_some_iff.mp h
    rw [hshared] at hstep
    exact ⟨_, .endSave hstep, hcache, H, by rw [hshared]⟩

end DataManager

end WzGame
