import WzGame.Util.Runs
import WzGame.Db.Cache.LruMap

/-!
This module contains what the steps of an `LruMap` do to one key, and where its data comes from.
-/

namespace WzGame

open Runs

namespace LruMap

variable {κ δ : Type} [DecidableEq κ] {maxSize maxClean : Int} {m m' : LruMap κ δ}

structure WF (m : LruMap κ δ) : Prop where
  loaded : ∀ k, m.Dirty k → m.data k ≠ none
  nodup : m.queue.Nodup

omit [DecidableEq κ] in
theorem wf_empty : (empty : LruMap κ δ).WF := ⟨by simp [Dirty, empty], List.nodup_nil⟩

omit [DecidableEq κ] in
theorem not_clean_of_pending {k : κ} (h : m.Pending k) : ¬ m.Clean k := fun hclean =>
  hclean.1 h.2

theorem Step.data_kept {call : CacheOp κ δ × CacheOut δ} {k : κ} {d : δ}
    (hstep : Step maxSize maxClean m call m') (hdata : m.data k = some d)
    : m'.data k = some d
        ∨ (∃ k', call = (.occupy k', .bool true) ∧ ¬ m.Held k' ∧ m.Victim k ∧ ¬ m'.Held k) := by
  have hheld := held_of_data hdata
  cases hstep with
  | occupyFree hnew hroom =>
    left
    rename_i k'
    have hne : k ≠ k' := by
      rintro rfl
      exact hnew hheld
    simpa [hne] using hdata
  | occupyEvict hnew hroom hvictim =>
    rename_i k' v
    have hne : k ≠ k' := by
      rintro rfl
      exact hnew hheld
    by_cases hv : k = v
    . subst hv
      exact .inr ⟨k', rfl, hnew, hvictim, by simp [hne]⟩
    . left
      simpa [hne, hv] using hdata
  | queryClean hd hclean =>
    left
    simp only [data_use]
    split
    . simp_all
    . exact hdata
  | setDataInstall hpending =>
    left
    rename_i k' d'
    have hne : k ≠ k' := by
      rintro rfl
      simp [hpending.2] at hdata
    simpa [hne] using hdata
  | setDataRelease hpending =>
    left
    rename_i k'
    have hne : k ≠ k' := by
      rintro rfl
      simp [hpending.2] at hdata
    simpa [hne] using hdata
  | nextDirty hqueue hd =>
    left
    show (m.use _ _).data k = _
    simp only [data_use]
    split
    . simp_all
    . exact hdata
  | _ => exact .inl hdata

theorem Step.data_new {call : CacheOp κ δ × CacheOut δ} {k : κ} {d : δ}
    (hstep : Step maxSize maxClean m call m') (hdata : m'.data k = some d)
    : m.data k = some d ∨ m.Pending k ∧ call = (.setData k (some d), .data (some d)) := by
  cases hstep with
  | occupyFree hnew hroom =>
    rw [data_insert] at hdata
    split at hdata
    . contradiction
    . exact .inl hdata
  | occupyEvict hnew hroom hvictim =>
    rw [data_insert] at hdata
    split at hdata
    . contradiction
    . rw [data_erase] at hdata
      split at hdata
      . contradiction
      . exact .inl hdata
  | queryClean hd hclean =>
    rw [data_use] at hdata
    split at hdata
    . simp_all
    . exact .inl hdata
  | setDataInstall hpending =>
    rw [data_use] at hdata
    split at hdata
    . simp_all
    . exact .inl hdata
  | setDataRelease hpending =>
    rw [data_erase] at hdata
    split at hdata
    . contradiction
    . exact .inl hdata
  | nextDirty hqueue hd =>
    replace hdata : (m.use _ _).data k = some d := hdata
    rw [data_use] at hdata
    split at hdata
    . simp_all
    . exact .inl hdata
  | _ => exact .inl hdata

theorem Step.pending_new {call : CacheOp κ δ × CacheOut δ} {k : κ}
    (hstep : Step maxSize maxClean m call m') (hpending : m'.Pending k)
    : m.Pending k ∨ ¬ m.Held k ∧ call = (.occupy k, .bool true) := by
  obtain ⟨hheld, hnone⟩ := hpending
  cases hstep with
  | occupyFree hnew hroom =>
    rename_i k'
    by_cases hk : k = k'
    . subst hk
      exact .inr ⟨hnew, rfl⟩
    . exact .inl ⟨by simpa [hk] using hheld, by simpa [hk] using hnone⟩
  | occupyEvict hnew hroom hvictim =>
    rename_i k' v
    by_cases hk : k = k'
    . subst hk
      exact .inr ⟨hnew, rfl⟩
    . have hheld : k ≠ v ∧ m.Held k := by simpa [hk] using hheld
      exact .inl ⟨hheld.2, by simpa [hk, hheld.1] using hnone⟩
  | queryClean hd hclean =>
    left
    rw [data_use] at hnone
    split at hnone
    . contradiction
    . next hk => exact ⟨by simpa [hk] using hheld, hnone⟩
  | setDataInstall hpending =>
    left
    rw [data_use] at hnone
    split at hnone
    . contradiction
    . next hk => exact ⟨by simpa [hk] using hheld, hnone⟩
  | setDataRelease hpending =>
    left
    have hheld := held_erase.mp hheld
    rw [data_erase, if_neg hheld.1] at hnone
    exact ⟨hheld.2, hnone⟩
  | nextDirty hqueue hd =>
    left
    replace hnone : (m.use _ _).data k = none := hnone
    replace hheld : (m.use _ _).Held k := hheld
    rw [data_use] at hnone
    split at hnone
    . contradiction
    . next hk => exact ⟨by simpa [hk] using hheld, hnone⟩
  | _ => exact .inl ⟨hheld, hnone⟩

theorem Step.wf {call : CacheOp κ δ × CacheOut δ} (hstep : Step maxSize maxClean m call m')
    (hwf : m.WF)
    : m'.WF := by
  have hkept : (∀ k, m'.Dirty k → m.Dirty k) → m'.queue.Nodup → m'.WF := by
    intro hdirty hnodup
    refine ⟨?_, hnodup⟩
    intro k hk
    have hk := hdirty k hk
    obtain ⟨d, hd⟩ := Option.ne_none_iff_exists'.mp (hwf.loaded k hk)
    rcases hstep.data_kept hd with h | ⟨-, -, -, hvictim, -⟩
    . simp [h]
    . exact absurd hk hvictim.1.2
  cases hstep with
  | setDirtyClean hclean =>
    rename_i k
    refine ⟨?_, ?_⟩
    . intro k' hk'
      show m.data k' ≠ none
      rcases List.mem_append.mp hk' with h | h
      . exact hwf.loaded k' h
      . obtain rfl := List.mem_singleton.mp h
        exact hclean.1
    . exact List.nodup_append.mpr ⟨hwf.nodup, List.nodup_singleton k, by
        rintro a ha b hb rfl
        obtain rfl := List.mem_singleton.mp hb
        exact hclean.2 ha⟩
  | nextDirty hqueue hd =>
    rename_i k d rest
    have hnodup := hwf.nodup
    rw [hqueue] at hnodup
    apply hkept
    . intro k' hk'
      unfold Dirty
      rw [hqueue]
      exact List.mem_cons_of_mem k hk'
    . exact (List.nodup_cons.mp hnodup).2
  | _ => exact hkept (fun _ h => h) hwf.nodup

/--
The calls occupied `k` as a new key, `d` was the first data installed under it, and `k` has kept it
up to the last call.
-/
def Installed (maxSize maxClean : Int) (calls : List (CacheOp κ δ × CacheOut δ)) (m : LruMap κ δ)
    (k : κ) (d : δ) : Prop :=
  ∃ (pre mid post : List (CacheOp κ δ × CacheOut δ)) (m₀ m₁ m₂ m₃ : LruMap κ δ),
    calls = pre ++ (.occupy k, .bool true) :: mid ++ (.setData k (some d), .data (some d)) :: post
      ∧ Run (Step maxSize maxClean) anyLabel empty pre m₀ ∧ ¬ m₀.Held k
      ∧ Step maxSize maxClean m₀ (.occupy k, .bool true) m₁
      ∧ Run (Step maxSize maxClean) (fun m _ => m.Pending k) m₁ mid m₂ ∧ m₂.Pending k
      ∧ Step maxSize maxClean m₂ (.setData k (some d), .data (some d)) m₃
      ∧ Run (Step maxSize maxClean) (fun m _ => m.data k = some d) m₃ post m

theorem pending_of_run {calls : List (CacheOp κ δ × CacheOut δ)} {k : κ}
    (hrun : Run (Step maxSize maxClean) anyLabel empty calls m) (hpending : m.Pending k)
    : ∃ pre mid m₀ m₁, calls = pre ++ (.occupy k, .bool true) :: mid
        ∧ Run (Step maxSize maxClean) anyLabel empty pre m₀ ∧ ¬ m₀.Held k
        ∧ Step maxSize maxClean m₀ (.occupy k, .bool true) m₁
        ∧ Run (Step maxSize maxClean) (fun m _ => m.Pending k) m₁ mid m := by
  induction hrun with
  | start => simp [Pending, Held, empty] at hpending
  | @next as m m' call hrun _ hstep ih =>
    rcases hstep.pending_new hpending with hbefore | ⟨hnew, rfl⟩
    . obtain ⟨pre, mid, m₀, m₁, rfl, hpre, hnew, hoccupy, hmid⟩ := ih hbefore
      exact ⟨pre, mid ++ [call], m₀, m₁, by simp, hpre, hnew, hoccupy, .next hmid hbefore hstep⟩
    . exact ⟨as, [], m, m', rfl, hrun, hnew, hstep, .start⟩

theorem data_iff_installed {calls : List (CacheOp κ δ × CacheOut δ)} {k : κ} {d : δ}
    (hrun : Run (Step maxSize maxClean) anyLabel empty calls m)
    : m.data k = some d ↔ m.Held k ∧ Installed maxSize maxClean calls m k d := by
  constructor
  . intro hdata
    refine ⟨held_of_data hdata, ?_⟩
    induction hrun with
    | start => simp [data, empty] at hdata
    | @next as m m' call hrun _ hstep ih =>
      rcases hstep.data_new hdata with hbefore | ⟨hpending, rfl⟩
      . obtain ⟨pre, mid, post, m₀, m₁, m₂, m₃, rfl, hpre, hnew, hoccupy, hmid, hpending, hset, hpost⟩
          := ih hbefore
        exact ⟨pre, mid, post ++ [call], m₀, m₁, m₂, m₃, by simp, hpre, hnew, hoccupy, hmid,
          hpending, hset, .next hpost hbefore hstep⟩
      . obtain ⟨pre, mid, m₀, m₁, rfl, hpre, hnew, hoccupy, hmid⟩ := pending_of_run hrun hpending
        exact ⟨pre, mid, [], m₀, m₁, m, m', rfl, hpre, hnew, hoccupy, hmid, hpending, hstep, .start⟩
  . rintro ⟨hheld, pre, mid, post, m₀, m₁, m₂, m₃, -, -, -, -, -, hpending, hset, hpost⟩
    cases hpost with
    | start =>
      cases hset with
      | setDataInstall _ => simp
      | setDataOld h => simp [hpending.2] at h
    | next _ hbefore hstep =>
      rcases hstep.data_kept hbefore with h | ⟨-, -, -, -, h⟩
      . exact h
      . exact absurd hheld h

def Evicts (maxSize maxClean : Int) (m : LruMap κ δ) (k v : κ) : Prop :=
  ¬ m.Held k ∧ ¬ m.Room maxSize maxClean ∧ m.Victim v

theorem Step.occupy_cases {k : κ} (hstep : Step maxSize maxClean m (.occupy k, .bool true) m')
    : m.Held k ∧ m' = m
        ∨ ¬ m.Held k ∧ m'.Pending k ∧ m'.queue = m.queue
          ∧ ∀ k', k' ≠ k → (m'.Held k' ↔ m.Held k') ∧ m'.data k' = m.data k'
            ∨ m.Evicts maxSize maxClean k k' ∧ ¬ m'.Held k' := by
  cases hstep with
  | occupyHeld hheld => exact .inl ⟨hheld, rfl⟩
  | occupyFree hnew hroom =>
    refine .inr ⟨hnew, by simp [Pending], rfl, ?_⟩
    intro k' hne
    simp [hne]
  | @occupyEvict _ v hnew hroom hvictim =>
    refine .inr ⟨hnew, by simp [Pending], rfl, ?_⟩
    intro k' hne
    by_cases hv : k' = v
    . subst hv
      exact .inr ⟨⟨hnew, hroom, hvictim⟩, by simp [hne]⟩
    . left
      simp [hne, hv]

theorem Step.query_cases {k : κ} {out : CacheOut δ}
    (hstep : Step maxSize maxClean m (.query k, out) m')
    : out = .data (m.data k) ∧ m'.queue = m.queue
        ∧ ∀ k', (m'.Held k' ↔ m.Held k') ∧ m'.data k' = m.data k' := by
  cases hstep with
  | queryClean hdata hclean =>
    refine ⟨by rw [hdata], rfl, ?_⟩
    intro k'
    by_cases hk : k' = k
    . subst hk
      simp [hdata, held_of_data hdata]
    . simp [hk]
  | queryDirty hdata _ => exact ⟨by rw [hdata], rfl, fun _ => ⟨Iff.rfl, rfl⟩⟩
  | queryMiss hdata => exact ⟨by rw [hdata], rfl, fun _ => ⟨Iff.rfl, rfl⟩⟩

theorem Step.setData_cases {k : κ} {data out : Option δ}
    (hstep : Step maxSize maxClean m (.setData k data, .data out) m')
    : m'.queue = m.queue ∧ (∀ k', k' ≠ k → (m'.Held k' ↔ m.Held k') ∧ m'.data k' = m.data k')
        ∧ (m.Pending k ∧ out = data ∧ m'.data k = data ∧ (m'.Held k ↔ data ≠ none)
          ∨ ¬ m.Pending k ∧ out = m.data k ∧ m' = m) := by
  cases hstep with
  | @setDataInstall _ d hpending =>
    refine ⟨rfl, ?_, .inl ⟨hpending, rfl, by simp, by simp⟩⟩
    intro k' hne
    simp [hne]
  | setDataRelease hpending =>
    refine ⟨rfl, ?_, .inl ⟨hpending, rfl, by simp, by simp⟩⟩
    intro k' hne
    simp [hne]
  | setDataOld hdata =>
    refine ⟨rfl, fun _ _ => ⟨Iff.rfl, rfl⟩, .inr ⟨?_, hdata.symm, rfl⟩⟩
    rintro ⟨-, hnone⟩
    simp [hdata] at hnone
  | setDataMiss hheld =>
    refine ⟨rfl, fun _ _ => ⟨Iff.rfl, rfl⟩, .inr ⟨fun hpending => hheld hpending.1, ?_, rfl⟩⟩
    cases hdata : m.data k with
    | none => rfl
    | some d => exact absurd (held_of_data hdata) hheld

theorem Step.setDirty_cases {k : κ} {b : Bool}
    (hstep : Step maxSize maxClean m (.setDirty k, .bool b) m')
    : (∀ k', (m'.Held k' ↔ m.Held k') ∧ m'.data k' = m.data k')
        ∧ ∀ k', m'.Dirty k' ↔ m.Dirty k' ∨ k' = k ∧ m.data k ≠ none := by
  cases hstep with
  | setDirtyClean hclean =>
    refine ⟨fun _ => ⟨Iff.rfl, rfl⟩, ?_⟩
    intro k'
    simp [Dirty, hclean.1]
  | setDirtyDirty hdirty =>
    refine ⟨fun _ => ⟨Iff.rfl, rfl⟩, ?_⟩
    intro k'
    constructor
    . exact .inl
    . rintro (h | ⟨rfl, -⟩)
      . exact h
      . exact hdirty
  | setDirtyMiss hdata =>
    refine ⟨fun _ => ⟨Iff.rfl, rfl⟩, ?_⟩
    intro k'
    simp [hdata]

theorem Step.next_cases {d : δ}
    (hstep : Step maxSize maxClean m (.getNextDirtyNodeAndClean, .data (some d)) m')
    : ∃ k, m.queue = k :: m'.queue ∧ m.data k = some d
        ∧ ∀ k', (m'.Held k' ↔ m.Held k') ∧ m'.data k' = m.data k' := by
  cases hstep with
  | @nextDirty k _ rest hqueue hdata =>
    refine ⟨k, hqueue, hdata, ?_⟩
    intro k'
    show ((m.use k d).Held k' ↔ _) ∧ (m.use k d).data k' = _
    by_cases hk : k' = k
    . subst hk
      simp [hdata, held_of_data hdata]
    . simp [hk]

theorem Step.dirty_kept {call : CacheOp κ δ × CacheOut δ} {k : κ} {d : δ}
    (hstep : Step maxSize maxClean m call m') (hdirty : m.Dirty k) (hdata : m.data k = some d)
    : m'.Dirty k ∧ m'.data k = some d ∨ call = (.getNextDirtyNodeAndClean, .data (some d)) := by
  have hdata' : m'.data k = some d := by
    rcases hstep.data_kept hdata with h | ⟨-, -, -, hvictim, -⟩
    . exact h
    . exact absurd hdirty hvictim.1.2
  cases hstep with
  | setDirtyClean _ => exact .inl ⟨List.mem_append_left _ hdirty, hdata'⟩
  | @nextDirty k' d' rest hqueue hd =>
    unfold Dirty at hdirty
    rw [hqueue] at hdirty
    rcases List.mem_cons.mp hdirty with rfl | hrest
    . obtain rfl : d' = d := Option.some.inj (hd.symm.trans hdata)
      exact .inr rfl
    . exact .inl ⟨hrest, hdata'⟩
  | _ => exact .inl ⟨hdirty, hdata'⟩

theorem Step.query_out {k : κ} {out : CacheOut δ} (hstep : Step maxSize maxClean m (.query k, out) m')
    : out = .data (m.data k) := by
  cases hstep with
  | queryClean h _ => rw [h]
  | queryDirty h _ => rw [h]
  | queryMiss h => rw [h]

end LruMap

end WzGame
