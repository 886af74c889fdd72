import WzGame.Util.Runs
import WzGame.Db.Cache.DbCacheLemmas.Init
import WzGame.Db.Cache.DbCacheLemmas.Ops

/-!
This module contains the simulation of `DbCache` by `LruMap`.
-/

namespace WzGame

open Runs

namespace DbCache

variable {δ : Type} {c : DbCache δ} {sh : Shape} {m : LruMap Int δ}

def nodeUse (c : DbCache δ) (m : LruMap Int δ) (r : Nat) : Nat :=
  (c.heap.key r).elim 0 m.lastUse

structure Represents (c : DbCache δ) (sh : Shape) (m : LruMap Int δ) : Prop where
  held : ∀ k, m.Held k ↔ ∃ r ∈ sh.live, c.heap.key r = some k
  data : ∀ r ∈ sh.live, ∀ k, c.heap.key r = some k → m.data k = c.heap.data r
  queue : m.queue.map some = sh.dirty.map c.heap.key
  recency : (sh.clean.map (nodeUse c m)).Pairwise (· < ·)
  clock : ∀ r ∈ sh.clean, nodeUse c m r < m.clock

namespace Represents

theorem dirty_iff (R : Represents c sh m) (k : Int)
    : m.Dirty k ↔ ∃ r ∈ sh.dirty, c.heap.key r = some k := by
  unfold LruMap.Dirty
  have : k ∈ m.queue ↔ some k ∈ m.queue.map some := by simp
  rw [this, R.queue, List.mem_map]

theorem clean_iff (R : Represents c sh m) (I : Inv c sh) (k : Int)
    : m.Clean k ↔ ∃ r ∈ sh.clean, c.heap.key r = some k := by
  unfold LruMap.Clean
  rw [R.dirty_iff]
  constructor
  . rintro ⟨hdata, hdirty⟩
    obtain ⟨d, hd⟩ := Option.ne_none_iff_exists'.mp hdata
    obtain ⟨r, hr, hkey⟩ := (R.held k).mp (LruMap.held_of_data hd)
    rw [R.data r hr k hkey] at hdata
    rcases I.clean_or_dirty hr hdata with ⟨hclean, -⟩ | ⟨hr, -⟩
    . exact ⟨r, hclean, hkey⟩
    . exact absurd ⟨r, hr, hkey⟩ hdirty
  . rintro ⟨r, hr, hkey⟩
    have hlive := Inv.mem_live_of_clean hr
    rw [R.data r hlive k hkey]
    refine ⟨(I.loaded r hr).1, ?_⟩
    rintro ⟨r', hr', hkey'⟩
    obtain rfl := I.hashed.key_inj r' (I.dirty_subset hr') r hlive (hkey'.trans hkey.symm)
    exact I.not_dirty_of_clean hr hr'

theorem not_held (R : Represents c sh m) {k : Int} (hnew : ∀ r ∈ sh.live, c.heap.key r ≠ some k)
    : ¬ m.Held k := by
  rw [R.held]
  rintro ⟨r, hr, hkey⟩
  exact hnew r hr hkey

theorem data_none (R : Represents c sh m) {k : Int}
    (hnone : ∀ r ∈ sh.live, c.heap.key r = some k → c.heap.data r = none)
    : m.data k = none := by
  cases hdata : m.data k with
  | none => rfl
  | some d =>
    obtain ⟨r, hr, hkey⟩ := (R.held k).mp (LruMap.held_of_data hdata)
    rw [R.data r hr k hkey, hnone r hr hkey] at hdata
    contradiction

theorem pending (R : Represents c sh m) {k : Int} {r : Nat} (hr : r ∈ sh.live)
    (hkey : c.heap.key r = some k) (hdata : c.heap.data r = none)
    : m.Pending k :=
  ⟨(R.held k).mpr ⟨r, hr, hkey⟩, (R.data r hr k hkey).trans hdata⟩

theorem busy_iff (R : Represents c sh m) (I : Inv c sh) (k : Int)
    : m.Pending k ∨ m.Dirty k ↔ ∃ r ∈ sh.busy, c.heap.key r = some k := by
  constructor
  . rintro (⟨hheld, hdata⟩ | hdirty)
    . obtain ⟨r, hr, hkey⟩ := (R.held k).mp hheld
      rw [R.data r hr k hkey] at hdata
      exact ⟨r, (I.pending_of_none hr hdata).1, hkey⟩
    . obtain ⟨r, hr, hkey⟩ := (R.dirty_iff k).mp hdirty
      exact ⟨r, ((I.mem_dirty r).mp hr).1, hkey⟩
  . rintro ⟨r, hr, hkey⟩
    have hlive := Inv.mem_live_of_busy hr
    by_cases hdata : c.heap.data r = none
    . exact .inl (R.pending hlive hkey hdata)
    . right
      rw [R.dirty_iff]
      exact ⟨r, (I.mem_dirty r).mpr ⟨hr, (I.pendingOrDirty r hr).mpr hdata⟩, hkey⟩

theorem ncard_keys (I : Inv c sh) {rs : List Nat} (hsub : rs ⊆ sh.live) (hnodup : rs.Nodup)
    : {k | ∃ r ∈ rs, c.heap.key r = some k}.ncard = rs.length := by
  have himage : {k | ∃ r ∈ rs, c.heap.key r = some k}
      = (fun r => (c.heap.key r).getD 0) '' (rs.toFinset : Set Nat) := by
    ext k
    simp only [Set.mem_ofPred_eq, Set.mem_image, List.coe_toFinset]
    constructor
    . rintro ⟨r, hr, hkey⟩
      exact ⟨r, hr, by simp [hkey]⟩
    . rintro ⟨r, hr, rfl⟩
      obtain ⟨k, b, hkey, -⟩ := I.hashed.keyed r (hsub hr)
      exact ⟨r, hr, by simp [hkey]⟩
  have hinj : Set.InjOn (fun r => (c.heap.key r).getD 0) (rs.toFinset : Set Nat) := by
    intro r hr r' hr' heq
    have hr : r ∈ rs := by simpa using hr
    have hr' : r' ∈ rs := by simpa using hr'
    obtain ⟨k, b, hkey, -⟩ := I.hashed.keyed r (hsub hr)
    obtain ⟨k', b', hkey', -⟩ := I.hashed.keyed r' (hsub hr')
    simp only [hkey, hkey', Option.getD_some] at heq
    apply I.hashed.key_inj r (hsub hr) r' (hsub hr')
    rw [hkey, hkey', heq]
  rw [himage, hinj.ncard_image, Set.ncard_coe_finset, List.toFinset_card_of_nodup hnodup]

theorem ncard_held (R : Represents c sh m) (I : Inv c sh)
    : {k | m.Held k}.ncard = sh.live.length := by
  simp only [R.held]
  exact ncard_keys I (List.Subset.refl _) I.nodup_live

theorem ncard_clean (R : Represents c sh m) (I : Inv c sh)
    : {k | m.Clean k}.ncard = sh.clean.length := by
  simp only [R.clean_iff I]
  exact ncard_keys I (fun _ => Inv.mem_live_of_clean) I.nodup_clean

theorem ncard_busy (R : Represents c sh m) (I : Inv c sh)
    : {k | m.Pending k ∨ m.Dirty k}.ncard = sh.busy.length := by
  simp only [R.busy_iff I]
  exact ncard_keys I (fun _ => Inv.mem_live_of_busy) I.nodup_busy

theorem room_iff (R : Represents c sh m) (I : Inv c sh)
    : m.Room c.maxSize c.maxCleanSize ↔ sh.free ≠ [] ∧ c.cleanSize < c.maxCleanSize := by
  unfold LruMap.Room
  rw [R.ncard_held I, R.ncard_clean I, ← I.currSize, ← I.cleanSize, ← List.length_pos_iff]
  have := I.total
  omega

theorem nodeUse_congr {c' : DbCache δ} {m' : LruMap Int δ} {r : Nat}
    (hkey : c'.heap.key r = c.heap.key r)
    (huse : ∀ k, c.heap.key r = some k → m'.lastUse k = m.lastUse k)
    : nodeUse c' m' r = nodeUse c m r := by
  unfold nodeUse
  rw [hkey]
  cases h : c.heap.key r with
  | none => rfl
  | some k => exact huse k h

theorem victim (R : Represents c sh m) (I : Inv c sh) {r : Nat} {rest : List Nat} {v : Int}
    (hclean : sh.clean = r :: rest) (hkey : c.heap.key r = some v)
    : m.Victim v := by
  refine ⟨(R.clean_iff I v).mpr ⟨r, by simp [hclean], hkey⟩, ?_⟩
  intro k hk hne
  obtain ⟨r', hr', hkey'⟩ := (R.clean_iff I k).mp hk
  rw [hclean] at hr'
  rcases List.mem_cons.mp hr' with rfl | hr'
  . rw [hkey] at hkey'
    exact absurd (Option.some.inj hkey').symm hne
  . have hrec := R.recency
    rw [hclean, List.map_cons, List.pairwise_cons] at hrec
    have := hrec.1 _ (List.mem_map_of_mem hr')
    simpa [nodeUse, hkey, hkey'] using this

theorem use (R : Represents c sh m) (I : Inv c sh) {c' : DbCache δ} {r : Nat} {k : Int} {d : δ}
    {dirty' : List Nat} {queue' : List Int}
    (hr : r ∈ sh.live) (hkey : c.heap.key r = some k) (hkeys : c'.heap.key = c.heap.key)
    (hdata : c'.heap.data = Function.update c.heap.data r (some d))
    (hqueue : queue'.map some = dirty'.map c.heap.key)
    : Represents c' { sh.toClean r with dirty := dirty' } { m.use k d with queue := queue' } := by
  have hperm : sh.live.Perm (sh.toClean r).live := live_toClean I.nodup_live hr
  have hother : ∀ r' ∈ sh.live, r' ≠ r → ∀ k', c.heap.key r' = some k' → k' ≠ k := by
    rintro r' hr' hne k' hk' rfl
    exact hne (I.hashed.key_inj r' hr' r hr (hk'.trans hkey.symm))
  have hkept : ∀ r' ∈ sh.clean.erase r,
      nodeUse c' { m.use k d with queue := queue' } r' = nodeUse c m r' := by
    intro r' hr'
    have hmem := List.mem_of_mem_erase hr'
    have hne : r' ≠ r := by
      rintro rfl
      exact I.nodup_clean.not_mem_erase hr'
    apply nodeUse_congr (by rw [hkeys])
    intro k' hk'
    show (m.use k d).lastUse k' = _
    simp [hother r' (Inv.mem_live_of_clean hmem) hne k' hk']
  have hself : nodeUse c' { m.use k d with queue := queue' } r = m.clock := by
    show (c'.heap.key r).elim 0 (m.use k d).lastUse = _
    simp [hkeys, hkey]
  constructor
  case held =>
    intro k'
    show (m.use k d).Held k' ↔ ∃ r' ∈ (sh.toClean r).live, _
    simp only [LruMap.held_use, hkeys, ← hperm.mem_iff, R.held]
    constructor
    . rintro (rfl | h)
      . exact ⟨r, hr, hkey⟩
      . exact h
    . exact .inr
  case data =>
    intro r' hr' k' hk'
    have hr' : r' ∈ sh.live := hperm.mem_iff.mpr hr'
    show (m.use k d).data k' = _
    rw [hkeys] at hk'
    rw [LruMap.data_use, hdata]
    by_cases h : r' = r
    . subst h
      obtain rfl : k = k' := by simpa [hkey] using hk'
      simp
    . rw [if_neg (hother r' hr' h k' hk'), Function.update_of_ne h]
      exact R.data r' hr' k' hk'
  case queue =>
    rw [hkeys]
    exact hqueue
  case recency =>
    show ((sh.clean.erase r ++ [r]).map _).Pairwise _
    rw [List.map_append, List.pairwise_append, List.map_congr_left hkept]
    refine ⟨?_, List.pairwise_singleton _ _, ?_⟩
    . exact R.recency.sublist (List.erase_sublist.map _)
    . intro t ht t' ht'
      obtain ⟨r', hr', rfl⟩ := List.mem_map.mp ht
      obtain rfl : t' = _ := by simpa using ht'
      exact (R.clock r' (List.mem_of_mem_erase hr')).trans_eq hself.symm
  case clock =>
    intro r' hr'
    show _ < m.clock + 1
    rcases List.mem_append.mp hr' with h | h
    . have := R.clock r' (List.mem_of_mem_erase h)
      rw [hkept r' h]
      omega
    . obtain rfl := List.mem_singleton.mp h
      omega

theorem enqueue (R : Represents c sh m) (I : Inv c sh) {c' : DbCache δ} {r : Nat} {k : Int}
    (hr : r ∈ sh.clean) (hkey : c.heap.key r = some k) (hkeys : c'.heap.key = c.heap.key)
    (hdata : c'.heap.data = c.heap.data)
    : Represents c' { sh.toBusy r with dirty := sh.dirty ++ [r] }
        { m with queue := m.queue ++ [k] } := by
  have hperm : sh.live.Perm (sh.toBusy r).live :=
    live_toBusy I.nodup_live (Inv.mem_live_of_clean hr)
  have huse : nodeUse c' { m with queue := m.queue ++ [k] } = nodeUse c m := by
    funext r'
    exact nodeUse_congr (by rw [hkeys]) (fun _ _ => rfl)
  constructor
  case held =>
    intro k'
    show m.Held k' ↔ ∃ r' ∈ (sh.toBusy r).live, _
    simp only [hkeys, ← hperm.mem_iff, R.held]
  case data =>
    intro r' hr' k' hk'
    have hr' : r' ∈ sh.live := hperm.mem_iff.mpr hr'
    rw [hkeys] at hk'
    rw [hdata]
    exact R.data r' hr' k' hk'
  case queue =>
    rw [hkeys]
    simp [R.queue, hkey]
  case recency =>
    rw [huse]
    exact R.recency.sublist (List.erase_sublist.map _)
  case clock =>
    intro r' hr'
    rw [huse]
    exact R.clock r' (List.mem_of_mem_erase hr')

theorem erase (R : Represents c sh m) (I : Inv c sh) {c' : DbCache δ} {sh' : Shape} {r : Nat}
    {k : Int} (hr : r ∈ sh.live) (hdirty : r ∉ sh.dirty) (hkey : c.heap.key r = some k)
    (hlive : ∀ r', r' ∈ sh'.live ↔ r' ∈ sh.live.erase r) (hagree : Agree c c' (sh.live.erase r))
    (hsub : sh'.clean.Sublist sh.clean) (hdirtyEq : sh'.dirty = sh.dirty)
    : Represents c' sh' (m.erase k) := by
  have hmem : ∀ r', r' ∈ sh.live.erase r ↔ r' ≠ r ∧ r' ∈ sh.live := fun r' =>
    I.nodup_live.mem_erase_iff
  have hother : ∀ r' ∈ sh.live.erase r, ∀ k', c.heap.key r' = some k' → k' ≠ k := by
    rintro r' hr' k' hk' rfl
    obtain ⟨hne, hr'⟩ := (hmem r').mp hr'
    exact hne (I.hashed.key_inj r' hr' r hr (hk'.trans hkey.symm))
  have hclean : ∀ r' ∈ sh'.clean, nodeUse c' (m.erase k) r' = nodeUse c m r' := by
    intro r' hr'
    have hr' := (hlive r').mp (Inv.mem_live_of_clean hr')
    apply nodeUse_congr (hagree r' hr').1
    intro k' hk'
    simp [hother r' hr' k' hk']
  constructor
  case held =>
    intro k'
    rw [LruMap.held_erase, R.held]
    constructor
    . rintro ⟨hne, r', hr', hk'⟩
      have hr' : r' ∈ sh.live.erase r := by
        rw [hmem]
        refine ⟨?_, hr'⟩
        rintro rfl
        rw [hkey] at hk'
        exact hne (Option.some.inj hk').symm
      exact ⟨r', (hlive r').mpr hr', by rw [(hagree r' hr').1, hk']⟩
    . rintro ⟨r', hr', hk'⟩
      have hr' := (hlive r').mp hr'
      rw [(hagree r' hr').1] at hk'
      exact ⟨hother r' hr' k' hk', r', ((hmem r').mp hr').2, hk'⟩
  case data =>
    intro r' hr' k' hk'
    have hr' := (hlive r').mp hr'
    rw [(hagree r' hr').1] at hk'
    rw [LruMap.data_erase, if_neg (hother r' hr' k' hk'), (hagree r' hr').2]
    exact R.data r' ((hmem r').mp hr').2 k' hk'
  case queue =>
    rw [hdirtyEq, LruMap.queue_erase, R.queue]
    apply List.map_congr_left
    intro r' hr'
    have hne : r' ≠ r := by
      rintro rfl
      exact hdirty hr'
    exact (hagree r' ((hmem r').mpr ⟨hne, I.dirty_subset hr'⟩)).1.symm
  case recency =>
    rw [List.map_congr_left hclean]
    exact R.recency.sublist (hsub.map _)
  case clock =>
    intro r' hr'
    rw [hclean r' hr']
    exact R.clock r' (hsub.subset hr')

theorem insert (R : Represents c sh m) {c' : DbCache δ} {sh' : Shape} {r : Nat} {k : Int}
    (hsub : ∀ r' ∈ sh.dirty, r' ∈ sh.live) (hnew : ∀ r' ∈ sh.live, c.heap.key r' ≠ some k)
    (hlive : ∀ r', r' ∈ sh'.live ↔ r' = r ∨ r' ∈ sh.live) (hagree : Agree c c' sh.live)
    (hkey : c'.heap.key r = some k) (hdata : c'.heap.data r = none)
    (hclean : sh'.clean = sh.clean) (hdirty : sh'.dirty = sh.dirty)
    : Represents c' sh' (m.insert k) := by
  have hother : ∀ r' ∈ sh.live, ∀ k', c.heap.key r' = some k' → k' ≠ k := by
    rintro r' hr' k' hk' rfl
    exact hnew r' hr' hk'
  have huse : ∀ r' ∈ sh'.clean, nodeUse c' (m.insert k) r' = nodeUse c m r' := by
    intro r' hr'
    rw [hclean] at hr'
    have hr' := Inv.mem_live_of_clean hr'
    apply nodeUse_congr (hagree r' hr').1
    intro k' hk'
    simp [hother r' hr' k' hk']
  constructor
  case held =>
    intro k'
    rw [LruMap.held_insert, R.held]
    constructor
    . rintro (rfl | ⟨r', hr', hk'⟩)
      . exact ⟨r, (hlive r).mpr (.inl rfl), hkey⟩
      . exact ⟨r', (hlive r').mpr (.inr hr'), by rw [(hagree r' hr').1, hk']⟩
    . rintro ⟨r', hr', hk'⟩
      rcases (hlive r').mp hr' with rfl | hr'
      . rw [hkey] at hk'
        exact .inl (Option.some.inj hk').symm
      . exact .inr ⟨r', hr', by rw [← (hagree r' hr').1, hk']⟩
  case data =>
    intro r' hr' k' hk'
    rw [LruMap.data_insert]
    rcases (hlive r').mp hr' with rfl | hr'
    . rw [hkey] at hk'
      rw [if_pos (Option.some.inj hk').symm, hdata]
    . rw [(hagree r' hr').1] at hk'
      rw [if_neg (hother r' hr' k' hk'), (hagree r' hr').2]
      exact R.data r' hr' k' hk'
  case queue =>
    rw [hdirty, LruMap.queue_insert, R.queue]
    apply List.map_congr_left
    intro r' hr'
    exact (hagree r' (hsub r' hr')).1.symm
  case recency =>
    rw [List.map_congr_left huse, hclean]
    exact R.recency
  case clock =>
    intro r' hr'
    rw [huse r' hr']
    exact R.clock r' (hclean ▸ hr')

end Represents

def Refines (maxSize maxClean : Int) (c : DbCache δ) (m : LruMap Int δ) : Prop :=
  c.maxSize = maxSize ∧ c.maxCleanSize = maxClean ∧ ∃ sh, Inv c sh ∧ Represents c sh m

theorem hashFind_of_base_none {k : Int} (hb : c.base k = none) : c.hashFind k = none := by
  simp [hashFind, hb]

theorem exec_of_base_none {k : Int} (hb : c.base k = none) (data : Option δ)
    : c.exec (.occupy k) = none ∧ c.exec (.query k) = none ∧ c.exec (.setData k data) = none
        ∧ c.exec (.setDirty k) = none := by
  have := hashFind_of_base_none hb
  simp [exec, occupy, query, setData, setDirty, this]

section simulate

variable {maxSize maxClean : Int} {c' : DbCache δ} {out : CacheOut δ} {k : Int}

theorem occupy_simulate (hR : Refines maxSize maxClean c m) (h : c.exec (.occupy k) = some (out, c'))
    : ∃ m', LruMap.Step maxSize maxClean m (.occupy k, out) m' ∧ Refines maxSize maxClean c' m' := by
  obtain ⟨rfl, rfl, sh, I, R⟩ := hR
  cases hb : c.base k with
  | none => simp [(exec_of_base_none hb none).1] at h
  | some b =>
    rcases I.occupy_cases hb with ⟨r, hr, hkey, hres⟩ | ⟨hnew, hcases⟩
    . simp only [exec, hres, Option.map_some, Option.some.injEq, Prod.mk.injEq] at h
      obtain ⟨rfl, rfl⟩ := h
      exact ⟨m, .occupyHeld ((R.held k).mpr ⟨r, hr, hkey⟩), rfl, rfl, sh, I, R⟩
    . have hheld := R.not_held hnew
      rcases hcases with ⟨r, rest, c₁, bucket, hfree, hlt, hres, I', S, A, hkey, hdata⟩
        | ⟨r, rest, c₁, bucket, hclean, hroom, hres, I', S, A, hkey, hdata⟩ | ⟨hclean, hroom, hres⟩
        <;> simp only [exec, hres, Option.map_some, Option.some.injEq, Prod.mk.injEq] at h
        <;> obtain ⟨rfl, rfl⟩ := h
      . have hroom := (R.room_iff I).mpr ⟨by simp [hfree], hlt⟩
        refine ⟨_, .occupyFree hheld hroom, S.maxSize, S.maxCleanSize, _, I', ?_⟩
        refine R.insert (fun _ => I.dirty_subset) hnew ?_ A hkey hdata rfl rfl
        intro r'
        simp [Shape.live]
        tauto
      . have hr : r ∈ sh.clean := by simp [hclean]
        have hlive := Inv.mem_live_of_clean hr
        obtain ⟨v, -, hv, -⟩ := I.hashed.keyed r hlive
        have herase : sh.live.erase r = rest ++ sh.busy := by simp [Shape.live, hclean]
        have R' : Represents c { sh with clean := rest } (m.erase v) := by
          apply R.erase I hlive (I.not_dirty_of_clean hr) hv
          . intro r'
            rw [herase]
            rfl
          . intro r' _
            exact ⟨rfl, rfl⟩
          . rw [hclean]
            exact List.sublist_cons_self r rest
          . rfl
        refine ⟨_, .occupyEvict hheld (mt (R.room_iff I).mp hroom) (R.victim I hclean hv), S.maxSize,
          S.maxCleanSize, _, I', ?_⟩
        have hsub : ∀ r' ∈ rest ++ sh.busy, r' ∈ sh.live := by
          intro r' hr'
          rw [← herase] at hr'
          exact List.mem_of_mem_erase hr'
        rw [herase] at A
        refine R'.insert ?_ (fun r' hr' => hnew r' (hsub r' hr')) ?_ A hkey hdata rfl rfl
        . intro r' hr'
          exact List.mem_append_right _ ((I.mem_dirty r').mp hr').1
        . intro r'
          simp [Shape.live]
          tauto
      . refine ⟨m, .occupyFull hheld (mt (R.room_iff I).mp hroom) ?_, rfl, rfl, sh, I, R⟩
        intro v hv
        obtain ⟨r, hr, -⟩ := (R.clean_iff I v).mp hv
        simp [hclean] at hr

theorem query_simulate (hR : Refines maxSize maxClean c m) (h : c.exec (.query k) = some (out, c'))
    : ∃ m', LruMap.Step maxSize maxClean m (.query k, out) m' ∧ Refines maxSize maxClean c' m' := by
  obtain ⟨rfl, rfl, sh, I, R⟩ := hR
  cases hb : c.base k with
  | none => simp [(exec_of_base_none hb none).2.1] at h
  | some b =>
    rcases I.query_cases hb with ⟨hres, hnone⟩ | ⟨r, hr, d, hkey, hdata, hres⟩
      | ⟨r, hr, d, lru, hkey, hdata, hres, I'⟩
      <;> simp only [exec, hres, Option.map_some, Option.some.injEq, Prod.mk.injEq] at h
      <;> obtain ⟨rfl, rfl⟩ := h
    . exact ⟨m, .queryMiss (R.data_none hnone), rfl, rfl, sh, I, R⟩
    . refine ⟨m, .queryDirty ?_ ((R.dirty_iff k).mpr ⟨r, hr, hkey⟩), rfl, rfl, sh, I, R⟩
      rw [R.data r (I.dirty_subset hr) k hkey, hdata]
    . have hlive := Inv.mem_live_of_clean hr
      refine ⟨m.use k d, .queryClean ?_ ((R.clean_iff I k).mpr ⟨r, hr, hkey⟩), rfl, rfl, _, I', ?_⟩
      . rw [R.data r hlive k hkey, hdata]
      . refine R.use I hlive hkey rfl ?_ R.queue
        rw [← hdata, Function.update_eq_self]

theorem setData_simulate {data : Option δ} (hR : Refines maxSize maxClean c m)
    (h : c.exec (.setData k data) = some (out, c'))
    : ∃ m', LruMap.Step maxSize maxClean m (.setData k data, out) m'
        ∧ Refines maxSize maxClean c' m' := by
  obtain ⟨rfl, rfl, sh, I, R⟩ := hR
  cases hb : c.base k with
  | none => simp [(exec_of_base_none hb data).2.2.1] at h
  | some b =>
    rcases I.setData_cases hb data with ⟨hres, hnew⟩ | ⟨r, hr, old, hkey, hdata, hres⟩
      | ⟨r, hr, d, c₁, hkey, hdata, rfl, hres, I', K, hdata'⟩
      | ⟨r, hr, c₁, bucket, hkey, hdata, rfl, hres, I', S, A⟩
      <;> simp only [exec, hres, Option.map_some, Option.some.injEq, Prod.mk.injEq] at h
      <;> obtain ⟨rfl, rfl⟩ := h
    . exact ⟨m, .setDataMiss (R.not_held hnew), rfl, rfl, sh, I, R⟩
    . refine ⟨m, .setDataOld ?_, rfl, rfl, sh, I, R⟩
      rw [R.data r hr k hkey, hdata]
    . refine ⟨m.use k d, .setDataInstall (R.pending hr hkey hdata), K.maxSize, K.maxCleanSize, _, I',
        ?_⟩
      exact R.use I hr hkey K.key hdata' R.queue
    . refine ⟨m.erase k, .setDataRelease (R.pending hr hkey hdata), S.maxSize, S.maxCleanSize, _, I',
        ?_⟩
      obtain ⟨hbusy, hdirty, -⟩ := I.pending_of_none hr hdata
      have hclean : r ∉ sh.clean := fun hmem => I.not_busy hmem hbusy
      refine R.erase I hr hdirty hkey ?_ A (List.Sublist.refl _) rfl
      intro r'
      rw [I.live_erase, List.erase_of_not_mem hclean]
      rfl

theorem setDirty_simulate (hR : Refines maxSize maxClean c m)
    (h : c.exec (.setDirty k) = some (out, c'))
    : ∃ m', LruMap.Step maxSize maxClean m (.setDirty k, out) m'
        ∧ Refines maxSize maxClean c' m' := by
  obtain ⟨rfl, rfl, sh, I, R⟩ := hR
  cases hb : c.base k with
  | none => simp [(exec_of_base_none hb none).2.2.2] at h
  | some b =>
    rcases I.setDirty_cases hb with ⟨hres, hnone⟩ | ⟨r, hr, hkey, hres⟩
      | ⟨r, hr, c₁, hkey, hres, I', K, hdata⟩
      <;> simp only [exec, hres, Option.map_some, Option.some.injEq, Prod.mk.injEq] at h
      <;> obtain ⟨rfl, rfl⟩ := h
    . exact ⟨m, .setDirtyMiss (R.data_none hnone), rfl, rfl, sh, I, R⟩
    . exact ⟨m, .setDirtyDirty ((R.dirty_iff k).mpr ⟨r, hr, hkey⟩), rfl, rfl, sh, I, R⟩
    . refine ⟨_, .setDirtyClean ((R.clean_iff I k).mpr ⟨r, hr, hkey⟩), K.maxSize, K.maxCleanSize, _,
        I', ?_⟩
      exact R.enqueue I hr hkey K.key hdata

theorem getNextDirtyNodeAndClean_simulate (hR : Refines maxSize maxClean c m)
    (h : c.exec .getNextDirtyNodeAndClean = some (out, c'))
    : ∃ m', LruMap.Step maxSize maxClean m (.getNextDirtyNodeAndClean, out) m'
        ∧ Refines maxSize maxClean c' m' := by
  obtain ⟨rfl, rfl, sh, I, R⟩ := hR
  rcases I.getNextDirtyNodeAndClean_cases with ⟨hdirty, hres⟩
    | ⟨r, rest, d, c₁, hdirty, hdata, hres, I', K, hdata'⟩
    <;> simp only [exec, hres, Option.map_some, Option.some.injEq, Prod.mk.injEq] at h
    <;> obtain ⟨rfl, rfl⟩ := h
  . refine ⟨m, .nextEmpty ?_, rfl, rfl, sh, I, R⟩
    have := R.queue
    rw [hdirty, List.map_nil, List.map_eq_nil_iff] at this
    exact this
  . have hr : r ∈ sh.dirty := by simp [hdirty]
    have hlive := I.dirty_subset hr
    obtain ⟨k, -, hkey, -⟩ := I.hashed.keyed r hlive
    have hqueue := R.queue
    rw [hdirty, List.map_cons, hkey] at hqueue
    obtain ⟨k', queue, hq, hk', hrest⟩ := List.map_eq_cons_iff.mp hqueue
    obtain rfl : k' = k := Option.some.inj hk'
    refine ⟨_, .nextDirty hq ?_, K.maxSize, K.maxCleanSize, _, I', ?_⟩
    . rw [R.data r hlive k' hkey, hdata]
    . refine R.use I hlive hkey K.key ?_ hrest
      rw [hdata', ← hdata, Function.update_eq_self]

theorem hashFind_held (hR : Refines maxSize maxClean c m) {found : Option Nat}
    (h : c.hashFind k = some found)
    : found.isSome = true ↔ m.Held k := by
  obtain ⟨rfl, rfl, sh, I, R⟩ := hR
  cases hb : c.base k with
  | none => simp [hashFind_of_base_none hb] at h
  | some b =>
    rcases I.hashed.hashFind_cases I.fuel hb with ⟨hfind, hnew⟩ | ⟨r, hr, hkey, hfind⟩
    . obtain rfl : none = found := by simpa [hfind] using h
      simp [R.not_held hnew]
    . obtain rfl : some r = found := by simpa [hfind] using h
      simp [(R.held k).mpr ⟨r, hr, hkey⟩]

theorem simulates (maxSize maxClean : Int)
    : Simulates (Call (δ := δ)) anyLabel (LruMap.Step maxSize maxClean) (Refines maxSize maxClean) := by
  rintro c m ⟨op, out⟩ c' hR - h
  cases op with
  | occupy k => exact occupy_simulate hR h
  | query k => exact query_simulate hR h
  | setData k data => exact setData_simulate hR h
  | setDirty k => exact setDirty_simulate hR h
  | getNextDirtyNodeAndClean => exact getNextDirtyNodeAndClean_simulate hR h

end simulate

end DbCache

end WzGame
