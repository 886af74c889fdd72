import WzGame.Db.Cache.DbCacheRuns

/-!
This module contains what can be said about the nodes of a `DbCache` from outside: which data a key
holds, which data waits in the dirty list, and which key loses its node to a new one.
-/

namespace WzGame

open NextChain

namespace DbCache

variable {δ : Type}

def Holds (c : DbCache δ) (key : Int) (data : δ) : Prop :=
  ∃ node, c.hashFind key = some (some node) ∧ c.heap.data node = some data

def HoldsDirty (c : DbCache δ) (data : δ) : Prop :=
  ∃ head nodes, c.dirtyHead = some head ∧ c.heap.dirtyLinks.Ring head nodes
    ∧ ∃ node ∈ nodes, c.heap.data node = some data

def victim (c : DbCache δ) : Option Int :=
  match c.memHead, decide (c.cleanSize < c.maxCleanSize) with
  | some _, true => none
  | _, _ => do
    let head ← c.lruHead
    let node ← c.heap.lru.next head
    if some node ≠ c.lruMid then c.heap.key node else none

def Evicts (c : DbCache δ) (key v : Int) : Prop :=
  (c.hashFind key).join = none ∧ c.victim = some v

variable {c : DbCache δ} {m : LruMap Int δ} {maxSize maxClean k v : Int} {d : δ}

theorem holds_iff (hR : Refines maxSize maxClean c m) : c.Holds k d ↔ m.data k = some d := by
  obtain ⟨-, -, sh, I, R⟩ := hR
  constructor
  . rintro ⟨node, hfind, hdata⟩
    obtain ⟨hlive, hkey⟩ := (I.hashed.hashFind_iff I.fuel).mp hfind
    rw [R.data node hlive k hkey, hdata]
  . intro hdata
    obtain ⟨r, hr, hkey⟩ := (R.held k).mp (LruMap.held_of_data hdata)
    exact ⟨r, (I.hashed.hashFind_iff I.fuel).mpr ⟨hr, hkey⟩, by rw [← R.data r hr k hkey, hdata]⟩

theorem exists_query (hR : Refines maxSize maxClean c m) (h : m.data k = some d)
    : ∃ c', c.query k = some (some d, c') := by
  obtain ⟨-, -, sh, I, R⟩ := id hR
  obtain ⟨r, hr, hkey⟩ := (R.held k).mp (LruMap.held_of_data h)
  obtain ⟨k', b, hkey', hb⟩ := I.hashed.keyed r hr
  obtain rfl : k = k' := Option.some.inj (hkey.symm.trans hkey')
  obtain ⟨data, c', hquery⟩ : ∃ data c', c.query k = some (data, c') := by
    rcases I.query_cases hb with ⟨hres, -⟩ | ⟨r, -, d, -, -, hres⟩ | ⟨r, -, d, lru, -, -, hres, -⟩
    . exact ⟨_, _, hres⟩
    . exact ⟨_, _, hres⟩
    . exact ⟨_, _, hres⟩
  have hexec : c.exec (.query k) = some (.data data, c') := by simp [exec, hquery]
  obtain ⟨m', hstep, -⟩ := query_simulate hR hexec
  obtain rfl : data = some d := by simpa [h] using hstep.query_out
  exact ⟨c', hquery⟩

theorem holds_of_query {c' : DbCache δ} (hR : Refines maxSize maxClean c m)
    (h : c.query k = some (some d, c'))
    : c.Holds k d := by
  have hexec : c.exec (.query k) = some (.data (some d), c') := by simp [exec, h]
  obtain ⟨m', hstep, -⟩ := query_simulate hR hexec
  have hout := hstep.query_out
  simp only [CacheOut.data.injEq] at hout
  exact (holds_iff hR).mpr hout.symm

theorem holdsDirty_iff (hR : Refines maxSize maxClean c m)
    : c.HoldsDirty d ↔ ∃ k, m.Dirty k ∧ m.data k = some d := by
  obtain ⟨-, -, sh, I, R⟩ := hR
  constructor
  . rintro ⟨head, nodes, hhead, hring, node, hnode, hdata⟩
    obtain rfl : sh.dirtyHead = head := Option.some.inj (I.dirtyHead.symm.trans hhead)
    obtain rfl := hring.unique I.dirtyRing
    have hlive := I.dirty_subset hnode
    obtain ⟨k, -, hkey, -⟩ := I.hashed.keyed node hlive
    exact ⟨k, (R.dirty_iff k).mpr ⟨node, hnode, hkey⟩, by rw [R.data node hlive k hkey, hdata]⟩
  . rintro ⟨k, hdirty, hdata⟩
    obtain ⟨r, hr, hkey⟩ := (R.dirty_iff k).mp hdirty
    exact ⟨sh.dirtyHead, sh.dirty, I.dirtyHead, I.dirtyRing, r, hr,
      by rw [← R.data r (I.dirty_subset hr) k hkey, hdata]⟩

theorem not_holdsDirty {c' : DbCache δ} (hR : Refines maxSize maxClean c m)
    (h : c.getNextDirtyNodeAndClean = some (none, c'))
    : ¬ c.HoldsDirty d := by
  have hexec : c.exec .getNextDirtyNodeAndClean = some (.data none, c') := by simp [exec, h]
  obtain ⟨m', hstep, -⟩ := getNextDirtyNodeAndClean_simulate hR hexec
  rw [holdsDirty_iff hR]
  rintro ⟨k, hdirty, -⟩
  cases hstep with
  | nextEmpty hempty => simp [LruMap.Dirty, hempty] at hdirty

theorem evicts_of_lruMap (hR : Refines maxSize maxClean c m)
    (h : LruMap.Evicts maxSize maxClean m k v)
    : c.Evicts k v := by
  obtain ⟨hnew, hroom, hvictim⟩ := h
  constructor
  . cases hfind : c.hashFind k with
    | none => rfl
    | some found =>
      cases found with
      | none => rfl
      | some node => exact absurd ((hashFind_held hR hfind).mp rfl) hnew
  . obtain ⟨rfl, rfl, sh, I, R⟩ := hR
    rw [R.room_iff I] at hroom
    -- the victim is the first clean node
    obtain ⟨r, hr, hkey⟩ := (R.clean_iff I v).mp hvictim.1
    obtain ⟨first, rest, hclean⟩ := List.exists_cons_of_ne_nil (List.ne_nil_of_mem hr)
    have hfirst : first ∈ sh.live := Inv.mem_live_of_clean (by simp [hclean])
    obtain ⟨k', -, hkey', -⟩ := I.hashed.keyed first hfirst
    have hvictim' := R.victim I hclean hkey'
    obtain rfl : k' = v := by
      by_contra hne
      have := hvictim.2 k' hvictim'.1 hne
      have := hvictim'.2 v hvictim.1 (Ne.symm hne)
      omega
    have hnext : c.heap.lru.next sh.head = some first := by
      have hring : c.heap.lru.Ring sh.head ([] ++ (sh.clean ++ sh.mid :: sh.busy)) := I.lruRing
      rw [hring.next_eq (List.nil_append _).symm, hclean]
      rfl
    obtain ⟨-, hmid, -⟩ := I.sentinel_live hfirst
    have hmem := chain_head? I.hashed.freeChain
    unfold victim
    cases hfree : sh.free with
    | nil =>
      rw [hfree] at hmem
      simp [hmem, I.lruHead, I.lruMid, hnext, hmid, hkey']
    | cons node free =>
      have hfull : ¬ c.cleanSize < c.maxCleanSize := fun hlt => hroom ⟨by simp [hfree], hlt⟩
      rw [hfree] at hmem
      simp [hmem, hfull, I.lruHead, I.lruMid, hnext, hmid, hkey']

end DbCache

end WzGame
