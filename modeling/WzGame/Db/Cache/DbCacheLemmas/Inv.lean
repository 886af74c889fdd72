import WzGame.Db.Cache.DbCacheLemmas.Hash

/-!
This module contains the representation invariant of `DbCache` and what every operation does to the
lists behind the links.
-/

namespace WzGame

open NextChain

namespace DbCache

variable {δ : Type}

structure Shape where
  head : Nat
  mid : Nat
  dirtyHead : Nat
  clean : List Nat
  busy : List Nat
  dirty : List Nat
  free : List Nat
  bucket : Nat → List Nat

namespace Shape

def live (sh : Shape) : List Nat := sh.clean ++ sh.busy

def toClean (sh : Shape) (r : Nat) : Shape :=
  { sh with
    clean := sh.clean.erase r ++ [r]
    busy := sh.busy.erase r }

def toBusy (sh : Shape) (r : Nat) : Shape :=
  { sh with
    clean := sh.clean.erase r
    busy := sh.busy.erase r ++ [r] }

end Shape

structure Core (c : DbCache δ) (sh : Shape) : Prop where
  lruHead : c.lruHead = some sh.head
  lruMid : c.lruMid = some sh.mid
  dirtyHead : c.dirtyHead = some sh.dirtyHead
  lruRing : c.heap.lru.Ring sh.head (sh.clean ++ sh.mid :: sh.busy)
  dirtyRing : c.heap.dirtyLinks.Ring sh.dirtyHead sh.dirty
  hashed : Hashed c sh.bucket sh.live sh.free
  sentinel : ∀ r ∈ sh.live ++ sh.free, r ≠ sh.head ∧ r ≠ sh.mid ∧ r ≠ sh.dirtyHead
  loaded : ∀ r ∈ sh.clean, c.heap.data r ≠ none ∧ c.heap.dirty r = false
  pendingOrDirty : ∀ r ∈ sh.busy, c.heap.dirty r = true ↔ c.heap.data r ≠ none
  mem_dirty : ∀ r, r ∈ sh.dirty ↔ r ∈ sh.busy ∧ c.heap.dirty r = true
  currSize : c.currSize = sh.live.length
  cleanSize : c.cleanSize = sh.clean.length
  dirtySize : c.dirtySize = sh.busy.length

structure Inv (c : DbCache δ) (sh : Shape) : Prop extends Core c sh where
  total : sh.free.length + c.currSize = c.maxSize

theorem erase_append_of_nodup {xs ys : List Nat} (h : (xs ++ ys).Nodup) (r : Nat)
    : (xs ++ ys).erase r = xs.erase r ++ ys.erase r := by
  rw [List.erase_append]
  split
  . next hr =>
    have : r ∉ ys := fun hr' => (List.nodup_append.mp h).2.2 r hr r hr' rfl
    rw [List.erase_of_not_mem this]
  . next hr => rw [List.erase_of_not_mem hr]

theorem live_toClean {sh : Shape} {r : Nat} (hnodup : sh.live.Nodup) (hr : r ∈ sh.live)
    : sh.live.Perm (sh.toClean r).live := by
  have herase := erase_append_of_nodup hnodup r
  have hperm : (sh.toClean r).live.Perm (r :: (sh.clean.erase r ++ sh.busy.erase r)) := by
    unfold Shape.live Shape.toClean
    simp only [List.append_assoc, List.singleton_append]
    exact List.perm_middle
  rw [← herase] at hperm
  exact (List.perm_cons_erase hr).trans hperm.symm

theorem live_toBusy {sh : Shape} {r : Nat} (hnodup : sh.live.Nodup) (hr : r ∈ sh.live)
    : sh.live.Perm (sh.toBusy r).live := by
  have herase := erase_append_of_nodup hnodup r
  have hperm : (sh.toBusy r).live.Perm (r :: (sh.clean.erase r ++ sh.busy.erase r)) := by
    unfold Shape.live Shape.toBusy
    simp only [← List.append_assoc]
    exact List.perm_append_singleton r _
  rw [← herase] at hperm
  exact (List.perm_cons_erase hr).trans hperm.symm

theorem erase_ring {clean busy : List Nat} {mid r : Nat} (hnodup : (clean ++ mid :: busy).Nodup)
    (hr : r ≠ mid)
    : (clean ++ mid :: busy).erase r = clean.erase r ++ mid :: busy.erase r := by
  rw [erase_append_of_nodup hnodup, List.erase_cons_tail]
  simpa using hr.symm

section sort

variable {c : DbCache δ} {head mid node : Nat} {clean busy : List Nat}

theorem unlinked_ring (hring : c.heap.lru.Ring head (clean ++ mid :: busy)) (hhead : node ≠ head)
    (hmid : node ≠ mid) (hnode : node ∈ clean ++ busy ∨ c.heap.lru.prev node = none)
    : ((c.heap.lru.unlink node).clear node).Ring head (clean.erase node ++ mid :: busy.erase node)
        ∧ node ∉ head :: (clean.erase node ++ mid :: busy.erase node) := by
  have hnodup := (List.nodup_cons.mp hring.nodup).2
  have hmem : node ∈ clean ++ mid :: busy ∨ c.heap.lru.prev node = none := by
    rcases hnode with h | h
    . left
      simp at h ⊢
      tauto
    . exact .inr h
  have hunlink := hring.unlink_erase hmem
  have hout : node ∉ head :: (clean ++ mid :: busy).erase node := by
    simp only [List.mem_cons, not_or]
    exact ⟨hhead, hnodup.not_mem_erase⟩
  have hclear := hunlink.clear hout
  rw [erase_ring hnodup hmid] at hclear hout
  exact ⟨hclear, hout⟩

theorem lruSortClean_eq (hmidEq : c.lruMid = some mid)
    (hring : c.heap.lru.Ring head (clean ++ mid :: busy)) (hhead : node ≠ head) (hmid : node ≠ mid)
    (hnode : node ∈ clean ++ busy ∨ c.heap.lru.prev node = none)
    : ∃ lru, c.lruSortClean node = some { c with heap := { c.heap with lru := lru } }
        ∧ lru.Ring head (clean.erase node ++ [node] ++ mid :: busy.erase node) := by
  obtain ⟨hclear, hout⟩ := unlinked_ring hring hhead hmid hnode
  obtain ⟨tail, htail⟩ : ∃ tail, (head :: clean.erase node).getLast? = some tail :=
    ⟨_, List.getLast?_eq_some_getLast (by simp)⟩
  obtain ⟨lru, hlru, hres⟩ := hclear.insertAfter hout htail
  refine ⟨lru, ?_, by simpa using hres⟩
  unfold lruSortClean
  have hprev := hclear.prev_eq (List.cons_append : mid :: busy.erase node ++ [head] = _)
  simp [hmidEq, hprev, htail, NodeHeap.dlistAdd, hlru]

theorem lruSortDirty_eq (hheadEq : c.lruHead = some head)
    (hring : c.heap.lru.Ring head (clean ++ mid :: busy)) (hhead : node ≠ head) (hmid : node ≠ mid)
    (hnode : node ∈ clean ++ busy ∨ c.heap.lru.prev node = none)
    : ∃ lru, c.lruSortDirty node = some { c with heap := { c.heap with lru := lru } }
        ∧ lru.Ring head (clean.erase node ++ mid :: (busy.erase node ++ [node])) := by
  obtain ⟨hclear, hout⟩ := unlinked_ring hring hhead hmid hnode
  obtain ⟨tail, htail⟩ : ∃ tail,
      (head :: (clean.erase node ++ mid :: busy.erase node)).getLast? = some tail :=
    ⟨_, List.getLast?_eq_some_getLast (by simp)⟩
  rw [← List.append_nil (clean.erase node ++ mid :: busy.erase node)] at hclear hout
  obtain ⟨lru, hlru, hres⟩ := hclear.insertAfter hout htail
  refine ⟨lru, ?_, by simpa using hres⟩
  unfold lruSortDirty
  have hprev := hclear.prev_eq (List.nil_append [head])
  simp [hheadEq, hprev, htail, NodeHeap.dlistAdd, hlru]

end sort

structure Fresh (c : DbCache δ) (sh : Shape) (r : Nat) : Prop where
  not_live : r ∉ sh.live
  not_free : r ∉ sh.free
  sentinel : r ≠ sh.head ∧ r ≠ sh.mid ∧ r ≠ sh.dirtyHead
  data : c.heap.data r = none
  dirty : c.heap.dirty r = false
  unlinked : c.heap.lru.prev r = none

namespace Core

variable {c : DbCache δ} {sh : Shape}

theorem nodup_live (C : Core c sh) : sh.live.Nodup := C.hashed.nodup_live

theorem nodup_clean (C : Core c sh) : sh.clean.Nodup :=
  (List.nodup_append.mp C.nodup_live).1

theorem nodup_busy (C : Core c sh) : sh.busy.Nodup :=
  (List.nodup_append.mp C.nodup_live).2.1

theorem live_erase (C : Core c sh) (r : Nat)
    : sh.live.erase r = sh.clean.erase r ++ sh.busy.erase r :=
  erase_append_of_nodup C.nodup_live r

theorem sentinel_live (C : Core c sh) {r : Nat} (hr : r ∈ sh.live)
    : r ≠ sh.head ∧ r ≠ sh.mid ∧ r ≠ sh.dirtyHead := by
  apply C.sentinel
  simp [hr]

theorem dirty_subset (C : Core c sh) {r : Nat} (hr : r ∈ sh.dirty) : r ∈ sh.live := by
  have := (C.mem_dirty r).mp hr
  simp [Shape.live, this.1]

theorem take_free {r : Nat} {rest : List Nat} (C : Core c sh) (hfree : sh.free = r :: rest)
    : Core { c with heap := c.heap.initCashNode r, memHead := c.heap.hashNext r }
        { sh with free := rest }
      ∧ Fresh { c with heap := c.heap.initCashNode r, memHead := c.heap.hashNext r }
        { sh with free := rest } r := by
  have hnodup := C.hashed.nodup
  have hchain := C.hashed.freeChain
  rw [hfree] at hnodup hchain
  have hlive : r ∉ sh.live := fun h => (List.nodup_append.mp hnodup).2.2 r h r (by simp) rfl
  have hrest : r ∉ rest := (List.nodup_cons.mp (List.nodup_append.mp hnodup).2.1).1
  have hsent := C.sentinel r (by simp [hfree])
  have hother : ∀ r' ∈ sh.live, r' ≠ r := by
    rintro r' hr' rfl
    exact hlive hr'
  refine ⟨?_, hlive, hrest, hsent, by simp, by simp, by simp [Links.clear]⟩
  constructor
  case lruHead => exact C.lruHead
  case lruMid => exact C.lruMid
  case dirtyHead => exact C.dirtyHead
  case lruRing =>
    apply C.lruRing.clear
    simp [Shape.live] at hlive ⊢
    tauto
  case dirtyRing =>
    apply C.dirtyRing.setNext
    simp only [List.mem_cons, not_or]
    exact ⟨hsent.2.2, fun h => hlive (C.dirty_subset h)⟩
  case hashed =>
    refine C.hashed.transport rfl rfl (List.Perm.refl _) ?_ ?_ ?_
    . intro r' hr'
      simp [hother r' hr']
    . exact chain_update hchain.2 hrest
    . exact hnodup.sublist ((List.sublist_cons_self r rest).append_left _)
  case sentinel =>
    intro r' hr'
    apply C.sentinel r'
    rw [hfree]
    simp at hr' ⊢
    tauto
  case loaded =>
    intro r' hr'
    have := hother r' (by simp [Shape.live, show r' ∈ sh.clean from hr'])
    simpa [this] using C.loaded r' hr'
  case pendingOrDirty =>
    intro r' hr'
    have := hother r' (by simp [Shape.live, show r' ∈ sh.busy from hr'])
    simpa [this] using C.pendingOrDirty r' hr'
  case mem_dirty =>
    intro r'
    show r' ∈ sh.dirty ↔ _
    rw [C.mem_dirty r']
    by_cases h : r' = r
    . subst h
      have : r' ∉ sh.busy := fun hb => hlive (by simp [Shape.live, hb])
      simp [this]
    . simp [h]
  case currSize => exact C.currSize
  case cleanSize => exact C.cleanSize
  case dirtySize => exact C.dirtySize

theorem drop {next : Nat → Option Nat} {ports : Array (Option Nat)} {bucket : Nat → List Nat}
    {n : Int} {r : Nat} (cs ds : Int) (C : Core c sh) (hr : r ∈ sh.live) (hdirty : r ∉ sh.dirty)
    (H : Hashed { c with
        heap := { c.heap with hashNext := next }, hashPorts := ports, currSize := n }
      bucket (sh.live.erase r) sh.free)
    (hn : n = (sh.live.erase r).length) (hcs : cs = (sh.clean.erase r).length)
    (hds : ds = (sh.busy.erase r).length)
    : Core { c with
          heap := ({ c.heap with hashNext := next }.dlistDel r).initCashNode r
          hashPorts := ports, currSize := n, cleanSize := cs, dirtySize := ds }
        { sh with clean := sh.clean.erase r, busy := sh.busy.erase r, bucket := bucket }
      ∧ Fresh { c with
          heap := ({ c.heap with hashNext := next }.dlistDel r).initCashNode r
          hashPorts := ports, currSize := n, cleanSize := cs, dirtySize := ds }
        { sh with clean := sh.clean.erase r, busy := sh.busy.erase r, bucket := bucket } r := by
  have hsent := C.sentinel_live hr
  have hlive : r ∉ sh.live.erase r := C.nodup_live.not_mem_erase
  have hnotfree : r ∉ sh.free := C.hashed.not_mem_free hr
  have hother : ∀ r' ∈ sh.live.erase r, r' ≠ r := by
    rintro r' hr' rfl
    exact hlive hr'
  have hring := unlinked_ring C.lruRing hsent.1 hsent.2.1 (.inl hr)
  rw [C.live_erase] at hother hn hlive H
  refine ⟨?_, hlive, hnotfree, hsent, by simp, by simp, by simp [Links.clear]⟩
  constructor
  case lruHead => exact C.lruHead
  case lruMid => exact C.lruMid
  case dirtyHead => exact C.dirtyHead
  case lruRing => exact hring.1
  case dirtyRing =>
    apply C.dirtyRing.setNext
    simp only [List.mem_cons, not_or]
    exact ⟨hsent.2.2, hdirty⟩
  case hashed =>
    refine H.transport rfl rfl (List.Perm.refl _) ?_ ?_ ?_
    . intro r' hr'
      simp [hother r' hr']
    . exact chain_update H.freeChain hnotfree
    . exact H.nodup
  case sentinel =>
    intro r' hr'
    apply C.sentinel r'
    rcases List.mem_append.mp hr' with h | h
    . apply List.mem_append_left
      unfold Shape.live at h
      simp only [← C.live_erase] at h
      exact List.mem_of_mem_erase h
    . exact List.mem_append_right _ h
  case loaded =>
    intro r' hr'
    have := hother r' (List.mem_append_left _ hr')
    simpa [this] using C.loaded r' (List.mem_of_mem_erase hr')
  case pendingOrDirty =>
    intro r' hr'
    have := hother r' (List.mem_append_right _ hr')
    simpa [this] using C.pendingOrDirty r' (List.mem_of_mem_erase hr')
  case mem_dirty =>
    intro r'
    show r' ∈ sh.dirty ↔ r' ∈ sh.busy.erase r ∧ _
    rw [C.nodup_busy.mem_erase_iff]
    by_cases h : r' = r
    . subst h
      simp [hdirty]
    . simp [h, C.mem_dirty r']
  case currSize => exact hn
  case cleanSize => exact hcs
  case dirtySize => exact hds

theorem put_free {r : Nat} (C : Core c sh) (F : Fresh c sh r)
    : Core { c with heap := c.heap.setHashNext r c.memHead, memHead := some r }
        { sh with free := r :: sh.free } where
  lruHead := C.lruHead
  lruMid := C.lruMid
  dirtyHead := C.dirtyHead
  lruRing := C.lruRing
  dirtyRing := C.dirtyRing
  hashed := by
    refine C.hashed.transport rfl rfl (List.Perm.refl _) ?_ ?_ ?_
    . intro r' hr'
      have : r' ≠ r := by
        rintro rfl
        exact F.not_live hr'
      simp [this]
    . exact chain_push C.hashed.freeChain F.not_free
    . have hperm : (sh.live ++ r :: sh.free).Perm (r :: (sh.live ++ sh.free)) := List.perm_middle
      apply hperm.nodup_iff.mpr
      apply List.nodup_cons.mpr ⟨_, C.hashed.nodup⟩
      simp [F.not_live, F.not_free]
  sentinel := by
    intro r' hr'
    by_cases h : r' = r
    . subst h
      exact F.sentinel
    . apply C.sentinel r'
      simpa [Shape.live, h] using hr'
  loaded := C.loaded
  pendingOrDirty := C.pendingOrDirty
  mem_dirty := C.mem_dirty
  currSize := C.currSize
  cleanSize := C.cleanSize
  dirtySize := C.dirtySize

theorem insert_fresh {r : Nat} {k : Int} {b : Nat} (C : Core c sh) (F : Fresh c sh r)
    (hb : c.base k = some b) (hnew : ∀ r' ∈ sh.live, c.heap.key r' ≠ some k)
    : ∃ c₁ c₂ bucket,
        { c with heap := c.heap.setKey r (some k) }.hashAdd r = some c₁
        ∧ c₁.lruSortDirty r = some c₂
        ∧ Core { c₂ with dirtySize := c₂.dirtySize + 1 }
          { sh with busy := sh.busy ++ [r], bucket := bucket }
        ∧ c₂.heap.key = Function.update c.heap.key r (some k)
        ∧ c₂.heap.data = c.heap.data
        ∧ c₂.currSize = c.currSize + 1
        ∧ c₂.maxSize = c.maxSize ∧ c₂.maxCleanSize = c.maxCleanSize ∧ c₂.hashSize = c.hashSize := by
  have hother : ∀ r' ∈ sh.live, r' ≠ r := by
    rintro r' hr' rfl
    exact F.not_live hr'
  have H : Hashed { c with heap := c.heap.setKey r (some k) } sh.bucket sh.live sh.free := by
    refine C.hashed.transport rfl rfl (List.Perm.refl _) ?_ ?_ ?_
    . intro r' hr'
      simp [hother r' hr']
    . exact C.hashed.freeChain
    . exact C.hashed.nodup
  have hnew' : ∀ r' ∈ sh.live, (c.heap.setKey r (some k)).key r' ≠ some k := by
    intro r' hr'
    simpa [hother r' hr'] using hnew r' hr'
  obtain ⟨next, ports, hadd, H₁⟩ := H.hashAdd_eq F.not_live F.not_free (by simp) hb hnew'
  have hclean : r ∉ sh.clean := fun h => F.not_live (by simp [Shape.live, h])
  have hbusy : r ∉ sh.busy := fun h => F.not_live (by simp [Shape.live, h])
  obtain ⟨lru, hsort, hring⟩ := lruSortDirty_eq
    (c := { c with
      heap := { c.heap.setKey r (some k) with hashNext := next }
      hashPorts := ports
      currSize := c.currSize + 1 })
    C.lruHead C.lruRing F.sentinel.1 F.sentinel.2.1 (.inr F.unlinked)
  rw [List.erase_of_not_mem hclean, List.erase_of_not_mem hbusy] at hring
  refine ⟨_, _, Function.update sh.bucket b (r :: sh.bucket b), hadd, hsort, ?_, rfl, rfl, rfl, rfl,
    rfl, rfl⟩
  constructor
  case lruHead => exact C.lruHead
  case lruMid => exact C.lruMid
  case dirtyHead => exact C.dirtyHead
  case lruRing => exact hring
  case dirtyRing => exact C.dirtyRing
  case hashed =>
    refine H₁.congr rfl rfl rfl rfl rfl ?_
    simp [Shape.live]
  case sentinel =>
    intro r' hr'
    by_cases h : r' = r
    . subst h
      exact F.sentinel
    . apply C.sentinel r'
      simpa [Shape.live, h] using hr'
  case loaded => exact C.loaded
  case pendingOrDirty =>
    intro r' hr'
    rcases List.mem_append.mp hr' with h | h
    . exact C.pendingOrDirty r' h
    . obtain rfl := List.mem_singleton.mp h
      simp [F.data, F.dirty]
  case mem_dirty =>
    intro r'
    by_cases h : r' = r
    . subst h
      have : r' ∉ sh.dirty := fun hd => F.not_live (C.dirty_subset hd)
      simp [this, F.dirty]
    . simp [h, C.mem_dirty r']
  case currSize =>
    have := C.currSize
    simp [Shape.live] at this ⊢
    omega
  case cleanSize => exact C.cleanSize
  case dirtySize =>
    have := C.dirtySize
    simp
    omega

end Core

end DbCache

end WzGame
