import WzGame.Db.Cache.DbCacheLemmas.Inv

namespace WzGame

open NextChain

namespace DbCache

variable {δ : Type} {c : DbCache δ} {sh : Shape}

theorem bind_of_eq_some {α β : Type} {x : Option α} {a : α} {f : α → Option β} {res : Option β}
    (hx : x = some a) (hf : f a = res)
    : (x >>= f) = res := by
  rw [hx]
  exact hf

structure Keeps (c c' : DbCache δ) : Prop where
  lruHead : c'.lruHead = c.lruHead
  lruMid : c'.lruMid = c.lruMid
  dirtyHead : c'.dirtyHead = c.dirtyHead
  memHead : c'.memHead = c.memHead
  hashPorts : c'.hashPorts = c.hashPorts
  hashNext : c'.heap.hashNext = c.heap.hashNext
  key : c'.heap.key = c.heap.key
  currSize : c'.currSize = c.currSize
  hashSize : c'.hashSize = c.hashSize
  maxSize : c'.maxSize = c.maxSize
  maxCleanSize : c'.maxCleanSize = c.maxCleanSize

structure SameSizes (c c' : DbCache δ) : Prop where
  hashSize : c'.hashSize = c.hashSize
  maxSize : c'.maxSize = c.maxSize
  maxCleanSize : c'.maxCleanSize = c.maxCleanSize

def Agree (c c' : DbCache δ) (rs : List Nat) : Prop :=
  ∀ r ∈ rs, c'.heap.key r = c.heap.key r ∧ c'.heap.data r = c.heap.data r

theorem Agree.trans {c c' c'' : DbCache δ} {rs : List Nat} (h : Agree c c' rs)
    (h' : Agree c' c'' rs)
    : Agree c c'' rs := by
  intro r hr
  exact ⟨(h' r hr).1.trans (h r hr).1, (h' r hr).2.trans (h r hr).2⟩

theorem agree_update {c c' : DbCache δ} {rs : List Nat} {r : Nat} {k : Option Int} (hr : r ∉ rs)
    (hkey : c'.heap.key = Function.update c.heap.key r k) (hdata : c'.heap.data = c.heap.data)
    : Agree c c' rs := by
  intro r' hr'
  have hne : r' ≠ r := by
    rintro rfl
    exact hr hr'
  simp [hkey, hdata, hne]

namespace Inv

theorem fuel (I : Inv c sh) : sh.live.length ≤ c.chainFuel := by
  have := I.total
  have := I.currSize
  unfold chainFuel
  omega

theorem mem_live_of_clean {r : Nat} (hr : r ∈ sh.clean) : r ∈ sh.live := by
  simp [Shape.live, hr]

theorem mem_live_of_busy {r : Nat} (hr : r ∈ sh.busy) : r ∈ sh.live := by
  simp [Shape.live, hr]

theorem not_busy (I : Inv c sh) {r : Nat} (hr : r ∈ sh.clean) : r ∉ sh.busy := by
  intro hbusy
  exact (List.nodup_append.mp I.nodup_live).2.2 r hr r hbusy rfl

theorem move_clean {c' : DbCache δ} {r : Nat} {dirty' : List Nat} (I : Inv c sh)
    (hr : r ∈ sh.live) (hkeep : Keeps c c')
    (hring : c'.heap.lru.Ring sh.head (sh.clean.erase r ++ [r] ++ sh.mid :: sh.busy.erase r))
    (hdirtyRing : c'.heap.dirtyLinks.Ring sh.dirtyHead dirty')
    (hmem : ∀ r', r' ∈ dirty' ↔ r' ∈ sh.dirty ∧ r' ≠ r)
    (hdata : c'.heap.data r ≠ none) (hflag : c'.heap.dirty r = false)
    (hother : ∀ r', r' ≠ r →
      c'.heap.data r' = c.heap.data r' ∧ c'.heap.dirty r' = c.heap.dirty r')
    (hclean : c'.cleanSize = (sh.clean.erase r).length + 1)
    (hbusy : c'.dirtySize = (sh.busy.erase r).length)
    : Inv c' { sh.toClean r with dirty := dirty' } := by
  have hperm := live_toClean I.nodup_live hr
  refine ⟨?_, by rw [hkeep.currSize, hkeep.maxSize]; exact I.total⟩
  constructor
  case lruHead => exact hkeep.lruHead.trans I.lruHead
  case lruMid => exact hkeep.lruMid.trans I.lruMid
  case dirtyHead => exact hkeep.dirtyHead.trans I.dirtyHead
  case lruRing => exact hring
  case dirtyRing => exact hdirtyRing
  case hashed =>
    exact I.hashed.congr hkeep.hashSize hkeep.hashPorts hkeep.memHead hkeep.hashNext hkeep.key hperm
  case sentinel =>
    intro r' hr'
    apply I.sentinel r'
    exact (hperm.append_right sh.free).mem_iff.mpr hr'
  case loaded =>
    intro r' hr'
    by_cases h : r' = r
    . subst h
      exact ⟨hdata, hflag⟩
    . rw [(hother r' h).1, (hother r' h).2]
      apply I.loaded r'
      have : r' ∈ sh.clean.erase r := by simpa [Shape.toClean, h] using hr'
      exact List.mem_of_mem_erase this
  case pendingOrDirty =>
    intro r' hr'
    have hr' : r' ∈ sh.busy.erase r := hr'
    have h : r' ≠ r := by
      rintro rfl
      exact I.nodup_busy.not_mem_erase hr'
    rw [(hother r' h).1, (hother r' h).2]
    exact I.pendingOrDirty r' (List.mem_of_mem_erase hr')
  case mem_dirty =>
    intro r'
    show r' ∈ dirty' ↔ r' ∈ sh.busy.erase r ∧ _
    rw [hmem, I.mem_dirty, I.nodup_busy.mem_erase_iff]
    by_cases h : r' = r
    . simp [h]
    . rw [(hother r' h).2]
      tauto
  case currSize =>
    rw [hkeep.currSize, I.currSize]
    exact_mod_cast hperm.length_eq
  case cleanSize =>
    rw [hclean]
    simp [Shape.toClean]
  case dirtySize => exact hbusy

theorem move_dirty {c' : DbCache δ} {r : Nat} (I : Inv c sh)
    (hr : r ∈ sh.clean) (hkeep : Keeps c c')
    (hring : c'.heap.lru.Ring sh.head (sh.clean.erase r ++ sh.mid :: (sh.busy.erase r ++ [r])))
    (hdirtyRing : c'.heap.dirtyLinks.Ring sh.dirtyHead (sh.dirty ++ [r]))
    (hdata : c'.heap.data = c.heap.data) (hflag : c'.heap.dirty r = true)
    (hother : ∀ r', r' ≠ r → c'.heap.dirty r' = c.heap.dirty r')
    (hclean : c'.cleanSize = (sh.clean.erase r).length)
    (hbusy : c'.dirtySize = sh.busy.length + 1)
    : Inv c' { sh.toBusy r with dirty := sh.dirty ++ [r] } := by
  have hperm := live_toBusy I.nodup_live (mem_live_of_clean hr)
  have herase : sh.busy.erase r = sh.busy := List.erase_of_not_mem (I.not_busy hr)
  refine ⟨?_, by rw [hkeep.currSize, hkeep.maxSize]; exact I.total⟩
  constructor
  case lruHead => exact hkeep.lruHead.trans I.lruHead
  case lruMid => exact hkeep.lruMid.trans I.lruMid
  case dirtyHead => exact hkeep.dirtyHead.trans I.dirtyHead
  case lruRing => exact hring
  case dirtyRing => exact hdirtyRing
  case hashed =>
    exact I.hashed.congr hkeep.hashSize hkeep.hashPorts hkeep.memHead hkeep.hashNext hkeep.key hperm
  case sentinel =>
    intro r' hr'
    apply I.sentinel r'
    exact (hperm.append_right sh.free).mem_iff.mpr hr'
  case loaded =>
    intro r' hr'
    have hr' : r' ∈ sh.clean.erase r := hr'
    have h : r' ≠ r := by
      rintro rfl
      exact I.nodup_clean.not_mem_erase hr'
    rw [hdata, hother r' h]
    exact I.loaded r' (List.mem_of_mem_erase hr')
  case pendingOrDirty =>
    intro r' hr'
    rw [hdata]
    by_cases h : r' = r
    . subst h
      simp [hflag, (I.loaded r' hr).1]
    . rw [hother r' h]
      apply I.pendingOrDirty r'
      simpa [Shape.toBusy, herase, h] using hr'
  case mem_dirty =>
    intro r'
    show r' ∈ sh.dirty ++ [r] ↔ r' ∈ sh.busy.erase r ++ [r] ∧ _
    rw [herase]
    by_cases h : r' = r
    . subst h
      simp [hflag]
    . simp [h, I.mem_dirty, hother r' h]
  case currSize =>
    rw [hkeep.currSize, I.currSize]
    exact_mod_cast hperm.length_eq
  case cleanSize => exact hclean
  case dirtySize =>
    rw [hbusy]
    simp [Shape.toBusy, herase]

theorem dirty_of_mem (I : Inv c sh) {r : Nat} (hr : r ∈ sh.dirty)
    : r ∈ sh.busy ∧ c.heap.dirty r = true ∧ c.heap.data r ≠ none := by
  obtain ⟨hbusy, hflag⟩ := (I.mem_dirty r).mp hr
  exact ⟨hbusy, hflag, (I.pendingOrDirty r hbusy).mp hflag⟩

theorem not_dirty_of_clean (I : Inv c sh) {r : Nat} (hr : r ∈ sh.clean) : r ∉ sh.dirty := by
  intro h
  exact I.not_busy hr (I.dirty_of_mem h).1

theorem clean_or_dirty (I : Inv c sh) {r : Nat} (hr : r ∈ sh.live) (hdata : c.heap.data r ≠ none)
    : (r ∈ sh.clean ∧ c.heap.dirty r = false) ∨ (r ∈ sh.dirty ∧ c.heap.dirty r = true) := by
  rcases List.mem_append.mp hr with hclean | hbusy
  . exact .inl ⟨hclean, (I.loaded r hclean).2⟩
  . have hflag := (I.pendingOrDirty r hbusy).mpr hdata
    exact .inr ⟨(I.mem_dirty r).mpr ⟨hbusy, hflag⟩, hflag⟩

theorem pending_of_none (I : Inv c sh) {r : Nat} (hr : r ∈ sh.live) (hdata : c.heap.data r = none)
    : r ∈ sh.busy ∧ r ∉ sh.dirty ∧ c.heap.dirty r = false := by
  rcases List.mem_append.mp hr with hclean | hbusy
  . exact absurd hdata (I.loaded r hclean).1
  . have hflag : c.heap.dirty r = false := by
      have := (I.pendingOrDirty r hbusy).not
      simpa [hdata] using this
    refine ⟨hbusy, ?_, hflag⟩
    intro hdirty
    simp [((I.mem_dirty r).mp hdirty).2] at hflag

theorem query_cases (I : Inv c sh) {k : Int} {b : Nat} (hb : c.base k = some b)
    : (c.query k = some (none, c) ∧ ∀ r ∈ sh.live, c.heap.key r = some k → c.heap.data r = none)
        ∨ (∃ r ∈ sh.dirty, ∃ d, c.heap.key r = some k ∧ c.heap.data r = some d
            ∧ c.query k = some (some d, c))
        ∨ (∃ r ∈ sh.clean, ∃ d lru, c.heap.key r = some k ∧ c.heap.data r = some d
            ∧ c.query k = some (some d, { c with heap := { c.heap with lru := lru } })
            ∧ Inv { c with heap := { c.heap with lru := lru } } (sh.toClean r)) := by
  rcases I.hashed.hashFind_cases I.fuel hb with ⟨hfind, hnew⟩ | ⟨r, hr, hkey, hfind⟩
  . left
    refine ⟨by simp [query, hfind], ?_⟩
    intro r hr hkey
    exact absurd hkey (hnew r hr)
  . cases hdata : c.heap.data r with
    | none =>
      left
      refine ⟨by simp [query, hfind, hdata], ?_⟩
      intro r' hr' hkey'
      rw [I.hashed.key_inj r' hr' r hr (hkey'.trans hkey.symm), hdata]
    | some d =>
      right
      rcases I.clean_or_dirty hr (by simp [hdata]) with ⟨hclean, hflag⟩ | ⟨hdirty, hflag⟩
      . right
        obtain ⟨hhead, hmid, -⟩ := I.sentinel_live hr
        obtain ⟨lru, hsort, hring⟩ := lruSortClean_eq I.lruMid I.lruRing hhead hmid (.inl hr)
        refine ⟨r, hclean, d, lru, hkey, hdata, by simp [query, hfind, hdata, hflag, hsort], ?_⟩
        have hbusy : sh.busy.erase r = sh.busy := List.erase_of_not_mem (I.not_busy hclean)
        show Inv _ { sh.toClean r with dirty := sh.dirty }
        apply I.move_clean hr
        . constructor <;> rfl
        . exact hring
        . exact I.dirtyRing
        . intro r'
          constructor
          . intro h
            refine ⟨h, ?_⟩
            rintro rfl
            exact I.not_dirty_of_clean hclean h
          . exact And.left
        . simp [hdata]
        . exact hflag
        . intro r' _
          exact ⟨rfl, rfl⟩
        . have := List.length_erase_add_one hclean
          have := I.cleanSize
          simp only
          omega
        . rw [hbusy]
          exact I.dirtySize
      . left
        exact ⟨r, hdirty, d, hkey, hdata, by simp [query, hfind, hdata, hflag]⟩

theorem getNextDirtyNodeAndClean_cases (I : Inv c sh)
    : (sh.dirty = [] ∧ c.getNextDirtyNodeAndClean = some (none, c))
        ∨ ∃ r rest d c', sh.dirty = r :: rest ∧ c.heap.data r = some d
            ∧ c.getNextDirtyNodeAndClean = some (some d, c')
            ∧ Inv c' { sh.toClean r with dirty := rest }
            ∧ Keeps c c' ∧ c'.heap.data = c.heap.data := by
  have hnext : c.heap.dirtyLinks.next sh.dirtyHead = (sh.dirty ++ [sh.dirtyHead]).head? := by
    have hring : c.heap.dirtyLinks.Ring sh.dirtyHead ([] ++ sh.dirty) := I.dirtyRing
    exact hring.next_eq (List.nil_append _).symm
  cases hdirty : sh.dirty with
  | nil =>
    left
    refine ⟨rfl, ?_⟩
    rw [hdirty] at hnext
    simp [getNextDirtyNodeAndClean, I.dirtyHead, hnext]
  | cons r rest =>
    right
    rw [hdirty] at hnext
    obtain ⟨hbusy, hflag, hdata⟩ := I.dirty_of_mem (r := r) (by simp [hdirty])
    obtain ⟨d, hd⟩ := Option.ne_none_iff_exists'.mp hdata
    have hr := mem_live_of_busy hbusy
    obtain ⟨hhead, hmid, hdh⟩ := I.sentinel_live hr
    obtain ⟨lru, hsort, hring⟩ := lruSortClean_eq
      (c := { c with heap := (c.heap.dirtyDel r).setDirty r false })
      I.lruMid I.lruRing hhead hmid (.inl hr)
    have hres : c.getNextDirtyNodeAndClean = some (some d, { c with
        heap := { (c.heap.dirtyDel r).setDirty r false with lru := lru }
        dirtySize := c.dirtySize - 1
        cleanSize := c.cleanSize + 1 }) := by
      unfold getNextDirtyNodeAndClean
      refine bind_of_eq_some I.dirtyHead ?_
      refine bind_of_eq_some hnext ?_
      rw [if_neg hdh]
      refine bind_of_eq_some hsort ?_
      simp [hd]
    refine ⟨r, rest, d, _, rfl, hd, hres, ?_, by constructor <;> rfl, rfl⟩
    have hnodup := I.dirtyRing.nodup
    rw [hdirty] at hnodup
    have hclean : r ∉ sh.clean := fun h => I.not_busy h hbusy
    apply I.move_clean hr
    . constructor <;> rfl
    . exact hring
    . have hfront : c.heap.dirtyLinks.Ring sh.dirtyHead ([] ++ r :: rest) := by
        rw [← hdirty]
        exact I.dirtyRing
      exact hfront.unlink
    . intro r'
      rw [hdirty]
      have hrest : r ∉ rest := (List.nodup_cons.mp (List.nodup_cons.mp hnodup).2).1
      constructor
      . intro h
        refine ⟨by simp [h], ?_⟩
        rintro rfl
        exact hrest h
      . rintro ⟨h, hne⟩
        exact (List.mem_cons.mp h).resolve_left hne
    . exact hdata
    . simp
    . intro r' hr'
      simp [hr']
    . have := I.cleanSize
      rw [List.erase_of_not_mem hclean]
      simp [this]
    . have := List.length_erase_add_one hbusy
      have := I.dirtySize
      simp only
      omega

theorem setData_cases (I : Inv c sh) {k : Int} {b : Nat} (hb : c.base k = some b)
    (data : Option δ)
    : (c.setData k data = some (none, c) ∧ ∀ r ∈ sh.live, c.heap.key r ≠ some k)
        ∨ (∃ r ∈ sh.live, ∃ old, c.heap.key r = some k ∧ c.heap.data r = some old
            ∧ c.setData k data = some (some old, c))
        ∨ (∃ r ∈ sh.live, ∃ d c', c.heap.key r = some k ∧ c.heap.data r = none ∧ data = some d
            ∧ c.setData k data = some (some d, c') ∧ Inv c' (sh.toClean r) ∧ Keeps c c'
            ∧ c'.heap.data = Function.update c.heap.data r (some d))
        ∨ (∃ r ∈ sh.live, ∃ c' bucket, c.heap.key r = some k ∧ c.heap.data r = none ∧ data = none
            ∧ c.setData k data = some (none, c')
            ∧ Inv c' { sh with
                busy := sh.busy.erase r, free := r :: sh.free, bucket := bucket }
            ∧ SameSizes c c' ∧ Agree c c' (sh.live.erase r)) := by
  rcases I.hashed.hashFind_cases I.fuel hb with ⟨hfind, hnew⟩ | ⟨r, hr, hkey, hfind⟩
  . left
    exact ⟨by simp [setData, hfind], hnew⟩
  right
  cases hdata : c.heap.data r with
  | some old =>
    left
    exact ⟨r, hr, old, hkey, hdata, by simp [setData, hfind, hdata]⟩
  | none =>
    right
    obtain ⟨hbusy, hdirty, hflag⟩ := I.pending_of_none hr hdata
    have hclean : r ∉ sh.clean := fun h => I.not_busy h hbusy
    cases data with
    | some d =>
      left
      obtain ⟨hhead, hmid, -⟩ := I.sentinel_live hr
      obtain ⟨lru, hsort, hring⟩ := lruSortClean_eq
        (c := { c with heap := c.heap.setData r (some d) }) I.lruMid I.lruRing hhead hmid (.inl hr)
      refine ⟨r, hr, d, { c with
        heap := { c.heap.setData r (some d) with lru := lru }
        dirtySize := c.dirtySize - 1
        cleanSize := c.cleanSize + 1 }, hkey, hdata, rfl, ?_, ?_, by constructor <;> rfl, rfl⟩
      . unfold setData
        refine bind_of_eq_some hfind ?_
        simp only [hdata]
        refine bind_of_eq_some hsort ?_
        rfl
      show Inv _ { sh.toClean r with dirty := sh.dirty }
      apply I.move_clean hr
      . constructor <;> rfl
      . exact hring
      . exact I.dirtyRing
      . intro r'
        constructor
        . intro h
          refine ⟨h, ?_⟩
          rintro rfl
          exact hdirty h
        . exact And.left
      . simp
      . exact hflag
      . intro r' hr'
        simp [hr']
      . have := I.cleanSize
        rw [List.erase_of_not_mem hclean]
        simp [this]
      . have := List.length_erase_add_one hbusy
        have := I.dirtySize
        simp only
        omega
    | none =>
      right
      obtain ⟨next, ports, hdel, H⟩ := I.hashed.hashDel_eq I.fuel hr hkey hb
      have hlen := List.length_erase_add_one hr
      obtain ⟨C, F⟩ := I.toCore.drop c.cleanSize (c.dirtySize - 1) hr hdirty H
        (by have := I.currSize; omega)
        (by rw [List.erase_of_not_mem hclean]; exact I.cleanSize)
        (by have := List.length_erase_add_one hbusy; have := I.dirtySize; omega)
      rw [List.erase_of_not_mem hclean] at C F
      refine ⟨r, hr, _, _, hkey, hdata, rfl, ?_, ⟨C.put_free F, ?_⟩, by constructor <;> rfl, ?_⟩
      . unfold setData
        refine bind_of_eq_some hfind ?_
        simp only [hdata]
        refine bind_of_eq_some hdel ?_
        rfl
      . have := I.total
        simp
        omega
      . intro r' hr'
        have hne : r' ≠ r := by
          rintro rfl
          exact I.nodup_live.not_mem_erase hr'
        simp [hne]

theorem setDirty_cases (I : Inv c sh) {k : Int} {b : Nat} (hb : c.base k = some b)
    : (c.setDirty k = some (false, c) ∧ ∀ r ∈ sh.live, c.heap.key r = some k → c.heap.data r = none)
        ∨ (∃ r ∈ sh.dirty, c.heap.key r = some k ∧ c.setDirty k = some (true, c))
        ∨ (∃ r ∈ sh.clean, ∃ c', c.heap.key r = some k ∧ c.setDirty k = some (true, c')
            ∧ Inv c' { sh.toBusy r with dirty := sh.dirty ++ [r] } ∧ Keeps c c'
            ∧ c'.heap.data = c.heap.data) := by
  rcases I.hashed.hashFind_cases I.fuel hb with ⟨hfind, hnew⟩ | ⟨r, hr, hkey, hfind⟩
  . left
    refine ⟨by simp [setDirty, hfind], ?_⟩
    intro r hr hkey
    exact absurd hkey (hnew r hr)
  cases hdata : c.heap.data r with
  | none =>
    left
    refine ⟨by simp [setDirty, hfind, hdata], ?_⟩
    intro r' hr' hkey'
    rw [I.hashed.key_inj r' hr' r hr (hkey'.trans hkey.symm), hdata]
  | some d =>
    right
    rcases I.clean_or_dirty hr (by simp [hdata]) with ⟨hclean, hflag⟩ | ⟨hdirty, hflag⟩
    . right
      obtain ⟨hhead, hmid, hdh⟩ := I.sentinel_live hr
      obtain ⟨tail, htail⟩ : ∃ tail, (sh.dirtyHead :: sh.dirty).getLast? = some tail :=
        ⟨_, List.getLast?_eq_some_getLast (by simp)⟩
      have hring : c.heap.dirtyLinks.Ring sh.dirtyHead (sh.dirty ++ []) := by
        rw [List.append_nil]
        exact I.dirtyRing
      have hprev := hring.prev_eq (b := sh.dirtyHead) (List.nil_append _)
      have hout : r ∉ sh.dirtyHead :: (sh.dirty ++ []) := by
        simp [hdh, I.not_dirty_of_clean hclean]
      obtain ⟨links, hlinks, hdirtyRing⟩ := hring.insertAfter hout htail
      obtain ⟨lru, hsort, hlruRing⟩ := lruSortDirty_eq
        (c := { c with heap := { c.heap.setDirty r true with dirtyLinks := links } })
        I.lruHead I.lruRing hhead hmid (.inl hr)
      refine ⟨r, hclean, { c with
        heap := { c.heap.setDirty r true with dirtyLinks := links, lru := lru }
        dirtySize := c.dirtySize + 1
        cleanSize := c.cleanSize - 1 }, hkey, ?_, ?_, by constructor <;> rfl, rfl⟩
      . unfold setDirty
        refine bind_of_eq_some hfind ?_
        simp only [hdata, hflag, Bool.false_eq_true, if_false]
        refine bind_of_eq_some I.dirtyHead ?_
        refine bind_of_eq_some (hprev.trans htail) ?_
        refine bind_of_eq_some (show _ = some _ from bind_of_eq_some hlinks rfl) ?_
        refine bind_of_eq_some hsort ?_
        rfl
      apply I.move_dirty hclean
      . constructor <;> rfl
      . exact hlruRing
      . exact hdirtyRing
      . rfl
      . simp
      . intro r' hr'
        simp [hr']
      . have := List.length_erase_add_one hclean
        have := I.cleanSize
        simp only
        omega
      . have := I.dirtySize
        simp only
        omega
    . left
      exact ⟨r, hdirty, hkey, by simp [setDirty, hfind, hdata, hflag]⟩

theorem malloc_cases (I : Inv c sh)
    : (∃ r rest c', sh.free = r :: rest ∧ c.cleanSize < c.maxCleanSize
          ∧ c.malloc = some (some r, c') ∧ Core c' { sh with free := rest }
          ∧ Fresh c' { sh with free := rest } r
          ∧ SameSizes c c' ∧ Agree c c' sh.live ∧ rest.length + c'.currSize + 1 = c'.maxSize)
        ∨ (∃ r rest c' bucket, sh.clean = r :: rest ∧ ¬ (sh.free ≠ [] ∧ c.cleanSize < c.maxCleanSize)
          ∧ c.malloc = some (some r, c')
          ∧ Core c' { sh with clean := rest, bucket := bucket }
          ∧ Fresh c' { sh with clean := rest, bucket := bucket } r
          ∧ SameSizes c c' ∧ Agree c c' (sh.live.erase r)
          ∧ sh.free.length + c'.currSize + 1 = c'.maxSize)
        ∨ (sh.clean = [] ∧ ¬ (sh.free ≠ [] ∧ c.cleanSize < c.maxCleanSize)
          ∧ c.malloc = some (none, c)) := by
  have hmem := chain_head? I.hashed.freeChain
  by_cases hroom : sh.free ≠ [] ∧ c.cleanSize < c.maxCleanSize
  . left
    obtain ⟨hfree, hlt⟩ := hroom
    obtain ⟨r, rest, hfree⟩ := List.exists_cons_of_ne_nil hfree
    obtain ⟨C, F⟩ := I.toCore.take_free hfree
    rw [hfree] at hmem
    refine ⟨r, rest, _, hfree, hlt, by simp [malloc, hmem, hlt], C, F, by constructor <;> rfl, ?_, ?_⟩
    . intro r' hr'
      have hne : r' ≠ r := by
        rintro rfl
        exact F.not_live hr'
      simp [hne]
    . have := I.total
      rw [hfree] at this
      simp at this ⊢
      omega
  right
  have hnext : c.heap.lru.next sh.head = (sh.clean ++ sh.mid :: sh.busy ++ [sh.head]).head? := by
    have hring : c.heap.lru.Ring sh.head ([] ++ (sh.clean ++ sh.mid :: sh.busy)) := I.lruRing
    exact hring.next_eq (List.nil_append _).symm
  -- the first two lines of `malloc` do not apply
  have hmalloc : c.malloc = (do
      let head ← c.lruHead
      let node := c.heap.lru.next head
      if node ≠ c.lruMid then
        let node ← node
        let key ← c.heap.key node
        let c ← c.hashDel key
        let h := c.heap.dlistDel node
        return (some node, { c with
          heap := h.initCashNode node
          cleanSize := c.cleanSize - 1 })
      else
        return (none, c)) := by
    unfold malloc
    cases hfree : sh.free with
    | nil => simp [hmem, hfree]
    | cons r rest =>
      have hle : ¬ c.cleanSize < c.maxCleanSize := fun h => hroom ⟨by simp [hfree], h⟩
      simp [hmem, hfree, hle]
  cases hclean : sh.clean with
  | nil =>
    right
    refine ⟨rfl, hroom, ?_⟩
    rw [hclean] at hnext
    rw [hmalloc]
    simp [I.lruHead, I.lruMid, hnext]
  | cons r rest =>
    left
    rw [hclean] at hnext
    have hr : r ∈ sh.clean := by simp [hclean]
    have hlive := mem_live_of_clean hr
    obtain ⟨-, hmid, -⟩ := I.sentinel_live hlive
    obtain ⟨k, b, hkey, hb⟩ := I.hashed.keyed r hlive
    obtain ⟨next, ports, hdel, H⟩ := I.hashed.hashDel_eq I.fuel hlive hkey hb
    have herase : sh.clean.erase r = rest := by simp [hclean]
    have hbusy := List.erase_of_not_mem (I.not_busy hr)
    have hlen := List.length_erase_add_one hlive
    obtain ⟨C, F⟩ := I.toCore.drop (c.cleanSize - 1) c.dirtySize hlive
      (I.not_dirty_of_clean hr) H
      (by have := I.currSize; omega)
      (by have := I.cleanSize; have := List.length_erase_add_one hr; omega)
      (by rw [hbusy]; exact I.dirtySize)
    rw [herase, hbusy] at C F
    refine ⟨r, rest, _, _, rfl, hroom, ?_, C, F, by constructor <;> rfl, ?_, ?_⟩
    . rw [hmalloc]
      refine bind_of_eq_some I.lruHead ?_
      rw [if_pos (by simp [hnext, I.lruMid, hmid])]
      refine bind_of_eq_some hnext ?_
      refine bind_of_eq_some hkey ?_
      refine bind_of_eq_some hdel ?_
      rfl
    . intro r' hr'
      have hne : r' ≠ r := by
        rintro rfl
        exact I.nodup_live.not_mem_erase hr'
      simp [hne]
    . have := I.total
      simp
      omega

theorem occupy_cases (I : Inv c sh) {k : Int} {b : Nat} (hb : c.base k = some b)
    : (∃ r ∈ sh.live, c.heap.key r = some k ∧ c.occupy k = some (true, c))
        ∨ (∀ r ∈ sh.live, c.heap.key r ≠ some k)
          ∧ ((∃ r rest c' bucket, sh.free = r :: rest ∧ c.cleanSize < c.maxCleanSize
              ∧ c.occupy k = some (true, c')
              ∧ Inv c' { sh with busy := sh.busy ++ [r], free := rest, bucket := bucket }
              ∧ SameSizes c c' ∧ Agree c c' sh.live
              ∧ c'.heap.key r = some k ∧ c'.heap.data r = none)
            ∨ (∃ r rest c' bucket, sh.clean = r :: rest
              ∧ ¬ (sh.free ≠ [] ∧ c.cleanSize < c.maxCleanSize)
              ∧ c.occupy k = some (true, c')
              ∧ Inv c' { sh with clean := rest, busy := sh.busy ++ [r], bucket := bucket }
              ∧ SameSizes c c' ∧ Agree c c' (sh.live.erase r)
              ∧ c'.heap.key r = some k ∧ c'.heap.data r = none)
            ∨ (sh.clean = [] ∧ ¬ (sh.free ≠ [] ∧ c.cleanSize < c.maxCleanSize)
              ∧ c.occupy k = some (false, c))) := by
  rcases I.hashed.hashFind_cases I.fuel hb with ⟨hfind, hnew⟩ | ⟨r, hr, hkey, hfind⟩
  case inr =>
    left
    exact ⟨r, hr, hkey, by simp [occupy, hfind]⟩
  right
  refine ⟨hnew, ?_⟩
  have hoccupy : ∀ r c₀ c₁ c₂, c.malloc = some (some r, c₀)
      → { c₀ with heap := c₀.heap.setKey r (some k) }.hashAdd r = some c₁
      → c₁.lruSortDirty r = some c₂
      → c.occupy k = some (true, { c₂ with dirtySize := c₂.dirtySize + 1 }) := by
    intro r c₀ c₁ c₂ hmalloc hadd hsort
    unfold occupy
    refine bind_of_eq_some hfind ?_
    refine bind_of_eq_some hmalloc ?_
    refine bind_of_eq_some hadd ?_
    refine bind_of_eq_some hsort ?_
    rfl
  rcases I.malloc_cases with
    ⟨r, rest, c₀, hfree, hlt, hmalloc, C, F, S, A, hn⟩
      | ⟨r, rest, c₀, bucket, hclean, hroom, hmalloc, C, F, S, A, hn⟩ | ⟨hclean, hroom, hmalloc⟩
  . left
    obtain ⟨c₁, c₂, bucket, hadd, hsort, C₂, hkey, hdata, hcurr, hmax, hmaxClean, hhash⟩ :=
      C.insert_fresh F ((base_congr S.hashSize k).trans hb)
        (fun r' hr' => by rw [(A r' hr').1]; exact hnew r' hr')
    refine ⟨r, rest, _, bucket, hfree, hlt, hoccupy r c₀ c₁ c₂ hmalloc hadd hsort, ⟨C₂, ?_⟩, ?_,
      ?_, ?_, ?_⟩
    . simp only
      omega
    . constructor
      . exact hhash.trans S.hashSize
      . exact hmax.trans S.maxSize
      . exact hmaxClean.trans S.maxCleanSize
    . apply A.trans
      exact agree_update F.not_live hkey hdata
    . simp [hkey]
    . simp [hdata, F.data]
  . right
    left
    have hlive : sh.live.erase r = rest ++ sh.busy := by simp [Shape.live, hclean]
    rw [hlive] at A
    obtain ⟨c₁, c₂, bucket', hadd, hsort, C₂, hkey, hdata, hcurr, hmax, hmaxClean, hhash⟩ :=
      C.insert_fresh F ((base_congr S.hashSize k).trans hb)
        (by
          intro r' hr'
          rw [(A r' hr').1]
          apply hnew r'
          rw [Shape.live, hclean]
          exact List.mem_cons_of_mem r hr')
    refine ⟨r, rest, _, bucket', hclean, hroom, hoccupy r c₀ c₁ c₂ hmalloc hadd hsort, ⟨C₂, ?_⟩, ?_,
      ?_, ?_, ?_⟩
    . simp only
      omega
    . constructor
      . exact hhash.trans S.hashSize
      . exact hmax.trans S.maxSize
      . exact hmaxClean.trans S.maxCleanSize
    . rw [hlive]
      apply A.trans
      exact agree_update F.not_live hkey hdata
    . simp [hkey]
    . simp [hdata, F.data]
  . right
    right
    refine ⟨hclean, hroom, ?_⟩
    unfold occupy
    refine bind_of_eq_some hfind ?_
    refine bind_of_eq_some hmalloc ?_
    rfl

end Inv

end DbCache

end WzGame
