import WzGame.Db.Cache.DbCacheContents

/-!
This module contains in which order dirty data is taken out of a `DbCache` for saving, and when the
number of clean nodes keeps its limit.
-/

namespace WzGame

open Runs

structure SaveLog (δ : Type) where
  cache : DbCache δ
  marked : List (Int × δ)
  returned : List δ

namespace SaveLog

variable {δ : Type}

def marks (c : DbCache δ) : CacheOp Int δ → List (Int × δ)
  | .setDirty key =>
    match (c.hashFind key).join with
    | some node => if c.heap.dirty node then [] else (c.heap.data node).toList.map (key, ·)
    | none => []
  | _ => []

def returns : CacheOp Int δ → CacheOut δ → List δ
  | .getNextDirtyNodeAndClean, .data d => d.toList
  | _, _ => []

def exec (s : SaveLog δ) (op : CacheOp Int δ) : Option (SaveLog δ) := do
  let (out, c) ← s.cache.exec op
  return ⟨c, s.marked ++ marks s.cache op, s.returned ++ returns op out⟩

variable {c c₀ : DbCache δ} {m m' : LruMap Int δ} {maxSize maxClean : Int} {s : SaveLog δ}
  {op : CacheOp Int δ} {out : CacheOut δ}

theorem marks_setDirty (hR : DbCache.Refines maxSize maxClean c m) {k : Int}
    : (m.Clean k → ∃ d, m.data k = some d ∧ marks c (.setDirty k) = [(k, d)])
        ∧ (¬ m.Clean k → marks c (.setDirty k) = []) := by
  obtain ⟨-, -, sh, I, R⟩ := id hR
  cases hfind : (c.hashFind k).join with
  | none =>
    have hdata : m.data k = none := by
      cases hd : m.data k with
      | none => rfl
      | some d =>
        obtain ⟨node, hnode, -⟩ := (DbCache.holds_iff hR).mpr hd
        simp [hnode] at hfind
    constructor
    . intro hclean
      exact absurd hdata hclean.1
    . intro _
      simp [marks, hfind]
  | some node =>
    have hnode : c.hashFind k = some (some node) := Option.join_eq_some_iff.mp hfind
    obtain ⟨hr, hkey⟩ := (I.hashed.hashFind_iff I.fuel).mp hnode
    have hdata := R.data node hr k hkey
    have hclean : m.Clean k ↔ node ∈ sh.clean := by
      rw [R.clean_iff I]
      constructor
      . rintro ⟨r, hr', hkey'⟩
        obtain rfl := I.hashed.key_inj r (DbCache.Inv.mem_live_of_clean hr') node hr
          (hkey'.trans hkey.symm)
        exact hr'
      . exact fun h => ⟨node, h, hkey⟩
    constructor
    . intro h
      obtain ⟨hloaded, hflag⟩ := I.loaded node (hclean.mp h)
      obtain ⟨d, hd⟩ := Option.ne_none_iff_exists'.mp hloaded
      exact ⟨d, hdata.trans hd, by simp [marks, hfind, hflag, hd]⟩
    . intro h
      by_cases hloaded : c.heap.data node = none
      . simp [marks, hfind, hloaded]
      . rcases I.clean_or_dirty hr hloaded with ⟨hmem, -⟩ | ⟨-, hflag⟩
        . exact absurd (hclean.mpr hmem) h
        . simp [marks, hfind, hflag]

structure Ordered (maxSize maxClean : Int) (s : SaveLog δ) (m : LruMap Int δ)
    (served waiting : List (Int × δ)) : Prop where
  refines : DbCache.Refines maxSize maxClean s.cache m
  wf : m.WF
  marked : s.marked = served ++ waiting
  returned : s.returned = served.map Prod.snd
  queue : m.queue = waiting.map Prod.fst
  data : ∀ p ∈ waiting, m.data p.1 = some p.2

theorem Ordered.kept {served waiting : List (Int × δ)} (O : Ordered maxSize maxClean s m served waiting)
    {call : CacheOp Int δ × CacheOut δ} (hstep : LruMap.Step maxSize maxClean m call m')
    : ∀ p ∈ waiting, m'.data p.1 = some p.2 := by
  intro p hp
  have hdirty : m.Dirty p.1 := by
    unfold LruMap.Dirty
    rw [O.queue]
    exact List.mem_map_of_mem hp
  rcases hstep.data_kept (O.data p hp) with h | ⟨-, -, -, hvictim, -⟩
  . exact h
  . exact absurd hdirty hvictim.1.2

theorem Ordered.exec {served waiting : List (Int × δ)}
    (O : Ordered maxSize maxClean s m served waiting) (hop : op.NonNeg)
    : ∃ s' m' served' waiting', s.exec op = some s'
        ∧ Ordered maxSize maxClean s' m' served' waiting' := by
  obtain ⟨-, -, sh, I, -⟩ := id O.refines
  obtain ⟨out, c', -, hexec, -⟩ := DbCache.exec_inv I hop
  obtain ⟨m', hstep, hR'⟩ := DbCache.simulates maxSize maxClean s.cache m (op, out) c' O.refines
    trivial hexec
  have hwf := hstep.wf O.wf
  have hexec' : s.exec op
      = some ⟨c', s.marked ++ marks s.cache op, s.returned ++ returns op out⟩ := by
    simp [SaveLog.exec, hexec]
  have hkept := O.kept hstep
  have hsame : m'.queue = m.queue → marks s.cache op = [] → returns op out = []
      → ∃ s' m' served' waiting', s.exec op = some s'
        ∧ Ordered maxSize maxClean s' m' served' waiting' := by
    intro hqueue hmarks hreturns
    rw [hmarks, hreturns, List.append_nil, List.append_nil] at hexec'
    exact ⟨_, m', served, waiting, hexec',
      ⟨hR', hwf, O.marked, O.returned, hqueue.trans O.queue, hkept⟩⟩
  cases hstep with
  | @setDirtyClean k hclean =>
    obtain ⟨d, hd, hmarks⟩ := (marks_setDirty O.refines).1 hclean
    refine ⟨_, _, served, waiting ++ [(k, d)], hexec', ⟨hR', hwf, ?_, ?_, ?_, ?_⟩⟩
    . simp [hmarks, O.marked]
    . simp [returns, O.returned]
    . simp [O.queue]
    . intro p hp
      rcases List.mem_append.mp hp with hp | hp
      . exact hkept p hp
      . obtain rfl := List.mem_singleton.mp hp
        exact hd
  | setDirtyDirty hdirty =>
    exact hsame rfl ((marks_setDirty O.refines).2 fun h => h.2 hdirty) rfl
  | setDirtyMiss hdata => exact hsame rfl ((marks_setDirty O.refines).2 fun h => h.1 hdata) rfl
  | @nextDirty k d rest hqueue hd =>
    have hwaiting := O.queue
    rw [hqueue] at hwaiting
    obtain ⟨⟨k', d'⟩, waiting', rfl, rfl, hrest⟩ := List.map_eq_cons_iff.mp hwaiting.symm
    obtain rfl : d' = d := Option.some.inj ((O.data _ (by simp)).symm.trans hd)
    refine ⟨_, _, served ++ [(k', d')], waiting', hexec', ⟨hR', hwf, ?_, ?_, hrest.symm, ?_⟩⟩
    . simp [marks, O.marked]
    . simp [returns, O.returned]
    . exact fun p hp => hkept p (List.mem_cons_of_mem _ hp)
  | _ => exact hsame rfl rfl rfl

def Waits (c : DbCache δ) (waiting : List (Int × δ)) : Prop :=
  (waiting.map Prod.fst).Nodup ∧ (∀ p ∈ waiting, c.Holds p.1 p.2)
    ∧ ∃ head nodes, c.dirtyHead = some head ∧ c.heap.dirtyLinks.Ring head nodes
      ∧ nodes.map c.heap.key = waiting.map (some ∘ Prod.fst)
      ∧ nodes.map c.heap.data = waiting.map (some ∘ Prod.snd)

theorem Ordered.waits {served waiting : List (Int × δ)} (O : Ordered maxSize maxClean s m served waiting)
    : Waits s.cache waiting := by
  refine ⟨?_, fun p hp => (DbCache.holds_iff O.refines).mpr (O.data p hp), ?_⟩
  . rw [← O.queue]
    exact O.wf.nodup
  . obtain ⟨-, -, sh, I, R⟩ := O.refines
    have hkeys : sh.dirty.map s.cache.heap.key = waiting.map (some ∘ Prod.fst) := by
      rw [← R.queue, O.queue, List.map_map]
    refine ⟨sh.dirtyHead, sh.dirty, I.dirtyHead, I.dirtyRing, hkeys, ?_⟩
    apply List.ext_getElem?
    intro i
    have hi := congrArg (fun l : List (Option Int) => l[i]?) hkeys
    simp only [List.getElem?_map] at hi ⊢
    cases hw : waiting[i]? with
    | none =>
      rw [hw] at hi
      have : sh.dirty[i]? = none := by simpa using hi
      simp [this]
    | some p =>
      rw [hw] at hi
      obtain ⟨r, hr, hkey⟩ := Option.map_eq_some_iff.mp hi
      have hdata := R.data r (I.dirty_subset (List.mem_of_getElem? hr)) p.1 hkey
      rw [O.data p (List.mem_of_getElem? hw)] at hdata
      simp [hr, hdata]

theorem Ordered.next {served waiting : List (Int × δ)} (O : Ordered maxSize maxClean s m served waiting)
    : ∃ c', s.cache.getNextDirtyNodeAndClean = some (waiting.head?.map Prod.snd, c') ∧ Waits c' waiting.tail := by
  obtain ⟨-, -, sh, I, -⟩ := id O.refines
  have hop : (CacheOp.getNextDirtyNodeAndClean : CacheOp Int δ).NonNeg := trivial
  obtain ⟨out, c', -, hexec, -⟩ := DbCache.exec_inv I hop
  obtain ⟨m', hstep, hR'⟩ := DbCache.simulates maxSize maxClean s.cache m (.getNextDirtyNodeAndClean, out) c' O.refines
    trivial hexec
  have hwf := hstep.wf O.wf
  have hkept := O.kept hstep
  obtain ⟨⟨d, c''⟩, hnext, hout⟩ := Option.map_eq_some_iff.mp hexec
  obtain ⟨rfl, rfl⟩ := Prod.mk.inj hout
  cases hstep with
  | nextEmpty hempty =>
    obtain rfl : waiting = [] := List.map_eq_nil_iff.mp (O.queue.symm.trans hempty)
    have O' : Ordered maxSize maxClean ⟨c'', s.marked, s.returned⟩ m served [] :=
      ⟨hR', hwf, O.marked, O.returned, O.queue, O.data⟩
    exact ⟨c'', hnext, O'.waits⟩
  | @nextDirty k d rest hqueue hd =>
    have hwaiting := O.queue
    rw [hqueue] at hwaiting
    obtain ⟨⟨k', d'⟩, waiting', rfl, rfl, hrest⟩ := List.map_eq_cons_iff.mp hwaiting.symm
    obtain rfl : d' = d := Option.some.inj ((O.data _ List.mem_cons_self).symm.trans hd)
    have O' : Ordered maxSize maxClean ⟨c'', s.marked, s.returned ++ [d']⟩ _ (served ++ [(k', d')]) waiting' :=
      ⟨hR', hwf, by simp [O.marked], by simp [O.returned], hrest.symm,
        fun p hp => hkept p (List.mem_cons_of_mem _ hp)⟩
    exact ⟨c'', hnext, O'.waits⟩

/--
The data returned for saving is the data that has been marked dirty, in that order and each once. What has not been
returned yet stands in the dirty list, in the same order, and is still held; the next call takes its head.
-/
theorem save_order {hashSize nodeSize maxCleanSize : Int}
    (hinit : (DbCache.new : DbCache δ).init hashSize nodeSize maxCleanSize = some (true, c₀))
    (ops : List (CacheOp Int δ)) (hops : ∀ op ∈ ops, op.NonNeg)
    : ∃ s served waiting, ops.foldlM exec ⟨c₀, [], []⟩ = some s ∧ s.marked = served ++ waiting
        ∧ s.returned = served.map Prod.snd ∧ Waits s.cache waiting
        ∧ ∃ c', s.cache.getNextDirtyNodeAndClean = some (waiting.head?.map Prod.snd, c')
          ∧ Waits c' waiting.tail := by
  obtain ⟨s, m, served, waiting, hrun, O⟩ : ∃ s m served waiting,
      ops.foldlM exec ⟨c₀, [], []⟩ = some s ∧ Ordered nodeSize maxCleanSize s m served waiting := by
    induction ops using List.reverseRecOn with
    | nil =>
      refine ⟨⟨c₀, [], []⟩, .empty, [], [], rfl, DbCache.refines_init hinit, LruMap.wf_empty, rfl, rfl,
        rfl, by simp⟩
    | append_singleton ops op ih =>
      obtain ⟨s, m, served, waiting, hrun, O⟩ := ih fun op' h => hops op' (by simp [h])
      obtain ⟨s', m', served', waiting', hexec, O'⟩ := O.exec (hops op (by simp))
      exact ⟨s', m', served', waiting', by simp [List.foldlM_append, hrun, hexec], O'⟩
  exact ⟨s, served, waiting, hrun, O.marked, O.returned, O.waits, O.next⟩

theorem save_order_twoKeys
    : ∃ c₀ : DbCache Nat, DbCache.new.init 3 2 2 = some (true, c₀)
        ∧ ∃ s c', [.occupy 5, .setData 5 (some 7), .occupy 8, .setData 8 (some 9), .setDirty 8, .setDirty 5,
            .setDirty 8].foldlM exec ⟨c₀, [], []⟩ = some s
          ∧ s.marked = [(8, 9), (5, 7)] ∧ s.returned = [] ∧ Waits s.cache [(8, 9), (5, 7)]
          ∧ s.cache.getNextDirtyNodeAndClean = some (some 9, c') ∧ Waits c' [(5, 7)] := by
  obtain ⟨c₀, hinit⟩ : ∃ c₀ : DbCache Nat, DbCache.new.init 3 2 2 = some (true, c₀) := ⟨_, rfl⟩
  obtain ⟨s, served, waiting, hrun, hmarked, hreturned, hwaits, c', hnext, hwaits'⟩ := save_order hinit
    [.occupy 5, .setData 5 (some 7), .occupy 8, .setData 8 (some 9), .setDirty 8, .setDirty 5, .setDirty 8]
    (by simp [CacheOp.NonNeg])
  have hlog : (((DbCache.new : DbCache Nat).init 3 2 2).bind fun p =>
      (([.occupy 5, .setData 5 (some 7), .occupy 8, .setData 8 (some 9), .setDirty 8, .setDirty 5, .setDirty 8]
        : List (CacheOp Int Nat)).foldlM exec ⟨p.2, [], []⟩).map fun s => (s.marked, s.returned))
        = some ([(8, 9), (5, 7)], []) := by
    decide +kernel
  rw [hinit, Option.bind_some, hrun] at hlog
  obtain ⟨hm, hr⟩ := Prod.mk.inj (Option.some.inj hlog)
  obtain rfl : served = [] := List.map_eq_nil_iff.mp (hreturned.symm.trans hr)
  obtain rfl : waiting = [(8, 9), (5, 7)] := hmarked.symm.trans hm
  exact ⟨c₀, hinit, s, c', hrun, hm, hr, hwaits, hnext, hwaits'⟩

end SaveLog

namespace DbCache

variable {δ : Type} {c c' c₀ c₁ : DbCache δ} {sh : Shape} {op : CacheOp Int δ} {out : CacheOut δ}

def BecomesClean (c : DbCache δ) : CacheOp Int δ → Prop
  | .setData key (some _) => ∃ node, c.hashFind key = some (some node) ∧ c.heap.data node = none
  | .getNextDirtyNodeAndClean => c.dirtyHead.bind c.heap.dirtyLinks.next ≠ c.dirtyHead
  | _ => False

theorem becomesClean_setData {k : Int} {d : δ} {node : Nat} (hfind : c.hashFind k = some (some node))
    : c.BecomesClean (.setData k (some d)) ↔ c.heap.data node = none := by
  constructor
  . rintro ⟨node', hfind', hdata⟩
    obtain rfl : node = node' := by simpa [hfind] using hfind'
    exact hdata
  . exact fun hdata => ⟨node, hfind, hdata⟩

theorem becomesClean_next (I : Inv c sh)
    : c.BecomesClean .getNextDirtyNodeAndClean ↔ sh.dirty ≠ [] := by
  have hring : c.heap.dirtyLinks.Ring sh.dirtyHead ([] ++ sh.dirty) := I.dirtyRing
  have hnext := hring.next_eq (List.nil_append _).symm
  have hnodup := I.dirtyRing.nodup
  unfold BecomesClean
  rw [I.dirtyHead]
  simp only [Option.bind_some, hnext]
  cases hdirty : sh.dirty with
  | nil => simp
  | cons r rest =>
    rw [hdirty] at hnodup
    have hne : r ≠ sh.dirtyHead := by
      rintro rfl
      simp at hnodup
    simp [hne]

theorem cleanSize_toClean {r : Nat} {dirty : List Nat} (I : Inv c sh)
    (I' : Inv c' { sh.toClean r with dirty := dirty }) (hr : r ∉ sh.clean)
    : c'.cleanSize = c.cleanSize + 1 := by
  rw [I'.cleanSize, I.cleanSize]
  simp [Shape.toClean, List.erase_of_not_mem hr]

theorem cleanSize_exec (I : Inv c sh) (hexec : c.exec op = some (out, c'))
    : (c.BecomesClean op → c'.cleanSize = c.cleanSize + 1)
        ∧ (¬ c.BecomesClean op → c'.cleanSize ≤ c.cleanSize) := by
  have hclean := I.cleanSize
  have hle : c'.cleanSize ≤ c.cleanSize → ¬ c.BecomesClean op
      → (c.BecomesClean op → c'.cleanSize = c.cleanSize + 1)
        ∧ (¬ c.BecomesClean op → c'.cleanSize ≤ c.cleanSize) :=
    fun h hnot => ⟨fun hclean => absurd hclean hnot, fun _ => h⟩
  have hbase : ∀ k (data : Option δ), op = .occupy k ∨ op = .query k ∨ op = .setData k data
      ∨ op = .setDirty k → ∃ b, c.base k = some b := by
    intro k data hop
    cases hb : c.base k with
    | some b => exact ⟨b, rfl⟩
    | none =>
      obtain ⟨h₁, h₂, h₃, h₄⟩ := exec_of_base_none hb data
      rcases hop with rfl | rfl | rfl | rfl <;> simp_all
  cases op with
  | occupy k =>
    refine hle ?_ id
    obtain ⟨b, hb⟩ := hbase k none (.inl rfl)
    rcases I.occupy_cases hb with ⟨r, -, -, hres⟩
      | ⟨-, ⟨r, rest, c₁, bucket, -, -, hres, I', -⟩ | ⟨r, rest, c₁, bucket, hcons, -, hres, I', -⟩
        | ⟨-, -, hres⟩⟩
      <;> simp only [exec, hres, Option.map_some, Option.some.injEq, Prod.mk.injEq] at hexec
      <;> obtain ⟨-, rfl⟩ := hexec
    . exact le_refl _
    . rw [I'.cleanSize, hclean]
    . rw [I'.cleanSize, hclean, hcons]
      simp
    . exact le_refl _
  | query k =>
    refine hle ?_ id
    obtain ⟨b, hb⟩ := hbase k none (.inr (.inl rfl))
    rcases I.query_cases hb with ⟨hres, -⟩ | ⟨r, -, d, -, -, hres⟩ | ⟨r, -, d, lru, -, -, hres, -⟩
      <;> simp only [exec, hres, Option.map_some, Option.some.injEq, Prod.mk.injEq] at hexec
      <;> obtain ⟨-, rfl⟩ := hexec
      <;> exact le_refl _
  | setData k data =>
    obtain ⟨b, hb⟩ := hbase k data (.inr (.inr (.inl rfl)))
    have hfind : ∀ r ∈ sh.live, c.heap.key r = some k → c.hashFind k = some (some r) :=
      fun r hr hkey => (I.hashed.hashFind_iff I.fuel).mpr ⟨hr, hkey⟩
    rcases I.setData_cases hb data with ⟨hres, hnew⟩ | ⟨r, hr, old, hkey, hdata, hres⟩
      | ⟨r, hr, d, c₁, hkey, hdata, rfl, hres, I', -⟩ | ⟨r, hr, c₁, bucket, hkey, -, rfl, hres, I', -⟩
      <;> simp only [exec, hres, Option.map_some, Option.some.injEq, Prod.mk.injEq] at hexec
      <;> obtain ⟨-, rfl⟩ := hexec
    . refine hle (le_refl _) ?_
      cases data with
      | none => exact id
      | some d =>
        rintro ⟨node, hnode, -⟩
        obtain ⟨hlive, hkey⟩ := (I.hashed.hashFind_iff I.fuel).mp hnode
        exact hnew node hlive hkey
    . refine hle (le_refl _) ?_
      cases data with
      | none => exact id
      | some d =>
        rw [becomesClean_setData (hfind r hr hkey), hdata]
        simp
    . have hnotMem : r ∉ sh.clean := fun h => (I.loaded r h).1 hdata
      refine ⟨fun _ => cleanSize_toClean I I' hnotMem, fun hnot => absurd ?_ hnot⟩
      exact (becomesClean_setData (hfind r hr hkey)).mpr hdata
    . refine hle ?_ id
      rw [I'.cleanSize, hclean]
  | setDirty k =>
    refine hle ?_ id
    obtain ⟨b, hb⟩ := hbase k none (.inr (.inr (.inr rfl)))
    rcases I.setDirty_cases hb with ⟨hres, -⟩ | ⟨r, -, -, hres⟩ | ⟨r, hr, c₁, -, hres, I', -⟩
      <;> simp only [exec, hres, Option.map_some, Option.some.injEq, Prod.mk.injEq] at hexec
      <;> obtain ⟨-, rfl⟩ := hexec
    . exact le_refl _
    . exact le_refl _
    . rw [I'.cleanSize, hclean]
      have := List.length_erase_le (a := r) (l := sh.clean)
      simpa [Shape.toBusy] using this
  | getNextDirtyNodeAndClean =>
    rcases I.getNextDirtyNodeAndClean_cases with ⟨hempty, hres⟩
      | ⟨r, rest, d, c₁, hcons, -, hres, I', -⟩
      <;> simp only [exec, hres, Option.map_some, Option.some.injEq, Prod.mk.injEq] at hexec
      <;> obtain ⟨-, rfl⟩ := hexec
    . refine hle (le_refl _) ?_
      rw [becomesClean_next I]
      exact fun h => h hempty
    . have hnotMem : r ∉ sh.clean := fun h => I.not_dirty_of_clean h (by simp [hcons])
      refine ⟨fun _ => cleanSize_toClean I I' hnotMem, fun hnot => absurd ?_ hnot⟩
      exact (becomesClean_next I).mpr (by simp [hcons])

/--
The clean nodes keep their limit all along a run exactly when nodes only become clean as long as
there are fewer clean ones than that.
-/
theorem clean_bound_iff {hashSize nodeSize maxCleanSize : Int}
    {calls : List (CacheOp Int δ × CacheOut δ)} (hclean : 1 ≤ maxCleanSize)
    (hinit : (new : DbCache δ).init hashSize nodeSize maxCleanSize = some (true, c₀))
    : (Run Call (fun c _ => c.cleanSize ≤ maxCleanSize) c₀ calls c ∧ c.cleanSize ≤ maxCleanSize)
        ↔ Run Call (fun c call => c.BecomesClean call.1 → c.cleanSize < maxCleanSize) c₀ calls c := by
  have hinv : ∀ {ok : DbCache δ → CacheOp Int δ × CacheOut δ → Prop} {calls c},
      Run Call ok c₀ calls c → ∃ sh, Inv c sh := by
    intro ok calls c hrun
    have hany : Run Call anyLabel c₀ calls c := hrun.weaken fun _ _ _ => trivial
    obtain ⟨m, -, -, -, sh, I, -⟩ := exists_lruMap_run hinit hany
    exact ⟨sh, I⟩
  constructor
  . rintro ⟨hrun, hbound⟩
    induction hrun with
    | start => exact .start
    | @next calls c c' call hrun hok hstep ih =>
      obtain ⟨sh, I⟩ := hinv hrun
      refine .next (ih hok) ?_ hstep
      intro hbecomes
      have := (cleanSize_exec I hstep).1 hbecomes
      omega
  . intro hrun
    induction hrun with
    | start =>
      obtain ⟨sh, I, hnil, -⟩ := init_inv hinit
      have := I.cleanSize
      simp only [hnil, List.length_nil] at this
      exact ⟨.start, by omega⟩
    | @next calls c c' call hrun hok hstep ih =>
      obtain ⟨hrun', hbound⟩ := ih
      obtain ⟨sh, I⟩ := hinv hrun
      refine ⟨.next hrun' hbound hstep, ?_⟩
      obtain ⟨hbecomes, hnot⟩ := cleanSize_exec I hstep
      by_cases h : c.BecomesClean call.1
      . have := hbecomes h
        have := hok h
        omega
      . have := hnot h
        omega

theorem clean_bound_counterexample
    : ¬ ∀ (hashSize nodeSize maxCleanSize : Int) (c₀ c : DbCache Nat) (ops : List (CacheOp Int Nat)),
        1 ≤ maxCleanSize → new.init hashSize nodeSize maxCleanSize = some (true, c₀)
          → ops.foldlM (fun c op => (c.exec op).map Prod.snd) c₀ = some c
          → c.cleanSize ≤ maxCleanSize := by
  intro h
  have hrun : ((new : DbCache Nat).init 3 2 1).bind (fun p =>
      ([.occupy 5, .occupy 8, .setData 5 (some 7), .setData 8 (some 9)] : List (CacheOp Int Nat)).foldlM
        (fun c op => (c.exec op).map Prod.snd) p.2) |>.any (fun c => c.cleanSize = 2) := by
    decide +kernel
  obtain ⟨c, hc, hsize⟩ := (Option.any_eq_true _ _).mp hrun
  obtain ⟨⟨b, c₀⟩, hinit, hops⟩ := Option.bind_eq_some_iff.mp hc
  obtain rfl : b = true := by
    have hb : ((new : DbCache Nat).init 3 2 1).all (fun p => p.1) = true := by decide +kernel
    rw [hinit] at hb
    exact hb
  have hbound := h 3 2 1 c₀ c _ (le_refl 1) hinit hops
  simp only [decide_eq_true_eq] at hsize
  omega

theorem clean_bound_iff_small
    : ∃ c₀ : DbCache Nat, new.init 3 2 1 = some (true, c₀) ∧ ∀ calls c,
        (Run Call (fun c _ => c.cleanSize ≤ 1) c₀ calls c ∧ c.cleanSize ≤ 1)
          ↔ Run Call (fun c call => c.BecomesClean call.1 → c.cleanSize < 1) c₀ calls c := by
  obtain ⟨c₀, hinit⟩ : ∃ c₀ : DbCache Nat, new.init 3 2 1 = some (true, c₀) := ⟨_, rfl⟩
  exact ⟨c₀, hinit, fun _ _ => clean_bound_iff (le_refl 1) hinit⟩

end DbCache

end WzGame
