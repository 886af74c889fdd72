import WzGame.Db.Cache.DbCacheLemmas.Refine
import WzGame.Db.Cache.LruMapLemmas

/-!
This module contains what holds of a `DbCache` after any sequence of calls.
-/

namespace WzGame

open Runs

namespace DbCache

variable {δ : Type} {c c₀ : DbCache δ} {sh : Shape}

theorem refines_init {hashSize nodeSize maxCleanSize : Int}
    (hinit : (new : DbCache δ).init hashSize nodeSize maxCleanSize = some (true, c))
    : Refines nodeSize maxCleanSize c .empty := by
  obtain ⟨sh, I, hclean, hbusy, hdirty, -, hmax, hmaxClean⟩ := init_inv hinit
  have hlive : sh.live = [] := by simp [Shape.live, hclean, hbusy]
  refine ⟨hmax, hmaxClean, sh, I, ?_⟩
  constructor
  case held => simp [LruMap.Held, LruMap.empty, hlive]
  case data => simp [hlive]
  case queue => simp [LruMap.empty, hdirty]
  case recency => simp [hclean]
  case clock => simp [hclean]

theorem exec_inv_of_base {op : CacheOp Int δ} (I : Inv c sh) (hbase : ∀ k, op.key? = some k → ∃ b, c.base k = some b)
    : ∃ out c' sh', c.exec op = some (out, c') ∧ Inv c' sh' := by
  cases op with
  | occupy k =>
    obtain ⟨b, hb⟩ := hbase k rfl
    rcases I.occupy_cases hb with ⟨r, -, -, hres⟩
      | ⟨-, ⟨r, rest, c', bucket, -, -, hres, I', -⟩ | ⟨r, rest, c', bucket, -, -, hres, I', -⟩
        | ⟨-, -, hres⟩⟩
    . exact ⟨_, c, sh, congrArg (Option.map _) hres, I⟩
    . exact ⟨_, c', _, congrArg (Option.map _) hres, I'⟩
    . exact ⟨_, c', _, congrArg (Option.map _) hres, I'⟩
    . exact ⟨_, c, sh, congrArg (Option.map _) hres, I⟩
  | query k =>
    obtain ⟨b, hb⟩ := hbase k rfl
    rcases I.query_cases hb with ⟨hres, -⟩ | ⟨r, -, d, -, -, hres⟩
      | ⟨r, -, d, lru, -, -, hres, I'⟩
    . exact ⟨_, c, sh, congrArg (Option.map _) hres, I⟩
    . exact ⟨_, c, sh, congrArg (Option.map _) hres, I⟩
    . exact ⟨_, _, _, congrArg (Option.map _) hres, I'⟩
  | setData k data =>
    obtain ⟨b, hb⟩ := hbase k rfl
    rcases I.setData_cases hb data with ⟨hres, -⟩ | ⟨r, -, old, -, -, hres⟩
      | ⟨r, -, d, c', -, -, -, hres, I', -⟩ | ⟨r, -, c', bucket, -, -, -, hres, I', -⟩
    . exact ⟨_, c, sh, congrArg (Option.map _) hres, I⟩
    . exact ⟨_, c, sh, congrArg (Option.map _) hres, I⟩
    . exact ⟨_, c', _, congrArg (Option.map _) hres, I'⟩
    . exact ⟨_, c', _, congrArg (Option.map _) hres, I'⟩
  | setDirty k =>
    obtain ⟨b, hb⟩ := hbase k rfl
    rcases I.setDirty_cases hb with ⟨hres, -⟩ | ⟨r, -, -, hres⟩ | ⟨r, -, c', -, hres, I', -⟩
    . exact ⟨_, c, sh, congrArg (Option.map _) hres, I⟩
    . exact ⟨_, c, sh, congrArg (Option.map _) hres, I⟩
    . exact ⟨_, c', _, congrArg (Option.map _) hres, I'⟩
  | getNextDirtyNodeAndClean =>
    rcases I.getNextDirtyNodeAndClean_cases with ⟨-, hres⟩
      | ⟨r, rest, d, c', -, -, hres, I', -⟩
    . exact ⟨_, c, sh, congrArg (Option.map _) hres, I⟩
    . exact ⟨_, c', _, congrArg (Option.map _) hres, I'⟩

theorem exec_inv {op : CacheOp Int δ} (I : Inv c sh) (hop : op.NonNeg)
    : ∃ out c' sh', c.exec op = some (out, c') ∧ Inv c' sh' :=
  exec_inv_of_base I fun _ hk => base_of_nonneg I.hashed.hashSize_pos (hop.key hk)

theorem exists_run (I : Inv c₀ sh) (ops : List (CacheOp Int δ)) (hops : ∀ op ∈ ops, op.NonNeg)
    : ∃ calls c sh', calls.map Prod.fst = ops ∧ Run Call anyLabel c₀ calls c ∧ Inv c sh' := by
  induction ops using List.reverseRecOn with
  | nil => exact ⟨[], c₀, sh, rfl, .start, I⟩
  | append_singleton ops op ih =>
    obtain ⟨calls, c, sh', hcalls, hrun, I'⟩ := ih (fun op' h => hops op' (by simp [h]))
    obtain ⟨out, c', sh'', hexec, I''⟩ := exec_inv I' (hops op (by simp))
    exact ⟨calls ++ [(op, out)], c', sh'', by simp [hcalls], .next hrun trivial hexec, I''⟩

theorem exists_lruMap_run {hashSize nodeSize maxCleanSize : Int}
    {calls : List (CacheOp Int δ × CacheOut δ)}
    (hinit : (new : DbCache δ).init hashSize nodeSize maxCleanSize = some (true, c₀))
    (hrun : Run Call anyLabel c₀ calls c)
    : ∃ m, Run (LruMap.Step nodeSize maxCleanSize) anyLabel .empty calls m
        ∧ Refines nodeSize maxCleanSize c m :=
  hrun.simulate (simulates nodeSize maxCleanSize) (fun _ _ _ _ _ => trivial) (refines_init hinit)

theorem occupy_false_iff {maxSize maxClean k : Int} {m : LruMap Int δ} {c' : DbCache δ}
    (hclean : 1 ≤ maxClean) (hR : Refines maxSize maxClean c m) (hk : 0 ≤ k)
    : c.exec (.occupy k) = some (.bool false, c')
        ↔ c' = c ∧ ¬ m.Held k ∧ {k | m.Pending k ∨ m.Dirty k}.ncard = maxSize := by
  obtain ⟨rfl, rfl, sh, I, R⟩ := hR
  obtain ⟨b, hb⟩ := base_of_nonneg I.hashed.hashSize_pos hk
  have hbusy : ({k | m.Pending k ∨ m.Dirty k}.ncard : Int) = sh.busy.length := by
    rw [R.ncard_busy I]
  have hexec : ∀ b c₁, c.occupy k = some (b, c₁)
      → (c.exec (.occupy k) = some (.bool false, c') ↔ b = false ∧ c₁ = c') := by
    intro b c₁ hres
    simp [exec, hres]
  have hlen : (sh.live.length : Int) = sh.clean.length + sh.busy.length := by
    simp [Shape.live]
  have htotal := I.total
  have hcurr := I.currSize
  have hcleanSize := I.cleanSize
  have hfree : sh.free = [] ↔ sh.free.length = 0 := List.length_eq_zero_iff.symm
  rcases I.occupy_cases hb with ⟨r, hr, hkey, hres⟩ | ⟨hnew, hcases⟩
  . have hheld : m.Held k := (R.held k).mpr ⟨r, hr, hkey⟩
    simp [hexec _ _ hres, hheld]
  . have hheld := R.not_held hnew
    rcases hcases with ⟨r, rest, c₁, bucket, hfree, hlt, hres, -⟩
      | ⟨r, rest, c₁, bucket, hcons, hroom, hres, -⟩ | ⟨hnil, hroom, hres⟩
    . rw [hexec _ _ hres, hbusy]
      simp only [hfree, List.length_cons] at htotal
      simp
      omega
    . rw [hexec _ _ hres, hbusy]
      simp only [hcons, List.length_cons] at hlen
      simp
      omega
    . rw [hexec _ _ hres, hbusy]
      simp only [hnil, List.length_nil] at hlen hcleanSize
      have : sh.free = [] := by
        by_contra hne
        exact hroom ⟨hne, by omega⟩
      simp only [this, List.length_nil] at htotal
      simp only [hheld, true_and, not_false_eq_true]
      constructor
      . rintro rfl
        exact ⟨rfl, by omega⟩
      . rintro ⟨rfl, -⟩
        rfl

theorem query_iff {maxSize maxClean k : Int} {m : LruMap Int δ} {d : δ}
    (hR : Refines maxSize maxClean c m) (hk : 0 ≤ k)
    : (∃ c', c.exec (.query k) = some (.data (some d), c')) ↔ m.data k = some d := by
  obtain ⟨-, -, sh, I, -⟩ := id hR
  have hop : (CacheOp.query k : CacheOp Int δ).NonNeg := hk
  obtain ⟨out, c', -, hexec, -⟩ := exec_inv I hop
  obtain ⟨m', hstep, -⟩ := query_simulate hR hexec
  rw [hstep.query_out] at hexec
  simp [hexec]

/--
After any sequence of operations under keys that are not negative, none of which throws, the links,
flags and counters describe the lists of a shape.
-/
theorem inv_of_ops {hashSize nodeSize maxCleanSize : Int}
    (hinit : (new : DbCache δ).init hashSize nodeSize maxCleanSize = some (true, c₀))
    (ops : List (CacheOp Int δ)) (hops : ∀ op ∈ ops, op.NonNeg)
    : ∃ calls c sh, calls.map Prod.fst = ops ∧ Run Call anyLabel c₀ calls c ∧ Inv c sh
        ∧ c.maxSize = nodeSize := by
  obtain ⟨sh₀, I₀, -⟩ := init_inv hinit
  obtain ⟨calls, c, sh, hcalls, hrun, I⟩ := exists_run I₀ ops hops
  obtain ⟨m, -, hmax, -⟩ := exists_lruMap_run hinit hrun
  exact ⟨calls, c, sh, hcalls, hrun, I, hmax⟩

theorem inv_of_ops_evict
    : ∃ c₀ : DbCache Nat, new.init 3 1 1 = some (true, c₀)
        ∧ ∃ calls c sh,
          calls.map Prod.fst = [.occupy 5, .setData 5 (some 7), .setDirty 5,
            .getNextDirtyNodeAndClean, .occupy 8]
          ∧ Run Call anyLabel c₀ calls c ∧ Inv c sh ∧ c.maxSize = 1 := by
  obtain ⟨c₀, hinit⟩ : ∃ c₀ : DbCache Nat, new.init 3 1 1 = some (true, c₀) := ⟨_, rfl⟩
  exact ⟨c₀, hinit, inv_of_ops hinit _ (by simp [CacheOp.NonNeg])⟩

/--
The outputs are those of a map with least recently used eviction. A query returns the data first
installed under its key, and an occupation fails exactly for a new key when every node is pending or
dirty.
-/
theorem refines_lruMap_of_ops {hashSize nodeSize maxCleanSize : Int} (hclean : 1 ≤ maxCleanSize)
    (hinit : (new : DbCache δ).init hashSize nodeSize maxCleanSize = some (true, c₀))
    (ops : List (CacheOp Int δ)) (hops : ∀ op ∈ ops, op.NonNeg)
    : ∃ calls c m, calls.map Prod.fst = ops ∧ Run Call anyLabel c₀ calls c
        ∧ Run (LruMap.Step nodeSize maxCleanSize) anyLabel .empty calls m
        ∧ (∀ k d, 0 ≤ k → ((∃ c', c.exec (.query k) = some (.data (some d), c'))
            ↔ m.Held k ∧ LruMap.Installed nodeSize maxCleanSize calls m k d))
        ∧ (∀ k c', 0 ≤ k → (c.exec (.occupy k) = some (.bool false, c')
            ↔ c' = c ∧ ¬ m.Held k ∧ {k | m.Pending k ∨ m.Dirty k}.ncard = nodeSize)) := by
  obtain ⟨sh₀, I₀, -⟩ := init_inv hinit
  obtain ⟨calls, c, sh, hcalls, hrun, -⟩ := exists_run I₀ ops hops
  obtain ⟨m, hrun', hR⟩ := exists_lruMap_run hinit hrun
  refine ⟨calls, c, m, hcalls, hrun, hrun', ?_, ?_⟩
  . intro k d hk
    rw [query_iff hR hk, LruMap.data_iff_installed hrun']
  . intro k c' hk
    exact occupy_false_iff hclean hR hk

theorem refines_lruMap_of_ops_evict
    : ∃ c₀ : DbCache Nat, new.init 3 1 1 = some (true, c₀)
        ∧ ∃ calls c m,
          calls.map Prod.fst = [.occupy 5, .setData 5 (some 7), .setDirty 5,
            .getNextDirtyNodeAndClean, .occupy 8]
          ∧ Run Call anyLabel c₀ calls c
          ∧ Run (LruMap.Step 1 1) anyLabel .empty calls m
          ∧ (∀ k d, 0 ≤ k → ((∃ c', c.exec (.query k) = some (.data (some d), c'))
              ↔ m.Held k ∧ LruMap.Installed 1 1 calls m k d))
          ∧ (∀ k c', 0 ≤ k → (c.exec (.occupy k) = some (.bool false, c')
              ↔ c' = c ∧ ¬ m.Held k ∧ {k | m.Pending k ∨ m.Dirty k}.ncard = (1 : Int))) := by
  obtain ⟨c₀, hinit⟩ : ∃ c₀ : DbCache Nat, new.init 3 1 1 = some (true, c₀) := ⟨_, rfl⟩
  exact ⟨c₀, hinit, refines_lruMap_of_ops (by decide) hinit _ (by simp [CacheOp.NonNeg])⟩

end DbCache

end WzGame
