import WzGame.Actor.ActorDispatcher
import WzGame.Util.Returns
import WzGame.Db.Cache.DbCacheRuns
import WzGame.Db.Cache.MulSearchRuns

/-!
This module contains under which keys the operations of `DbCache` and `MulSearch` find a bucket, and that they throw
under all others, as `ActorDispatcher` does.
-/

namespace WzGame

open Option Runs

def Bucketed (hashSize key : Int) : Prop := 0 ≤ key ∨ hashSize ∣ key

theorem exists_bucket_iff {n k : Int} (hn : 0 < n)
    : (∃ b, (if n = 0 ∨ k.tmod n < 0 then none else some (k.tmod n).toNat) = some b) ↔ Bucketed n k := by
  rw [Bucketed, ← Int.tmod_nonneg_iff]
  split
  . next h =>
    simp
    omega
  . next h =>
    simp
    omega

namespace DbCache

variable {δ : Type} {c c₀ : DbCache δ} {n k : Int} {node : Nat}

section HashSize

-- No operation changes the number of the buckets.
variable (hn : c.hashSize = n)

include hn

theorem lruSortClean_hashSize : Returns (fun c' => c'.hashSize = n) (c.lruSortClean node) :=
  .bind .any fun _ _ => .bind .any fun _ _ => .bind .any fun _ _ => .value hn

theorem lruSortDirty_hashSize : Returns (fun c' => c'.hashSize = n) (c.lruSortDirty node) :=
  .bind .any fun _ _ => .bind .any fun _ _ => .bind .any fun _ _ => .value hn

theorem hashAdd_hashSize : Returns (fun c' => c'.hashSize = n) (c.hashAdd node) :=
  .bind .any fun _ _ => .bind .any fun _ _ => .bind .any fun _ _ => .value hn

theorem hashDel_hashSize : Returns (fun c' => c'.hashSize = n) (c.hashDel k) := by
  refine .bind .any fun base _ => .bind .any fun ptr _ => ?_
  cases ptr with
  | none => exact .value hn
  | some ptr =>
    simp only
    split
    . exact .value hn
    . refine .bind .any fun ptr' _ => ?_
      split
      . exact .value hn
      . exact .value hn

theorem malloc_hashSize : Returns (fun r => r.2.hashSize = n) c.malloc := by
  unfold malloc
  split
  . exact .value hn
  . refine .bind .any fun head _ => ?_
    simp only
    split
    . exact .bind .any fun _ _ => .bind .any fun _ _ => .bind (hashDel_hashSize hn) fun _ h => .value h
    . exact .value hn

theorem occupy_hashSize : Returns (fun r => r.2.hashSize = n) (c.occupy k) := by
  refine .bind .any fun found _ => ?_
  cases found with
  | some node => exact .value hn
  | none =>
    refine .bind (malloc_hashSize hn) fun (node, c) hc => ?_
    cases node with
    | none => exact .value hc
    | some node => exact .bind (hashAdd_hashSize hc) fun _ h => .bind (lruSortDirty_hashSize h) fun _ h => .value h

theorem query_hashSize : Returns (fun r => r.2.hashSize = n) (c.query k) := by
  refine .bind .any fun found _ => ?_
  cases found with
  | none => exact .value hn
  | some node =>
    simp only
    split
    . exact .value hn
    . split
      . exact .bind (lruSortClean_hashSize hn) fun _ h => .value h
      . exact .value hn

theorem setData_hashSize (data : Option δ) : Returns (fun r => r.2.hashSize = n) (c.setData k data) := by
  refine .bind .any fun found _ => ?_
  cases found with
  | none => exact .value hn
  | some node =>
    simp only
    split
    . exact .value hn
    . cases data with
      | some data => exact .bind (lruSortClean_hashSize hn) fun _ h => .value h
      | none => exact .bind (hashDel_hashSize hn) fun _ h => .value h

theorem setDirty_hashSize : Returns (fun r => r.2.hashSize = n) (c.setDirty k) := by
  refine .bind .any fun found _ => ?_
  cases found with
  | none => exact .value hn
  | some node =>
    simp only
    split
    . exact .value hn
    . split
      . exact .value hn
      . exact .bind .any fun _ _ => .bind .any fun _ _ => .bind .any fun _ _ =>
          .bind (lruSortDirty_hashSize hn) fun _ h => .value h

theorem getNextDirtyNodeAndClean_hashSize
    : Returns (fun r => r.2.hashSize = n) c.getNextDirtyNodeAndClean := by
  refine .bind .any fun head _ => .bind .any fun node _ => ?_
  split
  . exact .value hn
  . exact .bind (lruSortClean_hashSize hn) fun _ h => .value h

theorem exec_hashSize (op : CacheOp Int δ) : Returns (fun r => r.2.hashSize = n) (c.exec op) := by
  cases op with
  | occupy k => exact .map (occupy_hashSize hn)
  | query k => exact .map (query_hashSize hn)
  | setData k data => exact .map (setData_hashSize hn data)
  | setDirty k => exact .map (setDirty_hashSize hn)
  | getNextDirtyNodeAndClean => exact .map (getNextDirtyNodeAndClean_hashSize hn)

end HashSize

theorem base_iff (hpos : 0 < c.hashSize) : (∃ b, c.base k = some b) ↔ Bucketed c.hashSize k := by
  rw [base]
  exact exists_bucket_iff hpos

theorem exec_eq_none {op : CacheOp Int δ} (hkey : op.key? = some k) (hb : c.base k = none) : c.exec op = none := by
  have hfind : c.hashFind k = none := by
    rw [hashFind, hb]
    rfl
  cases op with
  | occupy k' =>
    obtain rfl := Option.some.inj hkey
    rw [exec, occupy, hfind]
    rfl
  | query k' =>
    obtain rfl := Option.some.inj hkey
    rw [exec, query, hfind]
    rfl
  | setData k' data =>
    obtain rfl := Option.some.inj hkey
    rw [exec, setData, hfind]
    rfl
  | setDirty k' =>
    obtain rfl := Option.some.inj hkey
    rw [exec, setDirty, hfind]
    rfl
  | getNextDirtyNodeAndClean => contradiction

theorem bucketed_of_exec {op : CacheOp Int δ} {res : CacheOut δ × DbCache δ} (hpos : 0 < c.hashSize)
    (hkey : op.key? = some k) (h : c.exec op = some res)
    : Bucketed c.hashSize k := by
  rw [← base_iff hpos]
  cases hb : c.base k with
  | some b => exact ⟨b, rfl⟩
  | none =>
    rw [exec_eq_none hkey hb] at h
    contradiction

theorem run_hashSize {calls : List (CacheOp Int δ × CacheOut δ)} (hrun : Run Call anyLabel c₀ calls c)
    : c.hashSize = c₀.hashSize :=
  hrun.invariant (fun c => c.hashSize = c₀.hashSize) rfl fun _ call _ hn _ hcall => exec_hashSize hn call.1 _ hcall

theorem exists_run_iff {sh : Shape} (I : Inv c₀ sh) (ops : List (CacheOp Int δ))
    : (∃ calls c, calls.map Prod.fst = ops ∧ Run Call anyLabel c₀ calls c)
        ↔ ∀ op ∈ ops, ∀ k, op.key? = some k → Bucketed c₀.hashSize k := by
  have hpos := I.hashed.hashSize_pos
  constructor
  . rintro ⟨calls, c, rfl, hrun⟩
    induction hrun with
    | start => simp
    | @next calls c c' call hrun _ hcall ih =>
      intro op hop k hkey
      rw [List.map_append, List.mem_append] at hop
      rcases hop with hop | hop
      . exact ih op hop k hkey
      . obtain rfl := List.mem_singleton.mp hop
        have hsize := run_hashSize hrun
        exact hsize ▸ bucketed_of_exec (hsize ▸ hpos) hkey hcall
  . intro hops
    suffices hreturn : ∃ calls c sh, calls.map Prod.fst = ops ∧ Run Call anyLabel c₀ calls c ∧ Inv c sh by
      obtain ⟨calls, c, -, hcalls, hrun, -⟩ := hreturn
      exact ⟨calls, c, hcalls, hrun⟩
    induction ops using List.reverseRecOn with
    | nil => exact ⟨[], c₀, sh, rfl, .start, I⟩
    | append_singleton ops op ih =>
      obtain ⟨calls, c, sh', hcalls, hrun, I'⟩ := ih fun op' hop' => hops op' (by simp [hop'])
      have hbase : ∀ k, op.key? = some k → ∃ b, c.base k = some b := by
        intro k hkey
        rw [base_iff I'.hashed.hashSize_pos, run_hashSize hrun]
        exact hops op (by simp) k hkey
      obtain ⟨out, c', sh'', hexec, I''⟩ := exec_inv_of_base I' hbase
      exact ⟨calls ++ [(op, out)], c', sh'', by simp [hcalls], .next hrun trivial hexec, I''⟩

theorem hashSize_init {hashSize nodeSize maxCleanSize : Int}
    (hinit : (new : DbCache δ).init hashSize nodeSize maxCleanSize = some (true, c₀))
    : c₀.hashSize = hashSize := by
  have hreturn : Returns (fun r => r.1 = true → r.2.hashSize = hashSize)
      ((new : DbCache δ).init hashSize nodeSize maxCleanSize) := by
    unfold init
    split
    . exact .value nofun
    . exact .bind .any fun _ _ => .value fun _ => rfl
  exact hreturn _ hinit rfl

end DbCache

namespace MulSearch

variable {E : Type} {m m₀ : MulSearch E} {k : Int}

theorem pos_iff (hpos : 0 < m.hashSize) : (∃ b, m.pos k = some b) ↔ Bucketed m.hashSize k := by
  rw [pos]
  exact exists_bucket_iff hpos

theorem run_eq_none {op : Op E} (hb : m.pos op.key = none) : op.run m = none := by
  cases op with
  | addKey key data =>
    rw [Op.run, MulSearch.addKey, show m.pos key = none from hb]
    rfl
  | deleteKey key =>
    rw [Op.run, MulSearch.deleteKey, show m.pos key = none from hb]
    rfl
  | search key =>
    rw [Op.run, MulSearch.search, show m.pos key = none from hb]
    rfl

theorem run_of_pos {q : KeyQueues E} {op : Op E} {b : Nat} (H : Holds m q) (hb : m.pos op.key = some b)
    : ∃ m' q', op.run m = some m' ∧ m'.hashSize = m.hashSize ∧ Holds m' q' := by
  cases op with
  | addKey key data =>
    obtain ⟨m', hadd, hsize, -, H'⟩ := H.addKey_eq hb data
    exact ⟨m', _, congrArg (Option.map Prod.snd) hadd, hsize, H'⟩
  | deleteKey key =>
    obtain ⟨found, m', hdelete, hsize, -, H'⟩ := H.deleteKey_eq hb
    exact ⟨m', _, congrArg (Option.map Prod.snd) hdelete, hsize, H'⟩
  | search key => exact ⟨m, q, congrArg (Option.map fun _ => m) (H.search_eq hb), rfl, H⟩

theorem hashSize_init {hashSize : Int} (hinit : (new : MulSearch E).init hashSize = (true, m₀))
    : m₀.hashSize = hashSize := by
  rw [init] at hinit
  split at hinit
  . simp at hinit
  . obtain rfl := (Prod.mk.inj hinit).2
    rfl

theorem foldlM_run_iff {q : KeyQueues E} (H : Holds m₀ q) (ops : List (Op E))
    : (∃ m, ops.foldlM Op.run m₀ = some m) ↔ ∀ op ∈ ops, Bucketed m₀.hashSize op.key := by
  induction ops generalizing m₀ q with
  | nil => simp
  | cons op ops ih =>
    rw [List.foldlM_cons, List.forall_mem_cons, ← pos_iff H.hashSize_pos]
    cases hb : m₀.pos op.key with
    | none =>
      rw [run_eq_none hb]
      simp
    | some b =>
      obtain ⟨m', q', hrun, hsize, H'⟩ := run_of_pos H hb
      rw [hrun, ← hsize, ← ih H']
      simp

end MulSearch

-- `(int) (key.longValue() % hash_size)`
def bucketIndex (key : Int64) (hash_size : Int32) : Int32 := (key % hash_size.toInt64).toInt32

section Buckets

variable {δ E A : Type} {hash_size : Int32}

theorem toInt_bucketIndex (hpos : 0 < hash_size.toInt) (key : Int64)
    : (bucketIndex key hash_size).toInt = key.toInt.tmod hash_size.toInt := by
  have hlt := hash_size.toInt_lt
  have hupper := Int.tmod_lt_of_pos key.toInt hpos
  have hlower := Int.lt_tmod_of_pos key.toInt hpos
  rw [bucketIndex, Int64.toInt_toInt32, Int64.toInt_mod, Int32.toInt_toInt64]
  exact Int.bmod_eq_of_le (by omega) (by omega)

theorem bucket_eq_bucketIndex (hpos : 0 < hash_size.toInt) (key : Int64)
    : (if hash_size.toInt = 0 ∨ key.toInt.tmod hash_size.toInt < 0 then
          none
        else
          some (key.toInt.tmod hash_size.toInt).toNat)
        = if 0 ≤ (bucketIndex key hash_size).toInt then some (bucketIndex key hash_size).toInt.toNat else none := by
  rw [toInt_bucketIndex hpos]
  split
  . rw [if_neg (by omega)]
  . rw [if_pos (by omega)]

theorem DbCache.base_eq_bucketIndex {c : DbCache δ} (hc : c.hashSize = hash_size.toInt) (hpos : 0 < hash_size.toInt)
    (key : Int64)
    : c.base key.toInt
        = if 0 ≤ (bucketIndex key hash_size).toInt then some (bucketIndex key hash_size).toInt.toNat else none := by
  rw [base, hc]
  exact bucket_eq_bucketIndex hpos key

theorem MulSearch.pos_eq_bucketIndex {m : MulSearch E} (hm : m.hashSize = hash_size.toInt)
    (hpos : 0 < hash_size.toInt) (key : Int64)
    : m.pos key.toInt
        = if 0 ≤ (bucketIndex key hash_size).toInt then some (bucketIndex key hash_size).toInt.toNat else none := by
  rw [pos, hm]
  exact bucket_eq_bucketIndex hpos key

theorem bucketIndex_iff (hpos : 0 < hash_size.toInt) (key : Int64)
    : (0 ≤ (bucketIndex key hash_size).toInt ∧ (bucketIndex key hash_size).toInt < hash_size.toInt)
        ↔ Bucketed hash_size.toInt key.toInt := by
  rw [toInt_bucketIndex hpos]
  exact Int.tmod_index_iff hpos

/--
A bucket is found for the keys that are not negative and for the multiples of the number of buckets, and no operation
throws just when all keys are such. An actor is found for all numbers but the least one, and for that one if the number
of actors is a power of two.
-/
theorem indices_iff {nodeSize maxCleanSize : Int} {c : DbCache δ} {m : MulSearch E} (hpos : 0 < hash_size.toInt)
    (hcache : (DbCache.new : DbCache δ).init hash_size.toInt nodeSize maxCleanSize = some (true, c))
    (hsearch : (MulSearch.new : MulSearch E).init hash_size.toInt = (true, m)) (d : ActorDispatcher A)
    : (∀ key : Int64, (0 ≤ (bucketIndex key hash_size).toInt ∧ (bucketIndex key hash_size).toInt < hash_size.toInt)
          ↔ Bucketed hash_size.toInt key.toInt)
        ∧ (∀ ops : List (CacheOp Int δ), (∃ calls c', calls.map Prod.fst = ops ∧ Run DbCache.Call anyLabel c calls c')
          ↔ ∀ op ∈ ops, ∀ k, op.key? = some k → Bucketed hash_size.toInt k)
        ∧ (∀ ops : List (MulSearch.Op E), (∃ m', ops.foldlM MulSearch.Op.run m = some m')
          ↔ ∀ op ∈ ops, Bucketed hash_size.toInt op.key)
        ∧ ∀ dispatchId : Int32,
          ((0 ≤ (d.index dispatchId).toInt ∧ (d.index dispatchId).toInt < d.poolSize.toInt)
            ↔ dispatchId ≠ Int32.minValue ∨ d.poolSize.toInt ∣ 2 ^ 31)
          ∧ ((∃ actor, d.getActor dispatchId = some actor)
            ↔ dispatchId ≠ Int32.minValue ∨ d.poolSize.toInt ∣ 2 ^ 31) := by
  obtain ⟨sh, I, -⟩ := DbCache.init_inv hcache
  refine ⟨bucketIndex_iff hpos, fun ops => ?_, fun ops => ?_, fun dispatchId => ?_⟩
  . rw [DbCache.exists_run_iff I, DbCache.hashSize_init hcache]
  . rw [MulSearch.foldlM_run_iff (MulSearch.holds_init hsearch), MulSearch.hashSize_init hsearch]
  . exact ⟨d.index_iff dispatchId, d.getActor_iff dispatchId⟩

theorem indices_iff_three
    : ∃ (c : DbCache Nat) (m : MulSearch Nat) (d : ActorDispatcher Nat), DbCache.new.init 3 5 2 = some (true, c)
        ∧ MulSearch.new.init 3 = (true, m) ∧ ActorDispatcher.new 4 id = some d
        ∧ (∀ key : Int64, (0 ≤ (bucketIndex key 3).toInt ∧ (bucketIndex key 3).toInt < 3) ↔ Bucketed 3 key.toInt)
        ∧ (∀ ops : List (CacheOp Int Nat), (∃ calls c', calls.map Prod.fst = ops ∧ Run DbCache.Call anyLabel c calls c')
          ↔ ∀ op ∈ ops, ∀ k, op.key? = some k → Bucketed 3 k)
        ∧ (∀ ops : List (MulSearch.Op Nat), (∃ m', ops.foldlM MulSearch.Op.run m = some m')
          ↔ ∀ op ∈ ops, Bucketed 3 op.key)
        ∧ ∀ dispatchId : Int32,
          ((0 ≤ (d.index dispatchId).toInt ∧ (d.index dispatchId).toInt < d.poolSize.toInt)
            ↔ dispatchId ≠ Int32.minValue ∨ d.poolSize.toInt ∣ 2 ^ 31)
          ∧ ((∃ actor, d.getActor dispatchId = some actor)
            ↔ dispatchId ≠ Int32.minValue ∨ d.poolSize.toInt ∣ 2 ^ 31) := by
  obtain ⟨c, hcache⟩ : ∃ c : DbCache Nat, DbCache.new.init 3 5 2 = some (true, c) := ⟨_, rfl⟩
  obtain ⟨m, hsearch⟩ : ∃ m : MulSearch Nat, MulSearch.new.init 3 = (true, m) := ⟨_, rfl⟩
  obtain ⟨d, hd⟩ : ∃ d : ActorDispatcher Nat, ActorDispatcher.new 4 id = some d := ⟨_, rfl⟩
  exact ⟨c, m, d, hcache, hsearch, hd, @indices_iff Nat Nat Nat 3 5 2 c m (by decide) hcache hsearch d⟩

theorem indices_counterexample
    : ¬ (∀ (hash_size : Int32) (key : Int64), 0 < hash_size.toInt
          → 0 ≤ (bucketIndex key hash_size).toInt ∧ (bucketIndex key hash_size).toInt < hash_size.toInt)
        ∧ ¬ ∀ (d : ActorDispatcher Nat) (dispatchId : Int32),
          0 ≤ (d.index dispatchId).toInt ∧ (d.index dispatchId).toInt < d.poolSize.toInt := by
  constructor
  . intro h
    exact absurd (h 4 (-1) (by decide)) (by decide)
  . intro h
    exact absurd (h ⟨#[0, 1, 2], by decide, by decide⟩ Int32.minValue) (by decide)

end Buckets

end WzGame
