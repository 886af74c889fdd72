import Mathlib.Data.List.Perm.Subperm
import Mathlib.Data.List.Nodup
import WzGame.Util.HashPorts
import WzGame.Db.Cache.DbCache

namespace WzGame

open NextChain HashPorts

namespace DbCache

variable {δ : Type}

structure Hashed (c : DbCache δ) (bucket : Nat → List Nat) (live free : List Nat) : Prop where
  hashSize_pos : 0 < c.hashSize
  ports_size : c.hashPorts.size = c.hashSize.toNat
  chain : ∀ b p, c.hashPorts[b]? = some p → Chain c.heap.hashNext p (bucket b)
  mem_bucket : ∀ b r, r ∈ bucket b ↔ r ∈ live ∧ ∃ k, c.heap.key r = some k ∧ c.base k = some b
  nodup_bucket : ∀ b, (bucket b).Nodup
  keyed : ∀ r ∈ live, ∃ k b, c.heap.key r = some k ∧ c.base k = some b
  key_inj : ∀ r ∈ live, ∀ r' ∈ live, c.heap.key r = c.heap.key r' → r = r'
  freeChain : Chain c.heap.hashNext c.memHead free
  nodup : (live ++ free).Nodup

def root (c : DbCache δ) (b : Nat) : Option Nat := c.hashPorts[b]?.join

def slot (c : DbCache δ) (node : Nat) : Option Nat := (c.heap.key node).bind c.base

theorem root_eq {c : DbCache δ} {b : Nat} {p : Option Nat} (hp : c.hashPorts[b]? = some p)
    : c.root b = p := by
  rw [root, hp, Option.join_some]

theorem root_set {c c' : DbCache δ} {b : Nat} {p : Option Nat} (hlt : b < c.hashPorts.size)
    (hports : c'.hashPorts = c.hashPorts.setIfInBounds b p)
    : c'.root = Function.update c.root b p := by
  funext b'
  by_cases hbb : b' = b
  . subst hbb
    simp [root, hports, hlt]
  . rw [Function.update_of_ne hbb, root, root, hports,
      Array.getElem?_setIfInBounds_ne (Ne.symm hbb)]

theorem slot_eq_some {c : DbCache δ} {node b : Nat}
    : c.slot node = some b ↔ ∃ k, c.heap.key node = some k ∧ c.base k = some b :=
  Option.bind_eq_some_iff

theorem base_lt {c : DbCache δ} {k : Int} {b : Nat} (hpos : 0 < c.hashSize)
    (hb : c.base k = some b)
    : b < c.hashSize.toNat := by
  unfold base at hb
  split at hb
  . contradiction
  . next hk =>
    have hlt := Int.tmod_lt_of_pos k hpos
    simp only [Option.some.injEq] at hb
    omega

theorem base_of_nonneg {c : DbCache δ} {k : Int} (hpos : 0 < c.hashSize) (hk : 0 ≤ k)
    : ∃ b, c.base k = some b := by
  have := Int.tmod_nonneg c.hashSize hk
  refine ⟨(k.tmod c.hashSize).toNat, ?_⟩
  unfold base
  rw [if_neg]
  omega

theorem base_congr {c c' : DbCache δ} (h : c'.hashSize = c.hashSize) (k : Int)
    : c'.base k = c.base k := by
  unfold base
  rw [h]

namespace Hashed

variable {c : DbCache δ} {bucket : Nat → List Nat} {live free : List Nat}

theorem port_lt (H : Hashed c bucket live free) {k : Int} {b : Nat} (hb : c.base k = some b)
    : b < c.hashPorts.size := by
  rw [H.ports_size]
  exact base_lt H.hashSize_pos hb

theorem buckets (H : Hashed c bucket live free)
    : Buckets c.heap.hashNext c.root c.slot (· ∈ live) bucket where
  chain := by
    intro b
    cases hp : c.hashPorts[b]? with
    | none =>
      have hnil : bucket b = [] := by
        apply List.eq_nil_iff_forall_not_mem.mpr
        intro r hr
        obtain ⟨-, k, -, hb⟩ := (H.mem_bucket b r).mp hr
        have hlt := H.port_lt hb
        rw [Array.getElem?_eq_none_iff] at hp
        omega
      rw [hnil, root, hp]
      rfl
    | some p =>
      rw [root_eq hp]
      exact H.chain b p hp
  mem := by
    intro b r
    rw [slot_eq_some]
    exact H.mem_bucket b r
  nodup := H.nodup_bucket

theorem of_buckets {port : Nat → Option Nat} (hpos : 0 < c.hashSize)
    (hports : c.hashPorts.size = c.hashSize.toNat) (hroot : c.root = port)
    (B : Buckets c.heap.hashNext port c.slot (· ∈ live) bucket)
    (hkeyed : ∀ r ∈ live, ∃ k b, c.heap.key r = some k ∧ c.base k = some b)
    (hinj : ∀ r ∈ live, ∀ r' ∈ live, c.heap.key r = c.heap.key r' → r = r')
    (hfree : Chain c.heap.hashNext c.memHead free) (hnodup : (live ++ free).Nodup)
    : Hashed c bucket live free where
  hashSize_pos := hpos
  ports_size := hports
  chain := by
    intro b p hp
    rw [← root_eq hp, hroot]
    exact B.chain b
  mem_bucket := by
    intro b r
    rw [← slot_eq_some]
    exact B.mem b r
  nodup_bucket := B.nodup
  keyed := hkeyed
  key_inj := hinj
  freeChain := hfree
  nodup := hnodup

theorem transport {c' : DbCache δ} {live' free' : List Nat} (H : Hashed c bucket live free)
    (hsize : c'.hashSize = c.hashSize) (hports : c'.hashPorts = c.hashPorts)
    (hlive : live.Perm live')
    (hsame : ∀ r ∈ live,
      c'.heap.hashNext r = c.heap.hashNext r ∧ c'.heap.key r = c.heap.key r)
    (hfree : Chain c'.heap.hashNext c'.memHead free') (hnodup : (live' ++ free').Nodup)
    : Hashed c' bucket live' free' := by
  have hbase : c'.base = c.base := funext (base_congr hsize)
  apply of_buckets
  case hpos => rw [hsize]; exact H.hashSize_pos
  case hports => rw [hsize, hports]; exact H.ports_size
  case hroot =>
    show c'.root = c.root
    funext b
    rw [root, root, hports]
  case B =>
    apply H.buckets.congr fun _ => hlive.mem_iff.symm
    intro r hr
    rw [slot, slot, (hsame r hr).2, hbase]
    exact ⟨(hsame r hr).1, rfl⟩
  case hkeyed =>
    intro r hr
    have hr := hlive.mem_iff.mpr hr
    rw [(hsame r hr).2, hbase]
    exact H.keyed r hr
  case hinj =>
    intro r hr r' hr'
    have hr := hlive.mem_iff.mpr hr
    have hr' := hlive.mem_iff.mpr hr'
    rw [(hsame r hr).2, (hsame r' hr').2]
    exact H.key_inj r hr r' hr'
  case hfree => exact hfree
  case hnodup => exact hnodup

theorem congr {c' : DbCache δ} {live' : List Nat} (H : Hashed c bucket live free)
    (hsize : c'.hashSize = c.hashSize) (hports : c'.hashPorts = c.hashPorts)
    (hmem : c'.memHead = c.memHead) (hnext : c'.heap.hashNext = c.heap.hashNext)
    (hkey : c'.heap.key = c.heap.key) (hlive : live.Perm live')
    : Hashed c' bucket live' free := by
  apply H.transport hsize hports hlive
  . intro r _
    rw [hnext, hkey]
    exact ⟨rfl, rfl⟩
  . rw [hnext, hmem]
    exact H.freeChain
  . exact (hlive.append_right free).nodup_iff.mp H.nodup

theorem nodup_live (H : Hashed c bucket live free) : live.Nodup :=
  (List.nodup_append.mp H.nodup).1

theorem not_mem_free (H : Hashed c bucket live free) {r : Nat} (hr : r ∈ live)
    : r ∉ free := by
  intro hfree
  exact (List.nodup_append.mp H.nodup).2.2 r hr r hfree rfl

theorem port_eq (H : Hashed c bucket live free) {k : Int} {b : Nat} (hb : c.base k = some b)
    : c.hashPorts[b]? = some (c.root b) := by
  have hp := Array.getElem?_eq_getElem (H.port_lt hb)
  rw [hp, root_eq hp]

theorem length_bucket_le (H : Hashed c bucket live free) (b : Nat)
    : (bucket b).length ≤ live.length := by
  have hsub : bucket b ⊆ live := by
    intro r hr
    exact ((H.mem_bucket b r).mp hr).1
  exact ((H.nodup_bucket b).subperm hsub).length_le

theorem hasKey_iff {r : Nat} {k : Int} : hasKey c.heap k r = true ↔ c.heap.key r = some k := by
  simp [hasKey]

theorem hashFind_cases (H : Hashed c bucket live free) (hfuel : live.length ≤ c.chainFuel)
    {k : Int} {b : Nat} (hb : c.base k = some b)
    : (c.hashFind k = some none ∧ ∀ r ∈ live, c.heap.key r ≠ some k)
        ∨ ∃ r ∈ live, c.heap.key r = some k ∧ c.hashFind k = some (some r) := by
  have hfind : c.hashFind k = walk c.heap.hashNext (hasKey c.heap k) c.chainFuel (c.root b) := by
    unfold hashFind
    simp only [Option.bind_eq_bind, hb, Option.bind_some, H.port_eq hb]
  rw [hfind]
  rcases H.buckets.walk_cases (q := hasKey c.heap k) ((H.length_bucket_le b).trans hfuel)
    with ⟨hwalk, hnone⟩ | ⟨r, hr, -, hkey, hwalk⟩
  . left
    refine ⟨hwalk, ?_⟩
    intro r hr hkey
    have := hnone r hr (slot_eq_some.mpr ⟨k, hkey, hb⟩)
    rw [hasKey_iff.mpr hkey] at this
    contradiction
  . exact .inr ⟨r, hr, hasKey_iff.mp hkey, hwalk⟩

theorem hashFind_iff (H : Hashed c bucket live free) (hfuel : live.length ≤ c.chainFuel) {k : Int}
    {r : Nat}
    : c.hashFind k = some (some r) ↔ r ∈ live ∧ c.heap.key r = some k := by
  constructor
  . intro hfind
    cases hb : c.base k with
    | none => simp [hashFind, hb] at hfind
    | some b =>
      rcases H.hashFind_cases hfuel hb with ⟨hfind', -⟩ | ⟨r', hr', hkey', hfind'⟩
      . simp [hfind'] at hfind
      . obtain rfl : r' = r := by simpa [hfind'] using hfind
        exact ⟨hr', hkey'⟩
  . rintro ⟨hr, hkey⟩
    obtain ⟨k', b, hkey', hb⟩ := H.keyed r hr
    obtain rfl : k = k' := Option.some.inj (hkey.symm.trans hkey')
    rcases H.hashFind_cases hfuel hb with ⟨-, hnew⟩ | ⟨r', hr', hkey'', hfind⟩
    . exact absurd hkey (hnew r hr)
    . rw [hfind, H.key_inj r' hr' r hr (hkey''.trans hkey.symm)]

theorem hashAdd_eq (H : Hashed c bucket live free) {node : Nat} {k : Int} {b : Nat}
    (hlive : node ∉ live) (hfree : node ∉ free) (hkey : c.heap.key node = some k)
    (hb : c.base k = some b) (hnew : ∀ r ∈ live, c.heap.key r ≠ some k)
    : ∃ next ports,
        c.hashAdd node = some { c with
          heap := { c.heap with hashNext := next }
          hashPorts := ports
          currSize := c.currSize + 1 }
        ∧ Hashed { c with
            heap := { c.heap with hashNext := next }
            hashPorts := ports
            currSize := c.currSize + 1 }
          (Function.update bucket b (node :: bucket b)) (live ++ [node]) free := by
  refine ⟨Function.update c.heap.hashNext node (c.root b),
    c.hashPorts.setIfInBounds b (some node), ?_, ?_⟩
  . unfold hashAdd
    simp [hkey, hb, H.port_eq hb, NodeHeap.setHashNext]
  apply of_buckets
  case hpos => exact H.hashSize_pos
  case hports => simpa using H.ports_size
  case hroot => exact root_set (H.port_lt hb) rfl
  case B =>
    apply (H.buckets.push hlive (slot_eq_some.mpr ⟨k, hkey, hb⟩)).congr
    . simp
    . exact fun _ _ => ⟨rfl, rfl⟩
  case hkeyed =>
    intro r hr
    rcases List.mem_append.mp hr with hr | hr
    . exact H.keyed r hr
    . obtain rfl := List.mem_singleton.mp hr
      exact ⟨k, b, hkey, hb⟩
  case hinj =>
    intro r hr r' hr' heq
    simp only [List.mem_append, List.mem_singleton] at hr hr'
    rcases hr with hr | rfl <;> rcases hr' with hr' | rfl
    . exact H.key_inj r hr r' hr' heq
    . exact absurd (heq.trans hkey) (hnew r hr)
    . exact absurd (heq.symm.trans hkey) (hnew r' hr')
    . rfl
  case hfree => exact chain_update H.freeChain hfree
  case hnodup =>
    have hperm : (live ++ [node] ++ free).Perm (node :: (live ++ free)) := by
      rw [List.append_assoc]
      exact List.perm_middle
    rw [hperm.nodup_iff]
    refine List.nodup_cons.mpr ⟨?_, H.nodup⟩
    simp [hlive, hfree]

theorem remove {c' : DbCache δ} {port : Nat → Option Nat} {bucket' : Nat → List Nat} {r : Nat}
    (H : Hashed c bucket live free) (hsize : c'.hashSize = c.hashSize)
    (hports : c'.hashPorts.size = c.hashPorts.size) (hroot : c'.root = port)
    (hkeys : c'.heap.key = c.heap.key)
    (B : Buckets c'.heap.hashNext port c.slot (fun r' => r' ∈ live ∧ r' ≠ r) bucket')
    (hfree : Chain c'.heap.hashNext c'.memHead free)
    : Hashed c' bucket' (live.erase r) free := by
  have hbase : c'.base = c.base := funext (base_congr hsize)
  apply of_buckets
  case hpos => rw [hsize]; exact H.hashSize_pos
  case hports => rw [hsize, hports]; exact H.ports_size
  case hroot => exact hroot
  case B =>
    apply B.congr
    . intro r'
      rw [H.nodup_live.mem_erase_iff]
      exact And.comm
    . intro r' _
      rw [slot, slot, hkeys, hbase]
      exact ⟨rfl, rfl⟩
  case hkeyed =>
    intro r' hr'
    rw [hkeys, hbase]
    exact H.keyed r' (List.mem_of_mem_erase hr')
  case hinj =>
    intro r₁ hr₁ r₂ hr₂
    rw [hkeys]
    exact H.key_inj r₁ (List.mem_of_mem_erase hr₁) r₂ (List.mem_of_mem_erase hr₂)
  case hfree => exact hfree
  case hnodup => exact H.nodup.sublist (List.erase_sublist.append_right free)

theorem hashDel_eq (H : Hashed c bucket live free) (hfuel : live.length ≤ c.chainFuel)
    {r : Nat} {k : Int} {b : Nat}
    (hr : r ∈ live) (hkey : c.heap.key r = some k) (hb : c.base k = some b)
    : ∃ next ports,
        c.hashDel k = some { c with
          heap := { c.heap with hashNext := next }
          hashPorts := ports
          currSize := c.currSize - 1 }
        ∧ Hashed { c with
            heap := { c.heap with hashNext := next }
            hashPorts := ports
            currSize := c.currSize - 1 }
          (Function.update bucket b ((bucket b).erase r)) (live.erase r) free := by
  have hq : hasKey c.heap k r = true := hasKey_iff.mpr hkey
  have honly : ∀ r' ∈ live, c.slot r' = some b → hasKey c.heap k r' = true → r' = r := by
    intro r' hr' _ hkey'
    exact H.key_inj r' hr' r hr ((hasKey_iff.mp hkey').trans hkey.symm)
  rcases H.buckets.delete_cases hr (slot_eq_some.mpr ⟨k, hkey, hb⟩)
    ((H.length_bucket_le b).trans hfuel) hq honly
    with ⟨hstart, B⟩ | ⟨a, last, hstart, hfalse, hstop, hnext, hne, B⟩
  . -- `r` is the head of its chain
    refine ⟨Function.update c.heap.hashNext r none,
      c.hashPorts.setIfInBounds b (c.heap.hashNext r), ?_, ?_⟩
    . unfold hashDel
      simp [hb, H.port_eq hb, hstart, hq, NodeHeap.setHashNext]
    . exact H.remove rfl (by simp) (root_set (H.port_lt hb) rfl) rfl B
        (chain_update H.freeChain (H.not_mem_free hr))
  . -- the loop stops before `r`
    refine ⟨Function.update (Function.update c.heap.hashNext last (c.heap.hashNext r)) r none,
      c.hashPorts, ?_, ?_⟩
    . unfold hashDel
      simp [hb, H.port_eq hb, hstart, hfalse, hstop, hnext, NodeHeap.setHashNext]
    . have hlast : last ∉ free := fun hmem =>
        H.not_mem_free hr (chain_mem_next H.freeChain hmem hnext)
      exact H.remove rfl rfl rfl rfl B
        (chain_update (chain_update H.freeChain hlast) (H.not_mem_free hr))

end Hashed

end DbCache

end WzGame
