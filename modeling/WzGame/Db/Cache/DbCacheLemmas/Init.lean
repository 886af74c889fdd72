import WzGame.Db.Cache.DbCacheLemmas.Inv

namespace WzGame

open NextChain

namespace DbCache

variable {δ : Type}

theorem allocNodes_eq {h h' : NodeHeap δ} {memHead memHead' : Option Nat} {n : Nat}
    (free : List Nat) (hchain : Chain h.hashNext memHead free) (hnodup : free.Nodup)
    (hlt : ∀ r ∈ free, r < h.size) (hres : allocNodes h memHead n = (h', memHead'))
    : ∃ free', Chain h'.hashNext memHead' free' ∧ free'.Nodup ∧ (∀ r ∈ free', r < h'.size)
        ∧ free'.length = free.length + n := by
  induction n generalizing h memHead free with
  | zero =>
    obtain ⟨rfl, rfl⟩ : h = h' ∧ memHead = memHead' := by simpa [allocNodes] using hres
    exact ⟨free, hchain, hnodup, hlt, rfl⟩
  | succ n ih =>
    have hnew : h.size ∉ free := fun hmem => Nat.lt_irrefl _ (hlt _ hmem)
    obtain ⟨free', hchain', hnodup', hlt', hlen⟩ := ih (h.size :: free)
      (chain_push (chain_update hchain hnew) hnew) (List.nodup_cons.mpr ⟨hnew, hnodup⟩)
      (by
        intro r hr
        have : r = h.size ∨ r < h.size := (List.mem_cons.mp hr).imp_right (hlt r)
        simp
        omega)
      hres
    refine ⟨free', hchain', hnodup', hlt', ?_⟩
    simp at hlen
    omega

theorem init_inv {c : DbCache δ} {hashSize nodeSize maxCleanSize : Int}
    (hinit : (new : DbCache δ).init hashSize nodeSize maxCleanSize = some (true, c))
    : ∃ sh, Inv c sh ∧ sh.clean = [] ∧ sh.busy = [] ∧ sh.dirty = []
        ∧ 0 < c.hashSize ∧ c.maxSize = nodeSize ∧ c.maxCleanSize = maxCleanSize := by
  unfold init at hinit
  split at hinit
  . simp at hinit
  next hpos =>
  have hhash : 0 < hashSize := by omega
  have hnode : 0 < nodeSize := by omega
  obtain ⟨⟨h, memHead⟩, halloc⟩ : ∃ p, allocNodes (NodeHeap.empty : NodeHeap δ) none
      nodeSize.toNat = p := ⟨_, rfl⟩
  obtain ⟨free, hchain, hnodup, hlt, hlen⟩ :=
    allocNodes_eq [] rfl List.nodup_nil (by simp) halloc
  -- the ring of the two sentinels
  have hempty := Links.initHead_ring ((h.lru.clear h.size).clear (h.size + 1)) h.size
  rw [← List.append_nil []] at hempty
  have hout : h.size + 1 ∉ h.size :: ([] ++ []) := by simp
  have htail : [h.size].getLast? = some h.size := rfl
  obtain ⟨lru, hlru, hring⟩ := hempty.insertAfter hout htail
  have hring' : (lru.clear (h.size + 2)).Ring h.size [h.size + 1] := hring.clear (by simp)
  simp only [new, halloc, NodeHeap.dlistAdd] at hinit
  simp only [NodeHeap.create, NodeHeap.dlistInitHead, hlru] at hinit
  simp only [Option.bind_eq_bind, Option.bind_some, Option.pure_def] at hinit
  obtain rfl := (Prod.mk.inj (Option.some.inj hinit)).2
  refine ⟨⟨h.size, h.size + 1, h.size + 2, [], [], [], free, fun _ => []⟩, ⟨?_, ?_⟩, rfl, rfl, rfl,
    hhash, rfl, rfl⟩
  . constructor
    case lruHead => rfl
    case lruMid => rfl
    case dirtyHead => rfl
    case lruRing => exact hring'
    case dirtyRing => exact Links.initHead_ring _ _
    case hashed =>
      constructor
      case hashSize_pos => exact hhash
      case ports_size => simp
      case chain =>
        intro b p hp
        rw [Array.getElem?_replicate] at hp
        split at hp
        . exact (Option.some.inj hp).symm
        . contradiction
      case mem_bucket => simp [Shape.live]
      case nodup_bucket => simp
      case keyed => simp [Shape.live]
      case key_inj => simp [Shape.live]
      case freeChain =>
        apply chain_congr hchain
        intro r hr
        have := hlt r hr
        have h₀ : r ≠ h.size := by omega
        have h₁ : r ≠ h.size + 1 := by omega
        have h₂ : r ≠ h.size + 1 + 1 := by omega
        simp [h₀, h₁, h₂]
      case nodup => simpa [Shape.live] using hnodup
    case sentinel =>
      intro r hr
      have := hlt r (by simpa [Shape.live] using hr)
      simp only
      omega
    case loaded => simp
    case pendingOrDirty => simp
    case mem_dirty => simp
    case currSize => rfl
    case cleanSize => rfl
    case dirtySize => rfl
  . simp at hlen ⊢
    omega

end DbCache

end WzGame
