import Mathlib.Data.List.Perm.Subperm
import WzGame.Util.HashPorts
import WzGame.Db.Cache.MulSearch
import WzGame.Db.Cache.KeyQueues

/-!
This module contains the relation between a `MulSearch` and the queues it stands for, and that the
operations of both agree.
-/

namespace WzGame

open NextChain HashPorts KeyQueues

namespace MulSearch

variable {E : Type}

def root (m : MulSearch E) (b : Nat) : Option Nat := m.ports[b]?.bind SHashPort.root

def slot (m : MulSearch E) (node : Nat) : Option Nat := (m.heap.key node).bind m.pos

def nodeNum (m : MulSearch E) (b : Nat) : Int32 := (m.ports[b]?.map SHashPort.nodeNum).getD 0

def Counted (m m' : MulSearch E) (b : Nat) (n : Int32) : Prop :=
  m'.totalNodeNum = m.totalNodeNum + n ∧ m'.nodeNum = Function.update m.nodeNum b (m.nodeNum b + n)

structure Holds (m : MulSearch E) (q : KeyQueues E) : Prop where
  hashSize_pos : 0 < m.hashSize
  ports_size : m.ports.size = m.hashSize.toNat
  size : m.heap.size = q.size
  key : m.heap.key = q.key
  data : m.heap.data = q.data
  wf : q.WF
  located : ∀ k, q.queue k ≠ [] → m.pos k ≠ none
  same : ∀ k, Chain m.heap.sameNext (q.search k) (q.queue k)
  loose : ∀ node, (∀ k, node ∉ q.queue k) → m.heap.sameNext node = none
  buckets : ∃ bucket,
    Buckets m.heap.next m.root m.slot (fun node => ∃ k, q.search k = some node) bucket

theorem pos_lt {m : MulSearch E} {k : Int} {b : Nat} (hpos : 0 < m.hashSize)
    (hb : m.pos k = some b)
    : b < m.hashSize.toNat := by
  unfold pos at hb
  split at hb
  . contradiction
  . next hk =>
    have hlt := Int.tmod_lt_of_pos k hpos
    simp only [Option.some.injEq] at hb
    omega

theorem pos_of_nonneg {m : MulSearch E} {k : Int} (hpos : 0 < m.hashSize) (hk : 0 ≤ k)
    : ∃ b, m.pos k = some b := by
  have := Int.tmod_nonneg m.hashSize hk
  refine ⟨(k.tmod m.hashSize).toNat, ?_⟩
  unfold pos
  rw [if_neg]
  omega

theorem root_set {ports : Array SHashPort} {b : Nat} {port : SHashPort} (hlt : b < ports.size)
    : (fun b' => (ports.setIfInBounds b port)[b']?.bind SHashPort.root)
        = Function.update (fun b' => ports[b']?.bind SHashPort.root) b port.root := by
  funext b'
  by_cases hbb : b' = b
  . subst hbb
    simp [hlt]
  . rw [Function.update_of_ne hbb, Array.getElem?_setIfInBounds_ne (Ne.symm hbb)]

theorem root_set_self {m : MulSearch E} {b : Nat} {root : Option Nat} {nodeNum : Int32}
    (hlt : b < m.ports.size) (hroot : m.root b = root)
    : (fun b' => (m.ports.setIfInBounds b ⟨nodeNum, root⟩)[b']?.bind SHashPort.root) = m.root := by
  rw [root_set hlt, ← hroot]
  exact Function.update_eq_self b m.root

theorem nodeNum_set {m : MulSearch E} {b : Nat} {port : SHashPort} {n : Int32} {root : Option Nat}
    (hport : m.ports[b]? = some port)
    : (fun b' => ((m.ports.setIfInBounds b ⟨port.nodeNum + n, root⟩)[b']?.map SHashPort.nodeNum).getD 0)
        = Function.update m.nodeNum b (m.nodeNum b + n) := by
  obtain ⟨hlt, -⟩ := Array.getElem?_eq_some_iff.mp hport
  have hb : m.nodeNum b = port.nodeNum := by simp [nodeNum, hport]
  funext b'
  by_cases hbb : b' = b
  . subst hbb
    simp [hlt, hb]
  . rw [Function.update_of_ne hbb, Array.getElem?_setIfInBounds_ne (Ne.symm hbb), nodeNum]

theorem counted_sub {m : MulSearch E} {b : Nat} {heap : LinkHeap E} {port : SHashPort} {n : Int32}
    {root : Option Nat} (hport : m.ports[b]? = some port)
    : Counted m { m with
        heap := heap
        ports := m.ports.setIfInBounds b ⟨port.nodeNum - n, root⟩
        totalNodeNum := m.totalNodeNum - n } b (-n) := by
  rw [Int32.sub_eq_add_neg port.nodeNum, Int32.sub_eq_add_neg m.totalNodeNum]
  exact ⟨rfl, nodeNum_set hport⟩

theorem counted_self {m : MulSearch E} {b : Nat} : Counted m m b 0 := by
  constructor
  . simp
  . simp

theorem length_le_of_lt {nodes : List Nat} {n : Nat} (hnodup : nodes.Nodup)
    (hlt : ∀ node ∈ nodes, node < n)
    : nodes.length ≤ n := by
  have hsub : nodes ⊆ List.range n := fun node hnode => List.mem_range.mpr (hlt node hnode)
  simpa using (hnodup.subperm hsub).length_le

theorem cutSame_eq {same : Nat → Option Nat} {p : Option Nat} {nodes : List Nat} {fuel : Nat}
    (hchain : Chain same p nodes) (hnodup : nodes.Nodup) (hfuel : nodes.length ≤ fuel)
    : ∃ same', cutSame same fuel p = some (same', Int32.ofNat nodes.length)
        ∧ ∀ node, same' node = if node ∈ nodes then none else same node := by
  induction nodes generalizing same p fuel with
  | nil =>
    obtain rfl : p = none := hchain
    exact ⟨same, by simp [cutSame], by simp⟩
  | cons inside nodes ih =>
    obtain ⟨rfl, hrest⟩ := hchain
    obtain ⟨hnotin, hnodup⟩ := List.nodup_cons.mp hnodup
    cases fuel with
    | zero => simp at hfuel
    | succ fuel =>
      have hrest : Chain (Function.update same inside none) (same inside) nodes :=
        chain_update hrest hnotin
      obtain ⟨same', hcut, hsame⟩ := ih hrest hnodup (by simpa using hfuel)
      refine ⟨same', by simp [cutSame, hcut], ?_⟩
      intro node
      rw [hsame node]
      by_cases hnode : node = inside
      . subst hnode
        simp
      . simp [hnode]

namespace Holds

variable {m : MulSearch E} {q : KeyQueues E} {k : Int} {b : Nat}

theorem head_mem {node : Nat} (h : q.search k = some node) : node ∈ q.queue k :=
  List.mem_of_mem_head? h

theorem search_key (H : Holds m q) {node : Nat} (h : q.search k = some node)
    : m.heap.key node = some k ∧ node < m.heap.size := by
  rw [H.key, H.size]
  exact H.wf.keyed k node (head_mem h)

theorem port_lt (H : Holds m q) (hb : m.pos k = some b) : b < m.ports.size := by
  rw [H.ports_size]
  exact pos_lt H.hashSize_pos hb

theorem port_eq (H : Holds m q) (hb : m.pos k = some b)
    : ∃ port, m.ports[b]? = some port ∧ m.root b = port.root := by
  have hlt := H.port_lt hb
  refine ⟨_, Array.getElem?_eq_getElem hlt, ?_⟩
  unfold root
  rw [Array.getElem?_eq_getElem hlt]
  rfl

theorem length_bucket_le (H : Holds m q) {bucket : Nat → List Nat}
    (B : Buckets m.heap.next m.root m.slot (fun node => ∃ k, q.search k = some node) bucket)
    : (bucket b).length ≤ m.heap.size := by
  apply length_le_of_lt (B.nodup b)
  intro node hnode
  obtain ⟨⟨k, hk⟩, -⟩ := (B.mem b node).mp hnode
  exact (H.search_key hk).2

theorem length_queue_le (H : Holds m q) : (q.queue k).length ≤ m.heap.size := by
  apply length_le_of_lt (H.wf.nodup k)
  intro node hnode
  rw [H.size]
  exact (H.wf.keyed k node hnode).2

theorem hasKey_iff (H : Holds m q) {node : Nat} (hnode : ∃ k, q.search k = some node)
    : hasKey m.heap k node = true ↔ q.search k = some node := by
  obtain ⟨k', hk'⟩ := hnode
  have hkey := (H.search_key hk').1
  constructor
  . intro h
    obtain rfl : k' = k := by simpa [hasKey, hkey] using h
    exact hk'
  . intro h
    simp [hasKey, (H.search_key h).1]

theorem walk_eq (H : Holds m q) (hb : m.pos k = some b)
    : walk m.heap.next (hasKey m.heap k) m.heap.size (m.root b) = some (q.search k) := by
  obtain ⟨bucket, B⟩ := H.buckets
  rcases B.walk_cases (q := hasKey m.heap k) (H.length_bucket_le B)
    with ⟨hwalk, hnone⟩ | ⟨node, hlive, -, hq, hwalk⟩
  . rw [hwalk]
    cases hsearch : q.search k with
    | none => rfl
    | some node =>
      have hkey := (H.search_key hsearch).1
      have := hnone node ⟨k, hsearch⟩ (by simp [slot, hkey, hb])
      simp [hasKey, hkey] at this
  . rw [hwalk, (H.hasKey_iff hlive).mp hq]

theorem search_eq (H : Holds m q) (hb : m.pos k = some b) : m.search k = some (q.search k) := by
  obtain ⟨port, hport, hroot⟩ := H.port_eq hb
  unfold MulSearch.search
  rw [hb]
  simp only [Option.bind_eq_bind, Option.bind_some, hport, ← hroot]
  exact H.walk_eq hb

theorem sameNext_eq (H : Holds m q) (node : Nat) : m.heap.sameNext node = q.sameNext node := by
  by_cases hnode : ∃ k, node ∈ q.queue k
  . obtain ⟨k, hk⟩ := hnode
    obtain ⟨xs, ys, hqueue⟩ := List.append_of_mem hk
    rw [H.wf.sameNext_eq hqueue]
    have hchain := H.same k
    rw [hqueue] at hchain
    exact chain_head? (chain_next hchain)
  . have hnode : ∀ k, node ∉ q.queue k := by simpa using hnode
    rw [H.loose node hnode, KeyQueues.sameNext_eq_none hnode]

theorem congr {m' : MulSearch E} (H : Holds m q) (hsize : m'.hashSize = m.hashSize)
    (hports : m'.ports.size = m.ports.size) (hheap : m'.heap = m.heap) (hroot : m'.root = m.root)
    : Holds m' q := by
  have hpos : m'.pos = m.pos := by
    funext k
    unfold pos
    rw [hsize]
  have hslot : m'.slot = m.slot := by
    funext node
    unfold slot
    rw [hheap, hpos]
  constructor
  case hashSize_pos => rw [hsize]; exact H.hashSize_pos
  case ports_size => rw [hsize, hports]; exact H.ports_size
  case size => rw [hheap]; exact H.size
  case key => rw [hheap]; exact H.key
  case data => rw [hheap]; exact H.data
  case wf => exact H.wf
  case located => rw [hpos]; exact H.located
  case same => rw [hheap]; exact H.same
  case loose => rw [hheap]; exact H.loose
  case buckets => rw [hheap, hroot, hslot]; exact H.buckets

theorem search_none : q.search k = none ↔ q.queue k = [] := by simp [KeyQueues.search]

theorem buckets_create (H : Holds m q) (k : Int) (data : Option E) {bucket : Nat → List Nat}
    (B : Buckets m.heap.next m.root m.slot (fun node => ∃ k, q.search k = some node) bucket)
    : Buckets (m.heap.create k data).next m.root
        (fun node => ((m.heap.create k data).key node).bind m.pos)
        (fun node => ∃ k, q.search k = some node) bucket := by
  apply B.congr (fun _ => Iff.rfl)
  rintro node ⟨k', hk'⟩
  have hlt := (H.search_key hk').2
  simp only [LinkHeap.create, slot, Function.update_of_ne (Nat.ne_of_lt hlt)]
  exact ⟨trivial, trivial⟩

theorem size_notMem (H : Holds m q) (k : Int) : m.heap.size ∉ q.queue k := by
  intro hmem
  have hlt := (H.wf.keyed k _ hmem).2
  rw [H.size] at hlt
  exact Nat.lt_irrefl _ hlt

theorem walk_create (H : Holds m q) (hb : m.pos k = some b) (data : Option E)
    : walk (m.heap.create k data).next (hasKey (m.heap.create k data) k)
        (m.heap.create k data).size (m.root b) = some (q.search k) := by
  obtain ⟨bucket, B⟩ := H.buckets
  have hkey : ∀ node, (∃ k, q.search k = some node)
      → hasKey (m.heap.create k data) k node = hasKey m.heap k node := by
    rintro node ⟨k', hk'⟩
    have hlt := (H.search_key hk').2
    simp [hasKey, LinkHeap.create, Function.update_of_ne (Nat.ne_of_lt hlt)]
  rw [show (m.heap.create k data).size = m.heap.size.succ from rfl]
  rcases (H.buckets_create k data B).walk_cases (q := hasKey (m.heap.create k data) k) (b := b)
    (Nat.le_succ_of_le (H.length_bucket_le B)) with ⟨hwalk, hnone⟩ | ⟨node, hlive, -, hq, hwalk⟩
  . rw [hwalk]
    cases hsearch : q.search k with
    | none => rfl
    | some node =>
      obtain ⟨hk, hlt⟩ := H.search_key hsearch
      have := hnone node ⟨k, hsearch⟩
        (by simp [LinkHeap.create, Function.update_of_ne (Nat.ne_of_lt hlt), hk, hb])
      rw [hkey node ⟨k, hsearch⟩, (H.hasKey_iff ⟨k, hsearch⟩).mpr hsearch] at this
      contradiction
  . rw [hkey node hlive, H.hasKey_iff hlive] at hq
    rw [hwalk, hq]

theorem linked (H : Holds m q) (hb : m.pos k = some b) {data : Option E}
    {next sameNext : Nat → Option Nat} {ports : Array SHashPort} {n : Int32}
    (hports : ports.size = m.ports.size)
    (hother : ∀ node, node ∉ q.queue k → sameNext node = (m.heap.create k data).sameNext node)
    (hsame : Chain sameNext ((q.addKey k data).search k) ((q.addKey k data).queue k))
    (hbuckets : ∃ bucket,
      Buckets next (fun b' => ports[b']?.bind SHashPort.root)
        (fun node => ((m.heap.create k data).key node).bind m.pos)
        (fun node => ∃ k', (q.addKey k data).search k' = some node) bucket)
    : Holds { m with
        heap := { m.heap.create k data with next := next, sameNext := sameNext }
        ports := ports
        totalNodeNum := n } (q.addKey k data) := by
  constructor
  case hashSize_pos => exact H.hashSize_pos
  case ports_size => exact hports.trans H.ports_size
  case size => exact congrArg (· + 1) H.size
  case key =>
    show Function.update m.heap.key m.heap.size (some k) = Function.update q.key q.size (some k)
    rw [H.key, H.size]
  case data =>
    show Function.update m.heap.data m.heap.size data = Function.update q.data q.size data
    rw [H.data, H.size]
  case wf => exact H.wf.addKey
  case located =>
    intro k' hk'
    show m.pos k' ≠ none
    by_cases hkk : k' = k
    . simp [hkk, hb]
    . rw [queue_addKey_of_ne hkk] at hk'
      exact H.located k' hk'
  case same =>
    intro k'
    show Chain sameNext _ _
    by_cases hkk : k' = k
    . subst hkk
      exact hsame
    . rw [KeyQueues.search, queue_addKey_of_ne hkk]
      apply chain_congr (chain_update (H.same k') (H.size_notMem k'))
      intro node hnode
      exact hother node fun hmem => hkk (H.wf.key_unique hmem hnode)
  case loose =>
    intro node hnode
    have hself := hnode k
    rw [queue_addKey_self, List.mem_append, List.mem_singleton, not_or, ← H.size] at hself
    have hcreate : (m.heap.create k data).sameNext node = m.heap.sameNext node :=
      Function.update_of_ne hself.2 ..
    show sameNext node = none
    rw [hother node hself.1, hcreate]
    apply H.loose
    intro k'
    by_cases hkk : k' = k
    . subst hkk
      exact hself.1
    . have hqueue : (q.addKey k data).queue k' = q.queue k' := queue_addKey_of_ne hkk
      rw [← hqueue]
      exact hnode k'
  case buckets => exact hbuckets

theorem addKey_first (H : Holds m q) (hb : m.pos k = some b) (data : Option E)
    (hsearch : q.search k = none)
    : ∃ m', m.addKey k data = some (true, m') ∧ m'.hashSize = m.hashSize
        ∧ Counted m m' b 1 ∧ Holds m' (q.addKey k data) := by
  obtain ⟨port, hport, hroot⟩ := H.port_eq hb
  obtain ⟨bucket, B⟩ := H.buckets
  have hwalk := H.walk_create hb data
  rw [hroot, hsearch] at hwalk
  have hqueue : (q.addKey k data).queue k = [m.heap.size] := by
    rw [queue_addKey_self, search_none.mp hsearch, H.size, List.nil_append]
  have hlive : ∀ node, (∃ k', (q.addKey k data).search k' = some node)
      ↔ (∃ k', q.search k' = some node) ∨ node = m.heap.size := by
    intro node
    constructor
    . rintro ⟨k', hk'⟩
      by_cases hkk : k' = k
      . subst hkk
        rw [KeyQueues.search, hqueue] at hk'
        exact .inr (Option.some.inj hk').symm
      . rw [KeyQueues.search, queue_addKey_of_ne hkk] at hk'
        exact .inl ⟨k', hk'⟩
    . rintro (⟨k', hk'⟩ | rfl)
      . refine ⟨k', ?_⟩
        have hkk : k' ≠ k := by
          rintro rfl
          simp [hsearch] at hk'
        rwa [KeyQueues.search, queue_addKey_of_ne hkk]
      . exact ⟨k, by rw [KeyQueues.search, hqueue]; rfl⟩
  refine ⟨{ m with
    heap := (m.heap.create k data).setNext m.heap.size port.root
    ports := m.ports.setIfInBounds b ⟨port.nodeNum + 1, some m.heap.size⟩
    totalNodeNum := m.totalNodeNum + 1 }, ?_, rfl, ⟨rfl, nodeNum_set hport⟩, ?_⟩
  . unfold MulSearch.addKey
    simp only [hb, hport, Option.bind_eq_bind, Option.bind_some, hwalk]
    rfl
  . apply H.linked hb
    case hports => simp
    case hother => exact fun _ _ => rfl
    case hsame =>
      rw [KeyQueues.search, hqueue]
      simp [LinkHeap.create]
    case hbuckets =>
      have hslot : ((m.heap.create k data).key m.heap.size).bind m.pos = some b := by
        simp [LinkHeap.create, hb]
      have hnew : ¬ ∃ k', q.search k' = some m.heap.size := by
        rintro ⟨k', hk'⟩
        exact H.size_notMem k' (head_mem hk')
      have B' := ((H.buckets_create k data B).push hnew hslot).congr hlive fun _ _ => ⟨rfl, rfl⟩
      refine ⟨Function.update bucket b (m.heap.size :: bucket b), ?_⟩
      rw [root_set (H.port_lt hb), ← hroot]
      exact B'

theorem addKey_behind (H : Holds m q) (hb : m.pos k = some b) (data : Option E) {node : Nat}
    (hsearch : q.search k = some node)
    : ∃ m', m.addKey k data = some (true, m') ∧ m'.hashSize = m.hashSize
        ∧ Counted m m' b 1 ∧ Holds m' (q.addKey k data) := by
  obtain ⟨port, hport, hroot⟩ := H.port_eq hb
  obtain ⟨bucket, B⟩ := H.buckets
  have hwalk := H.walk_create hb data
  rw [hroot, hsearch] at hwalk
  obtain ⟨rest, hqueue⟩ : ∃ rest, q.queue k = node :: rest := List.head?_eq_some_iff.mp hsearch
  obtain ⟨front, last, hfront⟩ := List.eq_nil_or_concat (node :: rest) |>.resolve_left (by simp)
  rw [List.concat_eq_append] at hfront
  have hchain : Chain (m.heap.create k data).sameNext (some node) (node :: rest) := by
    have h := H.same k
    rw [hsearch, hqueue] at h
    exact chain_update h (hqueue ▸ H.size_notMem k)
  have hstop : stopBefore (m.heap.create k data).sameNext (fun _ => false)
      (m.heap.create k data).size node = some last := by
    have hlen : rest.length < (m.heap.create k data).size := by
      have := H.length_queue_le (k := k)
      simp only [hqueue, List.length_cons] at this
      show rest.length < m.heap.size + 1
      omega
    rw [stopBefore_last hchain.2 (by simp) hlen]
    simp [hfront]
  have hsearch' : ∀ k', (q.addKey k data).search k' = q.search k' := by
    intro k'
    by_cases hkk : k' = k
    . subst hkk
      simp [KeyQueues.search, hqueue]
    . rw [KeyQueues.search, queue_addKey_of_ne hkk, KeyQueues.search]
  refine ⟨{ m with
    heap := (m.heap.create k data).setSameNext last (some m.heap.size)
    ports := m.ports.setIfInBounds b { port with nodeNum := port.nodeNum + 1 }
    totalNodeNum := m.totalNodeNum + 1 }, ?_, rfl, ⟨rfl, nodeNum_set hport⟩, ?_⟩
  . unfold MulSearch.addKey
    simp only [hb, hport, Option.bind_eq_bind, Option.bind_some, hwalk, hstop]
    rfl
  . apply H.linked hb
    case hports => simp
    case hother =>
      intro node' hnode'
      apply Function.update_of_ne
      rintro rfl
      exact hnode' (by simp [hqueue, hfront])
    case hsame =>
      have hnodup : ((q.addKey k data).queue k).Nodup := H.wf.addKey.nodup k
      have hqueue' : (q.addKey k data).queue k = front ++ [last, m.heap.size] := by
        simp [hqueue, hfront, H.size]
      rw [hqueue'] at hnodup
      rw [hsearch', hsearch, hqueue']
      rw [hfront] at hchain
      exact chain_concat hchain hnodup (by simp [LinkHeap.create])
    case hbuckets =>
      simp only [hsearch']
      refine ⟨bucket, ?_⟩
      rw [root_set_self (H.port_lt hb) hroot]
      exact H.buckets_create k data B

theorem addKey_eq (H : Holds m q) (hb : m.pos k = some b) (data : Option E)
    : ∃ m', m.addKey k data = some (true, m') ∧ m'.hashSize = m.hashSize
        ∧ Counted m m' b 1 ∧ Holds m' (q.addKey k data) := by
  cases hsearch : q.search k with
  | none => exact H.addKey_first hb data hsearch
  | some node => exact H.addKey_behind hb data hsearch

theorem deleteKey_none (H : Holds m q) (hb : m.pos k = some b) (hsearch : q.search k = none)
    : ∃ found m', m.deleteKey k = some (found, m') ∧ m'.hashSize = m.hashSize
        ∧ Counted m m' b (-Int32.ofNat (q.queue k).length) ∧ Holds m' (q.deleteKey k) := by
  obtain ⟨port, hport, hroot⟩ := H.port_eq hb
  obtain ⟨bucket, B⟩ := H.buckets
  have hsame : q.deleteKey k = q := by
    have : Function.update q.queue k [] = q.queue := by
      rw [← search_none.mp hsearch]
      exact Function.update_eq_self k q.queue
    unfold KeyQueues.deleteKey
    rw [this]
  rw [hsame, search_none.mp hsearch]
  cases hstart : port.root with
  | none =>
    refine ⟨false, m, ?_, rfl, counted_self, H⟩
    unfold MulSearch.deleteKey
    simp only [hb, hport, Option.bind_eq_bind, Option.bind_some, hstart]
    rfl
  | some a =>
    have hnone : ∀ node, (∃ k, q.search k = some node) → m.slot node = some b
        → hasKey m.heap k node = false := by
      intro node hnode _
      by_contra hc
      have := (H.hasKey_iff hnode).mp (by simpa using hc)
      rw [hsearch] at this
      contradiction
    obtain ⟨hfalse, last, hstop, hlast⟩ := B.stopBefore_absent (H.length_bucket_le B) hnone
      (hroot.trans hstart)
    refine ⟨true, { m with
      heap := { m.heap with sameNext := m.heap.sameNext }
      ports := m.ports.setIfInBounds b ⟨port.nodeNum - 0, port.root⟩
      totalNodeNum := m.totalNodeNum - 0 }, ?_, rfl, counted_sub hport, ?_⟩
    . unfold MulSearch.deleteKey
      simp only [hb, hport, Option.bind_eq_bind, Option.bind_some, hstart, hfalse, hstop, hlast,
        cutSame]
      rfl
    . apply H.congr
      . rfl
      . simp
      . rfl
      . exact root_set_self (H.port_lt hb) hroot

theorem search_deleteKey (H : Holds m q) {node node' : Nat} (hsearch : q.search k = some node)
    : (∃ k', (q.deleteKey k).search k' = some node')
        ↔ (∃ k', q.search k' = some node') ∧ node' ≠ node := by
  constructor
  . rintro ⟨k', hk'⟩
    have hkk : k' ≠ k := by
      rintro rfl
      simp [KeyQueues.search] at hk'
    rw [KeyQueues.search, queue_deleteKey_of_ne hkk] at hk'
    refine ⟨⟨k', hk'⟩, ?_⟩
    rintro rfl
    exact hkk (H.wf.key_unique (head_mem hsearch) (head_mem hk'))
  . rintro ⟨⟨k', hk'⟩, hne⟩
    have hkk : k' ≠ k := by
      rintro rfl
      rw [hsearch] at hk'
      exact hne (Option.some.inj hk').symm
    exact ⟨k', by rwa [KeyQueues.search, queue_deleteKey_of_ne hkk]⟩

theorem cut (H : Holds m q) {node : Nat} {next sameNext : Nat → Option Nat}
    {ports : Array SHashPort} {n : Int32} {bucket : Nat → List Nat} (hsearch : q.search k = some node)
    (hports : ports.size = m.ports.size)
    (hsame : ∀ node, sameNext node = if node ∈ q.queue k then none else m.heap.sameNext node)
    (B : Buckets next (fun b' => ports[b']?.bind SHashPort.root) m.slot
      (fun node' => (∃ k, q.search k = some node') ∧ node' ≠ node) bucket)
    : Holds { m with
        heap := { m.heap with next := next, sameNext := sameNext }
        ports := ports
        totalNodeNum := n } (q.deleteKey k) := by
  constructor
  case hashSize_pos => exact H.hashSize_pos
  case ports_size => exact hports.trans H.ports_size
  case size => exact H.size
  case key => exact H.key
  case data => exact H.data
  case wf => exact H.wf.deleteKey
  case located =>
    intro k' hk'
    apply H.located k'
    by_cases hkk : k' = k
    . subst hkk
      exact absurd queue_deleteKey_self hk'
    . rwa [queue_deleteKey_of_ne hkk] at hk'
  case same =>
    intro k'
    show Chain sameNext _ _
    by_cases hkk : k' = k
    . subst hkk
      simp [KeyQueues.search]
    . rw [KeyQueues.search, queue_deleteKey_of_ne hkk]
      apply chain_congr (H.same k')
      intro node' hnode'
      rw [hsame, if_neg fun hmem => hkk (H.wf.key_unique hmem hnode')]
  case loose =>
    intro node' hnode'
    show sameNext node' = none
    rw [hsame]
    split
    . rfl
    . next hnotin =>
      apply H.loose
      intro k'
      by_cases hkk : k' = k
      . subst hkk
        exact hnotin
      . rw [← queue_deleteKey_of_ne hkk]
        exact hnode' k'
  case buckets =>
    exact ⟨bucket, B.congr (fun _ => H.search_deleteKey hsearch) fun _ _ => ⟨rfl, rfl⟩⟩

theorem deleteKey_some (H : Holds m q) (hb : m.pos k = some b) {node : Nat}
    (hsearch : q.search k = some node)
    : ∃ found m', m.deleteKey k = some (found, m') ∧ m'.hashSize = m.hashSize
        ∧ Counted m m' b (-Int32.ofNat (q.queue k).length) ∧ Holds m' (q.deleteKey k) := by
  obtain ⟨port, hport, hroot⟩ := H.port_eq hb
  obtain ⟨bucket, B⟩ := H.buckets
  obtain ⟨hkey, -⟩ := H.search_key hsearch
  have hslot : m.slot node = some b := by simp [slot, hkey, hb]
  have hq : hasKey m.heap k node = true := (H.hasKey_iff ⟨k, hsearch⟩).mpr hsearch
  have honly : ∀ node', (∃ k, q.search k = some node') → m.slot node' = some b
      → hasKey m.heap k node' = true → node' = node := by
    intro node' hnode' _ hq'
    have := (H.hasKey_iff hnode').mp hq'
    rw [hsearch] at this
    exact (Option.some.inj this).symm
  have hchain := H.same k
  rw [hsearch] at hchain
  obtain ⟨same', hcut, hsame'⟩ := cutSame_eq hchain (H.wf.nodup k) H.length_queue_le
  rcases B.delete_cases ⟨k, hsearch⟩ hslot (H.length_bucket_le B) hq honly
    with ⟨hstart, B'⟩ | ⟨a, last, hstart, hfalse, hstop, hnext, hne, B'⟩
  . refine ⟨true, { m with
      heap := { m.heap with
        next := Function.update m.heap.next node none
        sameNext := same' }
      ports := m.ports.setIfInBounds b
        ⟨port.nodeNum - Int32.ofNat (q.queue k).length, m.heap.next node⟩
      totalNodeNum := m.totalNodeNum - Int32.ofNat (q.queue k).length }, ?_, rfl, counted_sub hport, ?_⟩
    . unfold MulSearch.deleteKey
      simp only [hb, hport, Option.bind_eq_bind, Option.bind_some, ← hroot, hstart, hq, if_true,
        LinkHeap.setNext, hcut]
      rfl
    . apply H.cut hsearch (by simp) hsame'
      rw [root_set (H.port_lt hb)]
      exact B'
  . refine ⟨true, { m with
      heap := { m.heap with
        next := Function.update (Function.update m.heap.next last (m.heap.next node)) node none
        sameNext := same' }
      ports := m.ports.setIfInBounds b ⟨port.nodeNum - Int32.ofNat (q.queue k).length, port.root⟩
      totalNodeNum := m.totalNodeNum - Int32.ofNat (q.queue k).length }, ?_, rfl, counted_sub hport, ?_⟩
    . unfold MulSearch.deleteKey
      simp only [hb, hport, Option.bind_eq_bind, Option.bind_some, ← hroot, hstart, hfalse, hstop,
        hnext, LinkHeap.setNext, hcut]
      rfl
    . apply H.cut hsearch (by simp) hsame'
      rw [root_set_self (H.port_lt hb) hroot]
      exact B'

theorem deleteKey_eq (H : Holds m q) (hb : m.pos k = some b)
    : ∃ found m', m.deleteKey k = some (found, m') ∧ m'.hashSize = m.hashSize
        ∧ Counted m m' b (-Int32.ofNat (q.queue k).length) ∧ Holds m' (q.deleteKey k) := by
  cases hsearch : q.search k with
  | none => exact H.deleteKey_none hb hsearch
  | some node => exact H.deleteKey_some hb hsearch

end Holds

theorem holds_init {hashSize : Int} {m : MulSearch E}
    (hinit : (new : MulSearch E).init hashSize = (true, m))
    : Holds m .empty := by
  unfold init at hinit
  split at hinit
  . simp at hinit
  . next hpos =>
    obtain rfl := (Prod.mk.inj hinit).2
    constructor
    case hashSize_pos => show 0 < hashSize; omega
    case ports_size => simp
    case size => rfl
    case key => rfl
    case data => rfl
    case wf => exact wf_empty
    case located => simp [KeyQueues.empty]
    case same => simp [KeyQueues.empty, KeyQueues.search]
    case loose => exact fun _ _ => rfl
    case buckets =>
      refine ⟨fun _ => [], ?_, ?_, ?_⟩
      . intro b
        show ((Array.replicate hashSize.toNat (⟨0, none⟩ : SHashPort))[b]?).bind SHashPort.root = none
        rw [Array.getElem?_replicate]
        split <;> rfl
      . simp [KeyQueues.empty, KeyQueues.search]
      . simp

end MulSearch

end WzGame
