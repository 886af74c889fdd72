import WzGame.Util.Links
import WzGame.Util.NextChain
import WzGame.Db.Cache.LruMap

/-!
This module contains the cache `DbCache` down to the links of its nodes. A reference is a number and
`none` is `null`. A result `none` of an operation is an exception that the Java code throws there,
or a loop that does not come to its end.
-/

namespace WzGame

open NextChain

structure NodeHeap (δ : Type) where
  key : Nat → Option Int
  data : Nat → Option δ
  dirty : Nat → Bool
  lru : Links Nat
  hashNext : Nat → Option Nat
  dirtyLinks : Links Nat
  size : Nat

namespace NodeHeap

variable {δ : Type}

def empty : NodeHeap δ where
  key _ := none
  data _ := none
  dirty _ := false
  lru := ⟨fun _ => none, fun _ => none⟩
  hashNext _ := none
  dirtyLinks := ⟨fun _ => none, fun _ => none⟩
  size := 0

@[simp]
def setKey (h : NodeHeap δ) (node : Nat) (key : Option Int) : NodeHeap δ :=
  { h with key := Function.update h.key node key }

@[simp]
def setData (h : NodeHeap δ) (node : Nat) (data : Option δ) : NodeHeap δ :=
  { h with data := Function.update h.data node data }

@[simp]
def setDirty (h : NodeHeap δ) (node : Nat) (dirty : Bool) : NodeHeap δ :=
  { h with dirty := Function.update h.dirty node dirty }

@[simp]
def setHashNext (h : NodeHeap δ) (node : Nat) (next : Option Nat) : NodeHeap δ :=
  { h with hashNext := Function.update h.hashNext node next }

-- `new InnerCacheNode()`
@[simp]
def create (h : NodeHeap δ) : NodeHeap δ where
  key := Function.update h.key h.size none
  data := Function.update h.data h.size none
  dirty := Function.update h.dirty h.size false
  lru := h.lru.clear h.size
  hashNext := Function.update h.hashNext h.size none
  dirtyLinks := h.dirtyLinks.clear h.size
  size := h.size + 1

@[simp]
def dlistInitHead (h : NodeHeap δ) (head : Nat) : NodeHeap δ :=
  { h with lru := h.lru.initHead head }

@[simp]
def dlistCurNull (h : NodeHeap δ) (cur : Nat) : NodeHeap δ :=
  { h with lru := h.lru.clear cur }

@[simp]
def dlistDel (h : NodeHeap δ) (cur : Nat) : NodeHeap δ :=
  { h with lru := h.lru.unlink cur }

def dlistAdd (h : NodeHeap δ) (cur tail : Nat) : Option (NodeHeap δ) := do
  let lru ← h.lru.insertAfter cur tail
  return { h with lru := lru }

@[simp]
def dirtyDel (h : NodeHeap δ) (cur : Nat) : NodeHeap δ :=
  { h with dirtyLinks := h.dirtyLinks.unlink cur }

def dirtyAdd (h : NodeHeap δ) (cur tail : Nat) : Option (NodeHeap δ) := do
  let dirtyLinks ← h.dirtyLinks.insertAfter cur tail
  return { h with dirtyLinks := dirtyLinks }

@[simp]
def initCashNode (h : NodeHeap δ) (node : Nat) : NodeHeap δ :=
  { h with
    key := Function.update h.key node none
    data := Function.update h.data node none
    dirty := Function.update h.dirty node false
    lru := h.lru.clear node
    hashNext := Function.update h.hashNext node none
    dirtyLinks := h.dirtyLinks.setNext node none }

end NodeHeap

structure DbCache (δ : Type) where
  heap : NodeHeap δ
  hashPorts : Array (Option Nat)
  lruHead : Option Nat
  lruMid : Option Nat
  dirtyHead : Option Nat
  memHead : Option Nat
  currSize : Int
  cleanSize : Int
  dirtySize : Int
  hashSize : Int
  maxSize : Int
  maxCleanSize : Int

namespace DbCache

variable {δ : Type}

-- `new DbCache()`
def new : DbCache δ where
  heap := .empty
  hashPorts := #[]
  lruHead := none
  lruMid := none
  dirtyHead := none
  memHead := none
  currSize := 0
  cleanSize := 0
  dirtySize := 0
  hashSize := 0
  maxSize := 0
  maxCleanSize := 0

def allocNodes (h : NodeHeap δ) (memHead : Option Nat) : Nat → NodeHeap δ × Option Nat
  | 0 => (h, memHead)
  | n + 1 => allocNodes (h.create.setHashNext h.size memHead) (some h.size) n

def init (c : DbCache δ) (hashSize nodeSize maxCleanSize : Int) : Option (Bool × DbCache δ) := do
  if 0 ≥ hashSize ∨ 0 ≥ nodeSize then
    return (false, c)
  else
    -- 1. init mem resource
    let (h, memHead) := allocNodes c.heap c.memHead nodeSize.toNat
    -- 3. init lru
    let lruHead := h.size
    let h := h.create
    let lruMid := h.size
    let h := h.create
    let h := h.dlistInitHead lruHead
    let h ← h.dlistAdd lruMid lruHead
    -- 4. dirty
    let dirtyHead := h.size
    let h := h.create
    let h := { h with dirtyLinks := h.dirtyLinks.initHead dirtyHead }
    let c : DbCache δ :=
      { heap := h
        hashPorts := Array.replicate hashSize.toNat none
        lruHead := some lruHead
        lruMid := some lruMid
        dirtyHead := some dirtyHead
        memHead := memHead
        currSize := 0
        cleanSize := 0
        dirtySize := 0
        hashSize := hashSize
        maxSize := nodeSize
        maxCleanSize := maxCleanSize }
    return (true, c)

def lruSortDirty (c : DbCache δ) (node : Nat) : Option (DbCache δ) := do
  let h := c.heap.dlistDel node
  let h := h.dlistCurNull node
  let head ← c.lruHead
  let tail ← h.lru.prev head
  let h ← h.dlistAdd node tail
  return { c with heap := h }

def lruSortClean (c : DbCache δ) (node : Nat) : Option (DbCache δ) := do
  let h := c.heap.dlistDel node
  let h := h.dlistCurNull node
  let mid ← c.lruMid
  let tail ← h.lru.prev mid
  let h ← h.dlistAdd node tail
  return { c with heap := h }

-- `(int) (key.longValue() % hash_size)`, as an index of `hash_ports`
def base (c : DbCache δ) (key : Int) : Option Nat :=
  if c.hashSize = 0 ∨ key.tmod c.hashSize < 0 then
    none
  else
    some (key.tmod c.hashSize).toNat

-- `key.equals(ptr.key)`
def hasKey (h : NodeHeap δ) (key : Int) (ptr : Nat) : Bool := h.key ptr = some key

def chainFuel (c : DbCache δ) : Nat := c.maxSize.toNat

def hashFind (c : DbCache δ) (key : Int) : Option (Option Nat) := do
  let base ← c.base key
  let ptr ← c.hashPorts[base]?
  walk c.heap.hashNext (hasKey c.heap key) c.chainFuel ptr

def hashAdd (c : DbCache δ) (node : Nat) : Option (DbCache δ) := do
  let key ← c.heap.key node
  let base ← c.base key
  let ptr ← c.hashPorts[base]?
  return { c with
    heap := c.heap.setHashNext node ptr
    hashPorts := c.hashPorts.setIfInBounds base (some node)
    currSize := c.currSize + 1 }

def hashDel (c : DbCache δ) (key : Int) : Option (DbCache δ) := do
  let base ← c.base key
  let ptr ← c.hashPorts[base]?
  match ptr with
  | none => return c
  | some ptr =>
    if hasKey c.heap key ptr then
      return { c with
        heap := c.heap.setHashNext ptr none
        hashPorts := c.hashPorts.setIfInBounds base (c.heap.hashNext ptr)
        currSize := c.currSize - 1 }
    else
      -- The Java loop unlinks the node it stops before and breaks.
      let ptr ← stopBefore c.heap.hashNext (hasKey c.heap key) c.chainFuel ptr
      match c.heap.hashNext ptr with
      | none => return c
      | some tmp =>
        let h := c.heap.setHashNext ptr (c.heap.hashNext tmp)
        return { c with
          heap := h.setHashNext tmp none
          currSize := c.currSize - 1 }

def malloc (c : DbCache δ) : Option (Option Nat × DbCache δ) := do
  match c.memHead, decide (c.cleanSize < c.maxCleanSize) with
  | some node, true =>
    return (some node, { c with
      heap := c.heap.initCashNode node
      memHead := c.heap.hashNext node })
  | _, _ =>
    let head ← c.lruHead
    let node := c.heap.lru.next head
    if node ≠ c.lruMid then
      let node ← node
      let key ← c.heap.key node
      let c ← c.hashDel key
      let h := c.heap.dlistDel node
      return (some node, { c with
        heap := h.initCashNode node
        cleanSize := c.cleanSize - 1 })
    else
      return (none, c)

def release (c : DbCache δ) (node : Nat) : DbCache δ :=
  let h := c.heap.initCashNode node
  { c with
    heap := h.setHashNext node c.memHead
    memHead := some node }

def occupy (c : DbCache δ) (key : Int) : Option (Bool × DbCache δ) := do
  match ← c.hashFind key with
  | some _ => return (true, c)
  | none =>
    let (node, c) ← c.malloc
    match node with
    | none => return (false, c)
    | some node =>
      let c := { c with heap := c.heap.setKey node (some key) }
      let c ← c.hashAdd node
      let c ← c.lruSortDirty node
      return (true, { c with dirtySize := c.dirtySize + 1 })

def query (c : DbCache δ) (key : Int) : Option (Option δ × DbCache δ) := do
  match ← c.hashFind key with
  | none => return (none, c)
  | some node =>
    match c.heap.data node with
    | none => return (none, c)
    | some data =>
      if c.heap.dirty node = false then
        let c ← c.lruSortClean node
        return (some data, c)
      else
        return (some data, c)

def setData (c : DbCache δ) (key : Int) (data : Option δ) : Option (Option δ × DbCache δ) := do
  match ← c.hashFind key with
  | none => return (none, c)
  | some node =>
    -- 1. buf already exist ?
    match c.heap.data node with
    | some old => return (some old, c)
    | none =>
      -- 2. set the buf and put it to LRU
      match data with
      | some data =>
        let c := { c with heap := c.heap.setData node (some data) }
        let c ← c.lruSortClean node
        return (some data, { c with
          dirtySize := c.dirtySize - 1
          cleanSize := c.cleanSize + 1 })
      | none =>
        let c ← c.hashDel key
        let c := { c with heap := c.heap.dlistDel node }
        let c := c.release node
        return (none, { c with dirtySize := c.dirtySize - 1 })

def setDirty (c : DbCache δ) (key : Int) : Option (Bool × DbCache δ) := do
  match ← c.hashFind key with
  | none => return (false, c)
  | some node =>
    -- 1. buf not exist ?
    match c.heap.data node with
    | none => return (false, c)
    | some _ =>
      -- 2. already dirty ?
      if c.heap.dirty node = true then
        return (true, c)
      else
        -- 3. set the buf and put it to LRU
        let h := c.heap.setDirty node true
        let head ← c.dirtyHead
        let tail ← h.dirtyLinks.prev head
        let h ← h.dirtyAdd node tail
        let c ← { c with heap := h }.lruSortDirty node
        return (true, { c with
          dirtySize := c.dirtySize + 1
          cleanSize := c.cleanSize - 1 })

def getNextDirtyNodeAndClean (c : DbCache δ) : Option (Option δ × DbCache δ) := do
  let head ← c.dirtyHead
  let node ← c.heap.dirtyLinks.next head
  if node = head then
    return (none, c)
  else
    -- 1. delete from the dirty list
    let h := c.heap.dirtyDel node
    let h := h.setDirty node false
    let c ← { c with heap := h }.lruSortClean node
    let c := { c with
      dirtySize := c.dirtySize - 1
      cleanSize := c.cleanSize + 1 }
    return (c.heap.data node, c)

def exec (c : DbCache δ) : CacheOp Int δ → Option (CacheOut δ × DbCache δ)
  | .occupy key => (c.occupy key).map fun (b, c) => (.bool b, c)
  | .query key => (c.query key).map fun (d, c) => (.data d, c)
  | .setData key data => (c.setData key data).map fun (d, c) => (.data d, c)
  | .setDirty key => (c.setDirty key).map fun (b, c) => (.bool b, c)
  | .getNextDirtyNodeAndClean => c.getNextDirtyNodeAndClean.map fun (d, c) => (.data d, c)

def Call (c : DbCache δ) (call : CacheOp Int δ × CacheOut δ) (c' : DbCache δ) : Prop :=
  c.exec call.1 = some (call.2, c')

end DbCache

end WzGame
