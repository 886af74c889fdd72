import WzGame.Util.NextChain
import Mathlib.Data.Int.Init

/-!
This module contains the hash table `MulSearch`, which keeps all values that are added under one key,
down to the links of its nodes. References and exceptions are as in `DbCache`.
-/

namespace WzGame

open NextChain

structure LinkHeap (E : Type) where
  key : Nat → Option Int
  data : Nat → Option E
  next : Nat → Option Nat
  sameNext : Nat → Option Nat
  size : Nat

namespace LinkHeap

variable {E : Type}

def empty : LinkHeap E where
  key _ := none
  data _ := none
  next _ := none
  sameNext _ := none
  size := 0

@[simp]
def create (h : LinkHeap E) (key : Int) (data : Option E) : LinkHeap E where
  key := Function.update h.key h.size (some key)
  data := Function.update h.data h.size data
  next := Function.update h.next h.size none
  sameNext := Function.update h.sameNext h.size none
  size := h.size + 1

@[simp]
def setNext (h : LinkHeap E) (node : Nat) (next : Option Nat) : LinkHeap E :=
  { h with next := Function.update h.next node next }

@[simp]
def setSameNext (h : LinkHeap E) (node : Nat) (next : Option Nat) : LinkHeap E :=
  { h with sameNext := Function.update h.sameNext node next }

end LinkHeap

structure SHashPort where
  nodeNum : Int32
  root : Option Nat

structure MulSearch (E : Type) where
  heap : LinkHeap E
  hashSize : Int
  totalNodeNum : Int32
  ports : Array SHashPort

namespace MulSearch

variable {E : Type}

-- `new MulSearch<E>()`
def new : MulSearch E where
  heap := .empty
  hashSize := 0
  totalNodeNum := 0
  ports := #[]

def init (m : MulSearch E) (hashSize : Int) : Bool × MulSearch E :=
  if 0 ≥ hashSize then
    (false, m)
  else
    (true, { m with
      hashSize := hashSize
      ports := Array.replicate hashSize.toNat ⟨0, none⟩ })

-- `(int) (key.longValue() % hash_size)`, as an index of `ports`
def pos (m : MulSearch E) (key : Int) : Option Nat :=
  if m.hashSize = 0 ∨ key.tmod m.hashSize < 0 then
    none
  else
    some (key.tmod m.hashSize).toNat

-- `key.equals(iterator.key)`
def hasKey (h : LinkHeap E) (key : Int) (iterator : Nat) : Bool := h.key iterator = some key

def addKey (m : MulSearch E) (key : Int) (data : Option E) : Option (Bool × MulSearch E) := do
  -- 1. get new node
  let addNode := m.heap.size
  let h := m.heap.create key data
  -- 2. find the root
  let pos ← m.pos key
  let port ← m.ports[pos]?
  let iterator ← walk h.next (hasKey h key) h.size port.root
  -- 3. insert
  match iterator with
  | some iterator =>
    let inside ← stopBefore h.sameNext (fun _ => false) h.size iterator
    return (true, { m with
      heap := h.setSameNext inside (some addNode)
      ports := m.ports.setIfInBounds pos { port with nodeNum := port.nodeNum + 1 }
      totalNodeNum := m.totalNodeNum + 1 })
  | none =>
    return (true, { m with
      heap := h.setNext addNode port.root
      ports := m.ports.setIfInBounds pos ⟨port.nodeNum + 1, some addNode⟩
      totalNodeNum := m.totalNodeNum + 1 })

def cutSame (sameNext : Nat → Option Nat) : Nat → Option Nat → Option ((Nat → Option Nat) × Int32)
  | _, none => some (sameNext, 0)
  | 0, some _ => none
  | fuel + 1, some inside =>
    (cutSame (Function.update sameNext inside none) fuel (sameNext inside)).map fun (same, n) =>
      (same, n + 1)

def deleteKey (m : MulSearch E) (key : Int) : Option (Bool × MulSearch E) := do
  -- 1. find
  let pos ← m.pos key
  let port ← m.ports[pos]?
  match port.root with
  | none => return (false, m)
  | some iterator =>
    let (deleteHead, h, root) ←
      if hasKey m.heap key iterator then
        some (some iterator, m.heap.setNext iterator none, m.heap.next iterator)
      else
        match stopBefore m.heap.next (hasKey m.heap key) m.heap.size iterator with
        | none => none
        | some iterator =>
          match m.heap.next iterator with
          | none => some (none, m.heap, port.root)
          | some deleteHead =>
            let h := m.heap.setNext iterator (m.heap.next deleteHead)
            some (some deleteHead, h.setNext deleteHead none, port.root)
    -- 2. delete
    let (sameNext, n) ← cutSame h.sameNext h.size deleteHead
    return (true, { m with
      heap := { h with sameNext := sameNext }
      ports := m.ports.setIfInBounds pos ⟨port.nodeNum - n, root⟩
      totalNodeNum := m.totalNodeNum - n })

def search (m : MulSearch E) (key : Int) : Option (Option Nat) := do
  let pos ← m.pos key
  let port ← m.ports[pos]?
  walk m.heap.next (hasKey m.heap key) m.heap.size port.root

end MulSearch

end WzGame
