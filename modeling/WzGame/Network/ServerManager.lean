import Mathlib.Data.List.Sort
import WzGame.Util.KeyedList
import WzGame.Util.MapObject

/-!
This module contains the registry of the center, which has the session of every server that it has
given an identifier.
-/

namespace WzGame

open KeyedList MapObject

inductive AppId where
  | login
  | logic
  | lobby
  | center
  | gate
  | database
  | log
  | client
deriving DecidableEq

namespace AppId

def getId : AppId → Int
  | login => 1
  | logic => 2
  | lobby => 3
  | center => 4
  | gate => 5
  | database => 6
  | log => 7
  | client => 8

def values : List AppId := [login, logic, lobby, center, gate, database, log, client]

def getByValue (value : Int) : Option AppId := values.find? fun id => id.getId = value

theorem mem_values {id : AppId} : id ∈ values := by
  cases id <;> decide

theorem getByValue_getId {id : AppId} : getByValue id.getId = some id := by
  cases id <;> decide

end AppId

structure ServerSession where
  remoteAddress : Option String
  localPort : Int32
  serverId : Int32
  appId : Option AppId
  loadFactor : Int32
deriving DecidableEq

structure Iteration where
  entries : List (Int32 × Nat) → List (Int32 × Nat)
  perm : ∀ l, (entries l).Perm l

def Iteration.insertionOrder : Iteration := ⟨fun entries => entries, fun _ => .refl _⟩

/--
The sessions are known by their numbers. A counter is known by how often it has been incremented since
it had the value 1; there is no entry for an application in the map of the counters while that is 0, and
no map of its sessions before the first one.
-/
structure ServerManager where
  idGenMap : AppId → Nat
  sessionMap : AppId → List (Int32 × Nat)

namespace ServerManager

def empty : ServerManager := ⟨fun _ => 0, fun _ => []⟩

def dynamicIdAt (n : Nat) : Int32 := .ofNat (1 + n)

def geneAppDynamicId (m : ServerManager) (id : AppId) : ServerManager × Int32 :=
  ({ m with idGenMap := Function.update m.idGenMap id (m.idGenMap id + 1) },
    dynamicIdAt (m.idGenMap id))

def putSession (m : ServerManager) (id : AppId) (dynamicId : Int32) (number : Nat) : ServerManager :=
  { m with
    sessionMap := Function.update m.sessionMap id
      (upsert Prod.fst (m.sessionMap id) (dynamicId, number)) }

def setAddress (id : AppId) (session : ServerSession) (registParam : List String)
    : Option ServerSession :=
  if id = .gate then do
    let host ← registParam[3]?
    let port ← parseInt (← registParam[4]?).toList
    some { session with localPort := .ofInt port, remoteAddress := some host }
  else
    some session

def dynamicIdFor (m : ServerManager) (centerStartTime : Int64) (id : AppId)
    (oldDynamicId oldCenterStartTime : Int) : ServerManager × Int32 :=
  if oldCenterStartTime = centerStartTime.toInt then
    (m, .ofInt oldDynamicId)
  else
    m.geneAppDynamicId id

-- there is no result after an exception, when nothing has been changed yet
def registerServer (m : ServerManager) (centerStartTime : Int64) (id : AppId) (number : Nat)
    (session : ServerSession) (registParam : List String) : Option (ServerManager × ServerSession) := do
  let oldDynamicId ← parseInt (← registParam[1]?).toList
  let oldCenterStartTime ← parseLong (← registParam[2]?).toList
  let session ← setAddress id session registParam
  let (m, dynamicId) := m.dynamicIdFor centerStartTime id oldDynamicId oldCenterStartTime
  some (m.putSession id dynamicId number, { session with serverId := dynamicId })

def dropSession (m : ServerManager) (id : AppId) (dynamicId : Int32) : ServerManager :=
  { m with
    sessionMap := Function.update m.sessionMap id
      ((m.sessionMap id).filter fun entry => entry.1 ≠ dynamicId) }

def removeServerSession (m : ServerManager) (order : Iteration) (appId : Option AppId) (number : Nat)
    : ServerManager :=
  match appId with
  | none => m
  | some id =>
    match (order.entries (m.sessionMap id)).find? (fun entry => entry.2 = number) with
    | none => m
    | some entry => m.dropSession id entry.1

def getMinLoadSession (m : ServerManager) (order : Iteration) (loadFactor : Nat → Int32)
    (appId : AppId) : Option Nat :=
  let list := m.sessionMap appId
  if list = [] then
    none
  else
    let sessionList := (order.entries list).map Prod.snd
    (sessionList.insertionSort fun e f => loadFactor e - loadFactor f ≤ 0).head?

def getServerSession (m : ServerManager) (appId : AppId) (serverId : Int32) : Option Nat :=
  (m.sessionMap appId).lookup serverId

variable {m m' : ServerManager} {order : Iteration} {id id' : AppId} {dynamicId : Int32}
  {number x : Nat} {session session' : ServerSession} {registParam : List String} {time : Int64}

theorem dynamicIdAt_inj {i j : Nat} (hi : i < 2 ^ 32) (hj : j < 2 ^ 32)
    (h : dynamicIdAt i = dynamicIdAt j) : i = j := by
  have hbits := congrArg Int32.toBitVec h
  have hnat := congrArg BitVec.toNat hbits
  simp only [dynamicIdAt, Int32.toBitVec_ofNat', BitVec.toNat_ofNat] at hnat
  omega

def WellFormed (m : ServerManager) : Prop := ∀ id, ((m.sessionMap id).map Prod.fst).Nodup

theorem getServerSession_eq_some (W : m.WellFormed)
    : m.getServerSession id dynamicId = some x ↔ (dynamicId, x) ∈ m.sessionMap id :=
  lookup_eq_some (W id)

theorem mem_of_getServerSession (h : m.getServerSession id dynamicId = some x)
    : (dynamicId, x) ∈ m.sessionMap id := by
  obtain ⟨before, after, heq, -⟩ := List.lookup_eq_some_iff.mp h
  rw [heq]
  simp

theorem mem_putSession {entry : Int32 × Nat}
    : entry ∈ (m.putSession id dynamicId number).sessionMap id'
        ↔ (entry ∈ m.sessionMap id' ∧ ¬ (id' = id ∧ entry.1 = dynamicId))
          ∨ (id' = id ∧ entry = (dynamicId, number)) := by
  unfold putSession
  by_cases h : id' = id
  . subst h
    simp [mem_upsert]
  . simp [h]

theorem WellFormed.putSession (W : m.WellFormed) : (m.putSession id dynamicId number).WellFormed := by
  intro id'
  unfold ServerManager.putSession
  by_cases h : id' = id
  . subst h
    simpa using nodup_upsert (W id')
  . simpa [h] using W id'

theorem mem_registerServer {entry : Int32 × Nat}
    (h : m.registerServer time id number session registParam = some (m', session'))
    (hentry : entry ∈ m'.sessionMap id')
    : entry ∈ m.sessionMap id' ∨ entry.2 = number := by
  obtain ⟨_, -, h⟩ := Option.bind_eq_some_iff.mp h
  obtain ⟨oldDynamicId, -, h⟩ := Option.bind_eq_some_iff.mp h
  obtain ⟨_, -, h⟩ := Option.bind_eq_some_iff.mp h
  obtain ⟨oldCenterStartTime, -, h⟩ := Option.bind_eq_some_iff.mp h
  obtain ⟨session, -, h⟩ := Option.bind_eq_some_iff.mp h
  have hput : (m.dynamicIdFor time id oldDynamicId oldCenterStartTime).1.putSession id
      (m.dynamicIdFor time id oldDynamicId oldCenterStartTime).2 number = m' :=
    congrArg Prod.fst (Option.some.inj h)
  have hsame : (m.dynamicIdFor time id oldDynamicId oldCenterStartTime).1.sessionMap
      = m.sessionMap := by
    unfold dynamicIdFor
    split
    . rfl
    . rfl
  rw [← hput, mem_putSession, hsame] at hentry
  rcases hentry with ⟨hold, -⟩ | ⟨-, rfl⟩
  . exact .inl hold
  . exact .inr rfl

theorem mem_dropSession {entry : Int32 × Nat}
    : entry ∈ (m.dropSession id dynamicId).sessionMap id'
        ↔ entry ∈ m.sessionMap id' ∧ ¬ (id' = id ∧ entry.1 = dynamicId) := by
  unfold dropSession
  by_cases h : id' = id
  . subst h
    simp
  . simp [h]

theorem WellFormed.dropSession (W : m.WellFormed) : (m.dropSession id dynamicId).WellFormed := by
  intro id'
  unfold ServerManager.dropSession
  by_cases h : id' = id
  . subst h
    simpa using (W id').sublist (List.filter_sublist.map Prod.fst)
  . simpa [h] using W id'

theorem removeServerSession_cases (m : ServerManager) (order : Iteration) (appId : Option AppId)
    (number : Nat)
    : (m.removeServerSession order appId number = m
        ∧ ∀ id, appId = some id → ∀ entry ∈ m.sessionMap id, entry.2 ≠ number)
      ∨ ∃ id dynamicId, appId = some id ∧ (dynamicId, number) ∈ m.sessionMap id
        ∧ m.removeServerSession order appId number = m.dropSession id dynamicId := by
  cases appId with
  | none => exact .inl ⟨rfl, nofun⟩
  | some id =>
    rw [removeServerSession]
    cases hfind : (order.entries (m.sessionMap id)).find? (fun entry => entry.2 = number) with
    | none =>
      refine .inl ⟨rfl, ?_⟩
      rintro _ ⟨rfl⟩ entry hentry
      have hnone := List.find?_eq_none.mp hfind entry ((order.perm _).mem_iff.mpr hentry)
      simpa using hnone
    | some entry =>
      obtain ⟨dynamicId, x⟩ := entry
      have hmem := (order.perm _).mem_iff.mp (List.mem_of_find?_eq_some hfind)
      have hnumber := List.find?_some hfind
      obtain rfl : x = number := by simpa using hnumber
      exact .inr ⟨id, dynamicId, rfl, hmem, rfl⟩

theorem idGenMap_removeServerSession {appId : Option AppId}
    : (m.removeServerSession order appId number).idGenMap = m.idGenMap := by
  rcases removeServerSession_cases m order appId number with ⟨heq, -⟩ | ⟨_, _, -, -, heq⟩
  . rw [heq]
  . rw [heq]
    rfl

theorem WellFormed.removeServerSession (W : m.WellFormed) {appId : Option AppId}
    : (m.removeServerSession order appId number).WellFormed := by
  rcases removeServerSession_cases m order appId number with ⟨heq, -⟩ | ⟨_, _, -, -, heq⟩
  . rw [heq]
    exact W
  . rw [heq]
    exact W.dropSession

theorem mem_removeServerSession_of_ne (W : m.WellFormed) {appId : Option AppId} (hne : x ≠ number)
    (hmem : (dynamicId, x) ∈ m.sessionMap id)
    : (dynamicId, x) ∈ (m.removeServerSession order appId number).sessionMap id := by
  rcases removeServerSession_cases m order appId number
    with ⟨heq, -⟩ | ⟨id', dynamicId', -, hremoved, heq⟩
  . rwa [heq]
  . rw [heq]
    refine mem_dropSession.mpr ⟨hmem, ?_⟩
    rintro ⟨rfl, rfl⟩
    have hsame := (getServerSession_eq_some W).mpr hmem
    rw [(getServerSession_eq_some W).mpr hremoved] at hsame
    exact hne (Option.some.inj hsame).symm

theorem getMinLoadSession_mem {loadFactor : Nat → Int32}
    (h : m.getMinLoadSession order loadFactor id = some x)
    : ∃ dynamicId, (dynamicId, x) ∈ m.sessionMap id := by
  simp only [getMinLoadSession] at h
  split at h
  . contradiction
  . have hmem := (List.mem_insertionSort _).mp (List.mem_of_mem_head? h)
    obtain ⟨⟨dynamicId, _⟩, hentry, rfl⟩ := List.mem_map.mp hmem
    exact ⟨dynamicId, (order.perm _).mem_iff.mp hentry⟩

end ServerManager

end WzGame
