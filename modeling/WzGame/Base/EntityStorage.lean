import WzGame.Util.KeyedList

/-!
This module contains the storage of entities by their ids.
-/

namespace WzGame

open KeyedList

class IEntity (T : Type) where
  getEntityId : T → Int64

export IEntity (getEntityId)

structure EntityStorage (T : Type) [IEntity T] where
  entities : List T
  nodup : (entities.map getEntityId).Nodup

namespace EntityStorage

variable {T : Type} [IEntity T]

def empty : EntityStorage T := ⟨[], List.nodup_nil⟩

def addEntity (storage : EntityStorage T) (t : T) : EntityStorage T :=
  ⟨upsert getEntityId storage.entities t, nodup_upsert storage.nodup⟩

def getEntity (storage : EntityStorage T) (id : Int64) : Option T :=
  storage.entities.find? fun t => getEntityId t = id

def getAllEntities (storage : EntityStorage T) : List T := storage.entities

def modify (storage : EntityStorage T) (id : Int64) (f : T → T)
    (hf : ∀ t, getEntityId (f t) = getEntityId t) : EntityStorage T where
  entities := storage.entities.map fun t => if getEntityId t = id then f t else t
  nodup := by
    have hids : (getEntityId ∘ fun t => if getEntityId t = id then f t else t) = getEntityId := by
      funext t
      simp only [Function.comp_apply]
      split <;> simp [hf]
    rw [List.map_map, hids]
    exact storage.nodup

variable {storage : EntityStorage T} {t t' : T} {id : Int64}

theorem getEntity_eq_some
    : storage.getEntity id = some t ↔ t ∈ storage.entities ∧ getEntityId t = id := by
  constructor
  . intro h
    exact ⟨List.mem_of_find?_eq_some h, by simpa using List.find?_some h⟩
  . rintro ⟨hmem, rfl⟩
    cases hfind : storage.getEntity (getEntityId t) with
    | none => simpa using List.find?_eq_none.mp hfind t hmem
    | some t' =>
      have hid : getEntityId t' = getEntityId t := by simpa using List.find?_some hfind
      rw [List.inj_on_of_nodup_map storage.nodup (List.mem_of_find?_eq_some hfind) hmem hid]

theorem addEntity_ne_nil : (storage.addEntity t).entities ≠ [] :=
  List.ne_nil_of_mem (mem_upsert.mpr (.inr rfl))

@[simp]
theorem getEntity_empty : (empty : EntityStorage T).getEntity id = none := rfl

@[simp]
theorem getEntity_addEntity
    : (storage.addEntity t).getEntity id
        = if getEntityId t = id then some t else storage.getEntity id := by
  apply Option.ext
  intro t'
  rw [getEntity_eq_some]
  simp only [addEntity, mem_upsert]
  split
  . next h =>
    subst h
    simp only [Option.some.injEq]
    constructor
    . rintro ⟨⟨-, hne⟩ | rfl, hid⟩
      . exact absurd hid hne
      . rfl
    . rintro rfl
      exact ⟨.inr rfl, rfl⟩
  . next h =>
    rw [getEntity_eq_some]
    constructor
    . rintro ⟨⟨hmem, -⟩ | rfl, hid⟩
      . exact ⟨hmem, hid⟩
      . exact absurd hid h
    . rintro ⟨hmem, rfl⟩
      exact ⟨.inl ⟨hmem, Ne.symm h⟩, rfl⟩

@[simp]
theorem getEntity_modify {f : T → T} {hf : ∀ t, getEntityId (f t) = getEntityId t} {id' : Int64}
    : (storage.modify id f hf).getEntity id'
        = if id' = id then (storage.getEntity id).map f else storage.getEntity id' := by
  unfold modify getEntity
  rw [List.find?_map]
  have hids : ((fun t => decide (getEntityId t = id'))
      ∘ fun t => if getEntityId t = id then f t else t) = fun t => decide (getEntityId t = id') := by
    funext t
    simp only [Function.comp_apply]
    split <;> simp [hf]
  rw [hids]
  split
  case isTrue h =>
    subst h
    cases hfind : storage.entities.find? fun t => getEntityId t = id' with
    | none => rfl
    | some t =>
      have hid : getEntityId t = id' := by simpa using List.find?_some hfind
      simp [hid]
  case isFalse h =>
    cases hfind : storage.entities.find? fun t => getEntityId t = id' with
    | none => rfl
    | some t =>
      have hid : getEntityId t = id' := by simpa using List.find?_some hfind
      simp [hid, h]

theorem getEntity_foldl_addEntity {ts : List T} (hnodup : (ts.map getEntityId).Nodup)
    : (ts.foldl addEntity storage).getEntity id
        = (ts.find? fun t => getEntityId t = id).or (storage.getEntity id) := by
  induction ts generalizing storage with
  | nil => rfl
  | cons t ts ih =>
    rw [List.map_cons, List.nodup_cons] at hnodup
    rw [List.foldl_cons, ih hnodup.2, getEntity_addEntity]
    by_cases h : getEntityId t = id
    . have hnone : ts.find? (fun t => getEntityId t = id) = none := by
        apply List.find?_eq_none.mpr
        intro t' ht' hid
        have hid : getEntityId t' = id := by simpa using hid
        exact hnodup.1 (List.mem_map.mpr ⟨t', ht', hid.trans h.symm⟩)
      simp [h, hnone]
    . simp [h]

end EntityStorage

end WzGame
