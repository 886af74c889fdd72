import WzGame.Chr.PlayerRestores

/-!
This module contains how a player that is online levels up its heroes and its equipments, is saved
from time to time, and logs in again.
-/

namespace WzGame

open DbRecord PlayerSaver PlayerLoader

namespace HeroEntity

-- `setLevel(getLevel() + 1)`
def levelUp (entity : HeroEntity) : HeroEntity := { entity with level := entity.level + 1 }

end HeroEntity

namespace EquipEntity

-- `setLevel(getLevel() + 1)`
def levelUp (entity : EquipEntity) : EquipEntity := { entity with level := entity.level + 1 }

end EquipEntity

namespace HeroManager

def heroLevelUp (ch : RyCharacter) (heroId : Int64) : RyCharacter :=
  { ch with charHero := ch.charHero.modify heroId HeroEntity.levelUp fun _ => rfl }

end HeroManager

namespace EquipManager

def strengthenEquip (ch : RyCharacter) (equipId : Int64) : RyCharacter :=
  { ch with charEquip := ch.charEquip.modify equipId EquipEntity.levelUp fun _ => rfl }

end EquipManager

namespace LogicApp

def saveInternal : Int64 := 30 * 1000

end LogicApp

namespace PlayerManager

section defs

variable [DataUtil]

/--
`player` is the entry of the player, `charData` its data in the cache, and `counts` has the counters
of the server's entity ids.
-/
structure State where
  player : Option RyCharacter
  charData : CharData
  counts : EntityCreator.EntityCountMap
  -- The levels that have been reached so far, and whether one of them has not been saved yet.
  heroLevels : Int64 → Option Int32
  equipLevels : Int64 → Option Int32
  unsaved : Bool

def start (charData : CharData) (counts : EntityCreator.EntityCountMap) : State where
  player := none
  charData := charData
  counts := counts
  heroLevels _ := none
  equipLevels _ := none
  unsaved := false

def heroLevelUp (s : State) (heroId : Int64) : Option State := do
  let ch ← s.player
  match ch.charHero.getEntity heroId with
  | none => some s
  | some entity =>
    some { s with
      player := some (HeroManager.heroLevelUp ch heroId)
      heroLevels := Function.update s.heroLevels heroId (some entity.levelUp.level)
      unsaved := true }

def strengthenEquip (s : State) (equipId : Int64) : Option State := do
  let ch ← s.player
  match ch.charEquip.getEntity equipId with
  | none => some s
  | some entity =>
    some { s with
      player := some (EquipManager.strengthenEquip ch equipId)
      equipLevels := Function.update s.equipLevels equipId (some entity.levelUp.level)
      unsaved := true }

variable [SqlServer] [Gson Int32] [Gson Int64] [Gson (Option Formation)]

def saveAllCharacter (s : State) (currentTimeMillis : Int64) : State :=
  match s.player with
  | none => s
  | some ch =>
    if currentTimeMillis - ch.lastSaveTime ≥ LogicApp.saveInternal then
      let (charData, throws) := savePlayer ch s.charData
      { s with charData := charData, unsaved := s.unsaved && throws }
    else
      s

def save (s : State) (action : DBAction) (updatesSucceed deletesSucceed : Bool) (db : Database)
    : Option State := do
  let charData ← s.charData.exec (.save action updatesSucceed deletesSucceed db)
  return { s with charData := charData }

-- The call-back of `loadChar` with `onPlayerLoginSuccess`. An exception ends it.
def login (serverId : BitVec 32) (s : State) (currentTimeMillis : Int64) (currentSecond : BitVec 32)
    : State :=
  match loadFromCharData currentTimeMillis s.charData with
  | none => s
  | some ch =>
    match ch.checkInit currentSecond serverId s.counts with
    | (none, counts) => { s with counts := counts }
    | (some ch, counts) => { s with player := some ch, counts := counts }

inductive Action where
  | heroLevelUp (heroId : Int64)
  | strengthenEquip (equipId : Int64)
  | saveAllCharacter (currentTimeMillis : Int64)
  | save (action : DBAction) (updatesSucceed deletesSucceed : Bool) (db : Database)
  | login (currentTimeMillis : Int64) (currentSecond : BitVec 32)

def step (serverId : BitVec 32) (s : State) : Action → Option State
  | .heroLevelUp heroId => heroLevelUp s heroId
  | .strengthenEquip equipId => strengthenEquip s equipId
  | .saveAllCharacter currentTimeMillis => some (saveAllCharacter s currentTimeMillis)
  | .save action updatesSucceed deletesSucceed db => save s action updatesSucceed deletesSucceed db
  | .login currentTimeMillis currentSecond =>
    some (login serverId s currentTimeMillis currentSecond)

end defs

end PlayerManager

namespace EntityStorage

def HasLevels {T : Type} [IEntity T] (storage : EntityStorage T) (level : T → Int32)
    (levels : Int64 → Option Int32) : Prop :=
  ∀ id l, levels id = some l → ∃ t, storage.getEntity id = some t ∧ level t = l

end EntityStorage

namespace RyCharacter

structure Reflects (ch : RyCharacter) (heroLevels equipLevels : Int64 → Option Int32) : Prop where
  heroes : ch.charHero.HasLevels HeroEntity.level heroLevels
  equips : ch.charEquip.HasLevels EquipEntity.level equipLevels

/--
A record that has the key and the digest of a row of the character is not marked for deletion and has
the level of the row.
-/
structure KeepsLevels [DataUtil] [Gson Int32] (ch : RyCharacter) (charData : CharData) : Prop where
  heroes : ∀ hero ∈ ch.charHero.entities, ∀ r ∈ charData.records .hero,
    Keeps ["player_id", "hero_id"] (geneHeroData ch.entityId hero) r →
      r.stat ≠ .delete ∧ ∀ hero', heroOf r.data = some hero' → hero'.level = hero.level
  equips : ∀ equip ∈ ch.charEquip.entities, ∀ r ∈ charData.records .equip,
    Keeps ["player_id", "equip_id"] (geneEquipData ch.entityId equip) r →
      r.stat ≠ .delete ∧ (equipOf r.data).level = equip.level

end RyCharacter

namespace PlayerManager

/--
The condition of a step: the player logs in when all its levels have been saved, and whenever it is
saved, no record of other levels is kept.
-/
def Timely [DataUtil] [Gson Int32] (s : State) : Action → Prop
  | .saveAllCharacter _ => ∀ ch, s.player = some ch → ch.KeepsLevels s.charData
  | .login _ _ => s.unsaved = false
  | _ => True

end PlayerManager

end WzGame
