import WzGame.Db.Data.Module.CommonModule

/-!
This module contains the data of a character, which is made of modules.
-/

namespace WzGame

inductive DBAction where
  | all
  | player
  | hero
  | equip
  | formation
deriving DecidableEq

structure CharData [DataUtil] where
  charId : Int
  records : DBAction → List DbRecord

namespace CharData

def tables : DBAction → Option (String × List String)
  | .all => none
  | .player => some ("player", ["player_id"])
  | .hero => some ("char_hero", ["player_id", "hero_id"])
  | .equip => some ("char_equip", ["player_id", "equip_id"])
  | .formation => some ("char_formation", ["player_id"])

def entries : List DBAction := [.player, .hero, .equip, .formation]

variable [DataUtil]

def init (charId : Int) : CharData := ⟨charId, fun _ => []⟩

-- `modules.get(action)`
def modules (charData : CharData) (action : DBAction) : Option CommonModule :=
  (tables action).map fun (table, keys) =>
    { CommonModule.new charData.charId table "player_id" keys false with
      records := charData.records action }

def setRecords (charData : CharData) (action : DBAction) (records : List DbRecord) : CharData :=
  { charData with records := Function.update charData.records action records }

-- the flag says whether there was an exception
def updateModuleData (charData : CharData) (action : DBAction) (moduleData : Option ModuleData)
    : CharData × Bool :=
  match charData.modules action, moduleData with
  | none, _ => (charData, false)
  | _, none => (charData, false)
  | some mod, some moduleData =>
    let (mod, threw) := mod.update moduleData
    (charData.setRecords action mod.records, threw)

def getModuleData (charData : CharData) (action : DBAction) : Option (List MapObject) :=
  (charData.modules action).map CommonModule.getData

variable [SqlServer]

def storedRows (db : Database) (charId : Int) (action : DBAction) : List MapObject :=
  match tables action with
  | none => []
  | some (table, _) => (db table).filter fun row => DBUtil.sqlEq (row.get "player_id") (.long charId)

end CharData

end WzGame
