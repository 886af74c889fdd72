import WzGame.Chr.PlayerSaver

/-!
This module contains how the logic server finds the player of a user that logs in.
-/

namespace WzGame

namespace LogicHandler

structure LoginReq where
  userId : Int32
  query : QueryOutcome
  insert : InsertOutcome
  currentTimeMillis : Int64
  currentSecond : BitVec 32

structure State where
  db : Database
  counts : EntityCreator.EntityCountMap

variable [SqlServer]

/--
`actionPlayerLogin` up to `loadChar`: the id of the player that is going to be loaded, which is
`none` when there is an exception.
-/
def actionPlayerLogin (serverId : BitVec 32) (s : State) (req : LoginReq) : Option Int64 × State :=
  let userId := Value.int req.userId.toInt
  match DataQueryResult.loadSingleResult s.db "player" "user_id" userId req.query with
  | none => (none, s)
  | some none =>
    let (newChar, counts) := EntityCreator.createChar req.currentTimeMillis req.currentSecond
      serverId "user_id" req.userId s.counts
    match PlayerSaver.insertPlayer s.db newChar req.insert with
    | (db, true) => (none, ⟨db, counts⟩)
    | (db, false) => (some newChar.entityId, ⟨db, counts⟩)
  | some (some player) => (some (.ofInt (player.getLong "player_id" 0)), s)

def OnePlayerPerUser (db : Database) : Prop :=
  (db "player").Pairwise fun row row' => DBUtil.sqlEq (row.get "user_id") (row'.get "user_id") = false

def HasPlayer (db : Database) (userId : Int32) : Prop :=
  ∃ row ∈ db "player", DBUtil.sqlEq (row.get "user_id") (.int userId.toInt) = true

/--
The query of a user that has a row fails before it has read one, and the row that is inserted then
is stored.
-/
def LoginReq.Blind (s : State) (req : LoginReq) : Prop :=
  HasPlayer s.db req.userId ∧ req.query = .sqlException 0 ∧ req.insert ≠ .sqlException false

instance (s : State) (req : LoginReq) : Decidable (req.Blind s) :=
  inferInstanceAs (Decidable ((∃ row ∈ s.db "player",
    DBUtil.sqlEq (row.get "user_id") (.int req.userId.toInt) = true) ∧ _ ∧ _))

def step (serverId : BitVec 32) (s : State) (req : LoginReq) : Option State :=
  some (actionPlayerLogin serverId s req).2

end LogicHandler

end WzGame
