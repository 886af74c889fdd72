import WzGame.Database.DBUtilLemmas
import WzGame.Db.Data.Module.CommonModuleView
import WzGame.Service.LogicHandler
import WzGame.Util.Runs

/-!
This module contains when every user keeps a single player, whatever statements fail.
-/

namespace WzGame.LogicHandler

open Runs PlayerSaver

section runs

variable [SqlServer] {serverId : BitVec 32} {s s₀ s' : State} {req : LoginReq}
  {reqs : List LoginReq}

theorem onePlayerPerUser_insert {db : Database} {row : MapObject}
    : OnePlayerPerUser (Function.update db "player" (db "player" ++ [row]))
        ↔ OnePlayerPerUser db ∧ ∀ row' ∈ db "player",
          DBUtil.sqlEq (row'.get "user_id") (row.get "user_id") = false := by
  unfold OnePlayerPerUser
  rw [Function.update_self, List.pairwise_append]
  simp

def Inserts (s : State) (req : LoginReq) : Prop :=
  DataQueryResult.load s.db "player" "user_id" (.int req.userId.toInt) req.query = some []
    ∧ req.insert ≠ .sqlException false

theorem actionPlayerLogin_cases
    : (¬ Inserts s req ∧ (actionPlayerLogin serverId s req).2.db = s.db)
      ∨ Inserts s req ∧ ∃ row, row.get "user_id" = .int req.userId.toInt
        ∧ (actionPlayerLogin serverId s req).2.db
          = Function.update s.db "player" (s.db "player" ++ [row]) := by
  unfold Inserts
  cases hload : DataQueryResult.load s.db "player" "user_id" (.int req.userId.toInt) req.query with
  | none => simp [actionPlayerLogin, DataQueryResult.loadSingleResult, hload]
  | some list =>
    cases list with
    | cons row list => simp [actionPlayerLogin, DataQueryResult.loadSingleResult, hload]
    | nil =>
      have huser : ∀ counts,
          (insertData (EntityCreator.createChar req.currentTimeMillis req.currentSecond serverId
            "user_id" req.userId counts).1).get "user_id" = .int req.userId.toInt := by
        intro counts
        simp [insertData, EntityCreator.createChar, RyCharacter.getDefault]
      simp only [actionPlayerLogin, DataQueryResult.loadSingleResult, hload]
      cases req.insert with
      | success => exact .inr ⟨⟨trivial, by simp⟩, _, huser s.counts, rfl⟩
      | sqlException stored =>
        cases stored with
        | true => exact .inr ⟨⟨trivial, by simp⟩, _, huser s.counts, rfl⟩
        | false => exact .inl ⟨by simp, rfl⟩

theorem load_eq_nil_iff (h : HasPlayer s.db req.userId)
    : DataQueryResult.load s.db "player" "user_id" (.int req.userId.toInt) req.query = some []
        ↔ req.query = .sqlException 0 := by
  obtain ⟨row, hrow, huser⟩ := h
  have hne : ((s.db "player").filter fun row =>
      DBUtil.sqlEq (row.get "user_id") (.int req.userId.toInt)) ≠ [] := by
    intro hnil
    exact List.filter_eq_nil_iff.mp hnil row hrow huser
  unfold DataQueryResult.load
  cases req.query with
  | success => simpa [DataQueryResult.execute, DataQueryResult.onResult, DataQueryResult.getData]
      using hne
  | exception => simp [DataQueryResult.execute]
  | sqlException read =>
    simp only [DataQueryResult.execute, DataQueryResult.onResult, DataQueryResult.onError,
      DataQueryResult.getData, Option.bind_eq_bind, Option.bind_some, Option.pure_def,
      Option.some.injEq, List.take_eq_nil_iff, hne, or_false, QueryOutcome.sqlException.injEq]

theorem onePlayerPerUser_step
    : OnePlayerPerUser (actionPlayerLogin serverId s req).2.db
        ↔ OnePlayerPerUser s.db ∧ ¬ req.Blind s := by
  have hblind : req.Blind s ↔ Inserts s req ∧ HasPlayer s.db req.userId := by
    constructor
    . rintro ⟨hplayer, hquery, hinsert⟩
      exact ⟨⟨(load_eq_nil_iff hplayer).mpr hquery, hinsert⟩, hplayer⟩
    . rintro ⟨⟨hload, hinsert⟩, hplayer⟩
      exact ⟨hplayer, (load_eq_nil_iff hplayer).mp hload, hinsert⟩
  rw [hblind]
  rcases @actionPlayerLogin_cases _ serverId s req with ⟨hno, hdb⟩ | ⟨hinserts, row, huser, hdb⟩
  . simp [hdb, hno]
  . rw [hdb, onePlayerPerUser_insert, huser]
    simp [hinserts, HasPlayer]

/--
In every run from a table with one player per user there is still one player per user at its end if
and only if no login of the run is blind to the player of its user.
-/
theorem onePlayerPerUser_run_iff (h₀ : OnePlayerPerUser s₀.db)
    (hrun : Run (stepOf (step serverId)) anyLabel s₀ reqs s)
    : OnePlayerPerUser s.db
        ↔ Run (stepOf (step serverId)) (fun s req => ¬ req.Blind s) s₀ reqs s := by
  constructor
  . intro h
    induction hrun with
    | start => exact .start
    | next _ _ hstep ih =>
      obtain rfl := Option.some.inj hstep
      obtain ⟨hone, hreq⟩ := onePlayerPerUser_step.mp h
      exact .next (ih hone) hreq hstep
  . intro hrun'
    refine hrun'.invariant (fun s => OnePlayerPerUser s.db) h₀ ?_
    intro s req s' hone hreq hstep
    obtain rfl := Option.some.inj hstep
    exact onePlayerPerUser_step.mpr ⟨hone, hreq⟩

end runs

def storedPlayer : MapObject := ((∅ : MapObject).put "player_id" (.long 7)).put "user_id" (.int 5)

theorem onePlayerPerUser_run_iff_twoUsers
    : letI := CommonModule.numericServer
      ∃ s₀ s, OnePlayerPerUser s₀.db
        ∧ (OnePlayerPerUser s.db ↔ Run (stepOf (step 1)) (fun s req => ¬ req.Blind s) s₀
          [⟨5, .success, .success, 0, 0⟩, ⟨6, .sqlException 0, .sqlException true, 0, 0⟩,
            ⟨6, .success, .success, 0, 0⟩] s) := by
  let _ := CommonModule.numericServer
  let s₀ : State := ⟨fun table => if table = "player" then [storedPlayer] else [], fun _ => 0⟩
  have h₀ : OnePlayerPerUser s₀.db := List.pairwise_singleton _ _
  exact ⟨s₀, _, h₀, onePlayerPerUser_run_iff h₀ (Run.of_foldlM rfl)⟩

theorem onePlayerPerUser_counterexample
    : letI := CommonModule.numericServer
      ∃ s₀ s, OnePlayerPerUser s₀.db
        ∧ Run (stepOf (step 1)) anyLabel s₀ [⟨5, .sqlException 0, .success, 0, 0⟩] s
        ∧ ¬ OnePlayerPerUser s.db := by
  let _ := CommonModule.numericServer
  let s₀ : State := ⟨fun table => if table = "player" then [storedPlayer] else [], fun _ => 0⟩
  have h₀ : OnePlayerPerUser s₀.db := List.pairwise_singleton _ _
  refine ⟨s₀, _, h₀, Run.of_foldlM rfl, ?_⟩
  intro h
  have hblind := (onePlayerPerUser_step.mp h).2
  revert hblind
  decide +kernel

end WzGame.LogicHandler
