import WzGame.Chr.PlayerRelogin
import WzGame.Db.DataManagerData
import WzGame.Service.LogicServer

/-!
This module contains which players that are online can be saved: those whose data has not been evicted
from the cache.
-/

namespace WzGame

open Runs PlayerSaver PlayerLoader

namespace DataManager

variable [DataUtil] [SqlServer] {maxSize maxClean : Int} {t t' : Spec} {a : WzGame.Action}
  {online : Int → Prop}

structure Cached (t : Spec) (online : Int → Prop) : Prop where
  refs : Refs t
  held : ∀ k, online k → ∃ d, t.dataCache.data k = some d
  installed : ∀ (load : Nat) (task : LoadTask) d, t.shared.loads.tasks[load]? = some task
    → task.phase = .installed (some d) → t.dataCache.data task.charId = some d
  completing : ∀ c ∈ t.shared.loads.completions, ∀ d, c.charData = some d
    → t.dataCache.data c.charId = some d

def Spares (maxSize maxClean : Int) (t : Spec) (online : Int → Prop) (a : WzGame.Action) : Prop :=
  ∀ charId callBack, a = .loadChar charId callBack → t.queryCache.queue charId = []
    → t.shared.loads.completions = []
      ∧ ∀ k, online k ∨ (∃ task ∈ t.shared.loads.tasks, task.charId = k
          ∧ ∃ d, task.phase = .installed (some d))
        → ¬ t.dataCache.Evicts maxSize maxClean charId k

theorem Step.cached (hstep : Step maxSize maxClean t a t') (C : Cached t online)
    (hspares : Spares maxSize maxClean t online a)
    : Cached t' online := by
  have hinstalled : ∀ (load : Nat) (task : LoadTask) d, t.shared.loads.tasks[load]? = some task
      → task.phase = .installed (some d) → t'.dataCache.data task.charId = some d := by
    intro load task d htask hphase
    rcases hstep.data_kept (C.installed load task d htask hphase)
      with h | ⟨charId, callBack, rfl, hqueue, hevicts⟩
    . exact h
    . refine absurd hevicts ((hspares charId callBack rfl hqueue).2 task.charId (.inr ?_))
      exact ⟨task, List.mem_of_getElem? htask, rfl, d, hphase⟩
  constructor
  case refs => exact hstep.refs C.refs
  case held =>
    intro k hk
    obtain ⟨d, hd⟩ := C.held k hk
    rcases hstep.data_kept hd with h | ⟨charId, callBack, rfl, hqueue, hevicts⟩
    . exact ⟨d, h⟩
    . exact absurd hevicts ((hspares charId callBack rfl hqueue).2 k (.inl hk))
  case installed =>
    intro load task' d htask' hphase'
    rcases hstep.installed_new htask' hphase' with ⟨task, htask, hchar, hphase⟩ | ⟨-, hdata⟩
    . rw [← hchar]
      exact hinstalled load task d htask hphase
    . exact hdata d rfl
  case completing =>
    intro c' hc' d hd
    rcases hstep.completion_new hc' with ⟨c, hc, -, hchar, hdata⟩ | ⟨task, htask, hchar, hphase⟩
    . rw [← hchar]
      rcases hstep.data_kept (C.completing c hc d (hdata.trans hd))
        with h | ⟨charId, callBack, rfl, hqueue, -⟩
      . exact h
      . rw [(hspares charId callBack rfl hqueue).1] at hc
        contradiction
    . rw [← hchar]
      exact hinstalled c'.load task d htask (hphase.trans (by rw [hd]))

omit [SqlServer] in
theorem Cached.add {online' : Int → Prop} (C : Cached t online)
    (h : ∀ k, online' k → online k ∨ ∃ d, t.dataCache.data k = some d)
    : Cached t online' :=
  ⟨C.refs, fun k hk => (h k hk).elim (C.held k) id, C.installed, C.completing⟩

end DataManager

namespace LogicServer

open DataManager

section runs

variable [DataUtil] {maxSize maxClean : Int} {s s' : State}

structure Inv (maxSize maxClean : Int) (s : State) : Prop where
  cached : ∃ t, Refines maxSize maxClean s.manager t ∧ Cached t (Online s)
  characters : ∀ ch ∈ s.characters, Online s ch.entityId.toInt
  modules : ∀ call ∈ s.modules, Online s call.1.entityId.toInt

theorem Inv.accepts (I : Inv maxSize maxClean s) {ch : RyCharacter}
    (h : Online s ch.entityId.toInt)
    : Accepts s ch := by
  obtain ⟨t, ⟨hcache, -, hshared⟩, C⟩ := I.cached
  obtain ⟨d, hd⟩ := C.held _ h
  obtain ⟨dataCache, hquery⟩ := DbCache.exists_query hcache hd
  obtain ⟨task, htask, hchar, -⟩ := C.refs.cached _ _ hd
  exact ⟨d, dataCache, hquery, by rw [hshared, C.refs.charId d task htask, hchar]⟩

theorem Inv.savesAccepted (I : Inv maxSize maxClean s) : SavesAccepted s :=
  ⟨fun ch hch => I.accepts ⟨ch, hch, rfl⟩, fun call hcall => I.accepts (I.modules call hcall)⟩

omit [DataUtil] in
theorem online_addEntity {players : EntityStorage RyCharacter} {ch : RyCharacter} {k : Int}
    : (∃ ch' ∈ (players.addEntity ch).entities, ch'.entityId.toInt = k)
        ↔ (∃ ch' ∈ players.entities, ch'.entityId.toInt = k) ∨ ch.entityId.toInt = k := by
  constructor
  . rintro ⟨ch', hch', rfl⟩
    rcases KeyedList.mem_upsert.mp hch' with ⟨h, -⟩ | rfl
    . exact .inl ⟨ch', h, rfl⟩
    . exact .inr rfl
  . rintro (⟨ch', hch', rfl⟩ | rfl)
    . by_cases hsame : ch'.entityId = ch.entityId
      . exact ⟨ch, KeyedList.mem_upsert.mpr (.inr rfl), by rw [hsame]⟩
      . exact ⟨ch', KeyedList.mem_upsert.mpr (.inl ⟨hch', hsame⟩), rfl⟩
    . exact ⟨ch, KeyedList.mem_upsert.mpr (.inr rfl), rfl⟩

theorem Inv.saveAllCharacter (I : Inv maxSize maxClean s) (hstep : saveAllCharacter s = some s')
    : Inv maxSize maxClean s' := by
  unfold LogicServer.saveAllCharacter at hstep
  split at hstep
  case h_1 =>
    obtain rfl := Option.some.inj hstep
    exact ⟨I.cached, fun ch hch => ⟨ch, hch, rfl⟩, I.modules⟩
  case h_2 => contradiction

theorem Inv.saveRyCharacter (I : Inv maxSize maxClean s) {now : Int64}
    (hstep : saveRyCharacter s now = some s')
    : Inv maxSize maxClean s' := by
  unfold LogicServer.saveRyCharacter at hstep
  split at hstep
  case h_1 ch characters hcharacters _ _ =>
    obtain rfl := Option.some.inj hstep
    refine ⟨I.cached, ?_, ?_⟩
    . intro ch' hch'
      exact I.characters ch' (hcharacters ▸ List.mem_cons_of_mem ch hch')
    . intro call hcall
      have hsame : call.1 = ch := by
        simp only at hcall
        split at hcall
        . simp only [savePlayer, List.mem_cons, List.not_mem_nil, or_false] at hcall
          rcases hcall with rfl | rfl | rfl | rfl <;> rfl
        . contradiction
      rw [hsame]
      exact I.characters ch (hcharacters ▸ List.mem_cons_self)
  case h_2 => contradiction

variable [SqlServer]

theorem Inv.exists_cached {manager : DataManager (DbCache Nat) (MulSearch Nat)} {a : WzGame.Action}
    (I : Inv maxSize maxClean s) (hstep : s.manager.step a = some manager)
    (hspares : ∀ t, Refines maxSize maxClean s.manager t → Spares maxSize maxClean t (Online s) a)
    : ∃ t, Refines maxSize maxClean manager t ∧ Cached t (Online s) := by
  obtain ⟨t, hR, C⟩ := I.cached
  obtain ⟨t', hstep', hR'⟩ := simulates maxSize maxClean _ _ _ _ hR trivial hstep
  exact ⟨t', hR', hstep'.cached C (hspares t hR)⟩

theorem Inv.exists_cached_of_ne {manager : DataManager (DbCache Nat) (MulSearch Nat)}
    {a : WzGame.Action} (I : Inv maxSize maxClean s) (hstep : s.manager.step a = some manager)
    (hne : ∀ charId callBack, a ≠ .loadChar charId callBack)
    : ∃ t, Refines maxSize maxClean manager t ∧ Cached t (Online s) :=
  I.exists_cached hstep fun _ _ charId callBack heq => absurd heq (hne charId callBack)

theorem Inv.callbackReturns (I : Inv maxSize maxClean s) (hstep : callbackReturns s = some s')
    : Inv maxSize maxClean s' := by
  obtain ⟨threw, -, hstep⟩ := Option.bind_eq_some_iff.mp hstep
  obtain ⟨manager, hmanager, hstep⟩ := Option.bind_eq_some_iff.mp hstep
  obtain rfl := Option.some.inj hstep
  have hmanager : s.manager.step (.callbackReturns threw) = some manager := hmanager
  exact ⟨I.exists_cached_of_ne hmanager (by simp), I.characters, I.modules⟩

theorem Inv.updateModuleData (I : Inv maxSize maxClean s) (hstep : updateModuleData s = some s')
    : Inv maxSize maxClean s' := by
  obtain ⟨shared, hshared, hstep⟩ := Option.bind_eq_some_iff.mp hstep
  have hmanager : s.manager.step .updateModuleData = some { s.manager with shared := shared } :=
    congrArg (Option.map _) hshared
  have hcached := I.exists_cached_of_ne hmanager (by simp)
  split at hstep
  case h_1 =>
    obtain rfl := Option.some.inj hstep
    exact ⟨hcached, by simp, by simp⟩
  case h_2 =>
    obtain rfl := Option.some.inj hstep
    exact ⟨hcached, I.characters, I.modules⟩

theorem Inv.actionPlayerLogin (I : Inv maxSize maxClean s) (serverId : BitVec 32)
    (req : LogicHandler.LoginReq)
    : Inv maxSize maxClean (LogicServer.actionPlayerLogin s serverId req) := by
  obtain ⟨t, ⟨hcache, hquery, hshared⟩, C⟩ := I.cached
  refine ⟨?_, I.characters, I.modules⟩
  -- the statements only change the tables
  refine ⟨{ t with shared.db := (LogicServer.actionPlayerLogin s serverId req).manager.shared.db },
    ⟨hcache, hquery, ?_⟩, ?_⟩
  . rw [← hshared]
    rfl
  . exact ⟨⟨C.refs.cached, C.refs.saving, C.refs.queued, C.refs.charId⟩, C.held, C.installed,
      C.completing⟩

theorem Inv.loadChar (I : Inv maxSize maxClean s) {n : Nat} (hspares : SparesPlayers s (.loadChar n))
    (hstep : loadChar s n = some s')
    : Inv maxSize maxClean s' := by
  obtain ⟨playerId, hlogin, hstep⟩ := Option.bind_eq_some_iff.mp hstep
  split at hstep
  case isFalse => contradiction
  case isTrue hunlocked =>
  obtain ⟨manager, hmanager, hstep⟩ := Option.bind_eq_some_iff.mp hstep
  replace hmanager : s.manager.step (.loadChar playerId.toInt true) = some manager := hmanager
  have hcached : ∃ t, Refines maxSize maxClean manager t ∧ Cached t (Online s) := by
    refine I.exists_cached hmanager ?_
    rintro t hR charId callBack heq hqueue
    obtain ⟨rfl, rfl⟩ := WzGame.Action.loadChar.inj heq
    rw [← hR.2.2]
    refine ⟨List.isEmpty_iff.mp hunlocked, ?_⟩
    intro k hk hevicts
    refine hspares playerId hlogin ?_ k hk (DbCache.evicts_of_lruMap hR.1 hevicts)
    rw [joins_iff hR]
    exact fun hne => hne hqueue
  obtain rfl := Option.some.inj hstep
  exact ⟨hcached, I.characters, I.modules⟩

theorem Inv.actors (I : Inv maxSize maxClean s) {a : WzGame.Action} (hstep : actors s a = some s')
    : Inv maxSize maxClean s' := by
  have hmap : ∀ {a : WzGame.Action}, (∀ charId callBack, a ≠ .loadChar charId callBack)
      → ((s.manager.step a).map fun manager => { s with manager := manager }) = some s'
      → Inv maxSize maxClean s' := by
    intro a hne h
    obtain ⟨manager, hmanager, rfl⟩ := Option.map_eq_some_iff.mp h
    exact ⟨I.exists_cached_of_ne hmanager hne, I.characters, I.modules⟩
  cases a with
  | loadChar _ _ => contradiction
  | callbackReturns _ => contradiction
  | saveModule _ _ _ => contradiction
  | updateModuleData => contradiction
  | startCallbacks load =>
    unfold LogicServer.actors at hstep
    simp only at hstep
    split at hstep
    case isTrue => exact hmap (by simp) hstep
    case isFalse => contradiction
  | tick =>
    unfold LogicServer.actors at hstep
    simp only at hstep
    split at hstep
    case h_1 => exact hmap (by simp) hstep
    case h_2 => contradiction
  | _ => exact hmap (by simp) hstep

variable [Gson Int32] [Gson Int64] [Gson (Option Formation)]

theorem Inv.saveModule (I : Inv maxSize maxClean s) (hstep : saveModule s = some s')
    : Inv maxSize maxClean s' := by
  unfold LogicServer.saveModule at hstep
  split at hstep
  case h_1 => contradiction
  case h_2 ch action modules hmodules =>
  obtain ⟨manager, hmanager, hstep⟩ := Option.bind_eq_some_iff.mp hstep
  obtain rfl := Option.some.inj hstep
  have hmanager : s.manager.step
    (.saveModule ch.entityId.toInt action (some (geneModuleData ch action))) = some manager := hmanager
  refine ⟨I.exists_cached_of_ne hmanager (by simp), I.characters, ?_⟩
  exact fun call hcall => I.modules call (hmodules ▸ List.mem_cons_of_mem _ hcall)

omit [SqlServer] in
theorem Inv.onResult (I : Inv maxSize maxClean s) {serverId : BitVec 32} {now : Int64}
    {currentSecond : BitVec 32} (hstep : onResult s serverId now currentSecond = some s')
    : Inv maxSize maxClean s' := by
  unfold LogicServer.onResult at hstep
  split at hstep
  case h_2 => contradiction
  case h_1 c cs hcs hthrew =>
  split at hstep
  case isFalse => contradiction
  split at hstep
  case h_1 =>
    obtain rfl := Option.some.inj hstep
    exact ⟨I.cached, I.characters, I.modules⟩
  case h_2 charData hdata =>
  split at hstep
  case h_1 =>
    obtain rfl := Option.some.inj hstep
    exact ⟨I.cached, I.characters, I.modules⟩
  case h_2 ch hload =>
  split at hstep
  case h_1 =>
    obtain rfl := Option.some.inj hstep
    exact ⟨I.cached, I.characters, I.modules⟩
  case h_2 ch' counts hinit =>
  obtain ⟨t, hR, C⟩ := I.cached
  have hshared := hR.2.2
  -- the new character is the one of the completion, whose data is in the cache
  have hd : t.dataCache.data c.charId = some charData := by
    refine C.completing c ?_ charData hdata
    rw [← hshared, hcs]
    exact List.mem_cons_self
  have hid : ch'.entityId.toInt = c.charId := by
    obtain ⟨task, htask, hchar, -⟩ := C.refs.cached _ _ hd
    rw [(PlayerManager.checkInit_cases hinit).2.1, entityId_loadFromCharData hload, hshared,
      C.refs.charId _ task htask, hchar]
  obtain rfl := Option.some.inj hstep
  refine ⟨⟨t, hR, C.add ?_⟩, fun ch hch => online_addEntity.mpr (.inl (I.characters ch hch)),
    fun call hcall => online_addEntity.mpr (.inl (I.modules call hcall))⟩
  intro k hk
  rcases online_addEntity.mp hk with h | rfl
  . exact .inl h
  . exact .inr ⟨charData, hid ▸ hd⟩

theorem Inv.step (I : Inv maxSize maxClean s) {serverId : BitVec 32} {a : Action}
    (hspares : SparesPlayers s a) (hstep : step serverId s a = some s')
    : Inv maxSize maxClean s' := by
  cases a with
  | actionPlayerLogin req =>
    obtain rfl := Option.some.inj hstep
    exact I.actionPlayerLogin serverId req
  | loadChar n => exact I.loadChar hspares hstep
  | onResult now currentSecond => exact I.onResult hstep
  | callbackReturns => exact I.callbackReturns hstep
  | saveAllCharacter => exact I.saveAllCharacter hstep
  | saveRyCharacter now => exact I.saveRyCharacter hstep
  | saveModule => exact I.saveModule hstep
  | updateModuleData => exact I.updateModuleData hstep
  | actors a => exact I.actors hstep

/-- As long as new loads evict nobody who is online or logging in, every save is accepted. -/
theorem savesAccepted_of_run {maxNum cleanSize : Int} {db : Database}
    {manager : DataManager (DbCache Nat) (MulSearch Nat)} {counts : EntityCreator.EntityCountMap}
    {serverId : BitVec 32} {as : List Action}
    (hinit : DataManager.init maxNum cleanSize db = some (true, manager))
    (hrun : Run (stepOf (step serverId)) SparesPlayers (start manager counts) as s)
    : SavesAccepted s := by
  obtain ⟨maxSize, hR⟩ := refines_init hinit
  have hstart : Inv maxSize cleanSize (start manager counts) := by
    refine ⟨⟨_, hR, ⟨refs_initial, ?_, ?_, ?_⟩⟩, by simp [start], by simp [start]⟩
    . rintro k ⟨ch, hch, -⟩
      contradiction
    . intro load task d htask
      contradiction
    . intro c hc
      contradiction
  exact (hrun.invariant (Inv maxSize cleanSize) hstart
    fun _ _ _ I hspares hstep => I.step hspares hstep).savesAccepted

end runs

theorem exists_run [DataUtil] [SqlServer] [Gson Int32] [Gson Int64] [Gson (Option Formation)]
    {maxNum cleanSize : Int} {db : Database} {counts : EntityCreator.EntityCountMap}
    {serverId : BitVec 32} {as : List Action} {ok : State → Action → Bool} {check : State → Bool}
    (h : ((DataManager.init maxNum cleanSize db).bind fun p =>
      if p.1 then
        as.foldlM (fun s a => if ok s a then step serverId s a else none) (start p.2 counts)
      else
        none).any check = true)
    : ∃ manager s, DataManager.init maxNum cleanSize db = some (true, manager)
        ∧ as.foldlM (fun s a => if ok s a then step serverId s a else none) (start manager counts) = some s
        ∧ check s = true := by
  obtain ⟨s, hs, hcheck⟩ := (Option.any_eq_true _ _).mp h
  obtain ⟨⟨ok, manager⟩, hinit, hs⟩ := Option.bind_eq_some_iff.mp hs
  cases ok with
  | false => simp at hs
  | true => exact ⟨manager, s, hinit, hs, hcheck⟩

def twoPlayers : Database := fun table =>
  if table = "player" then
    [genePlayerData (.getDefault 0 7 "user_id" 1), genePlayerData (.getDefault 0 8 "user_id" 2)]
  else
    []

def loginPlayer (load : Nat) : List Action :=
  [.actors (.loadModule load .success), .actors (.loadModule load .success),
    .actors (.loadModule load .success), .actors (.loadModule load .success), .actors (.setData load),
    .actors (.startCallbacks load), .actors .callback, .onResult 0 0, .callbackReturns,
    .actors .deleteKey]

def bothLogIn : List Action :=
  .actionPlayerLogin ⟨1, .success, .success, 0, 0⟩ :: .loadChar 0 :: loginPlayer 0
    ++ .actionPlayerLogin ⟨2, .success, .success, 0, 0⟩ :: .loadChar 0 :: loginPlayer 1

def hasRoom [DataUtil] (s : State) : Action → Bool
  | .loadChar _ => s.manager.dataCache.victim.isNone
  | _ => true

theorem savesAccepted_of_run_bothLogIn
    : letI := CommonModule.rowDigest
      letI := CommonModule.numericServer
      letI := textGson zeroInts
      letI := textGson zeroLongs
      letI := textGson noFormations
      ∃ manager s, DataManager.init 0 2 twoPlayers = some (true, manager)
        ∧ Run (stepOf (step 1)) SparesPlayers (start manager fun _ => 0) bothLogIn s
        ∧ s.players.entities.map (fun ch => ch.entityId.toInt) = [7, 8] ∧ SavesAccepted s := by
  let _ := CommonModule.rowDigest
  let _ := CommonModule.numericServer
  let _ := textGson zeroInts
  let _ := textGson zeroLongs
  let _ := textGson noFormations
  obtain ⟨manager, s, hinit, hs, hcheck⟩ := @exists_run _ _ _ _ _ 0 2 twoPlayers (fun _ => 0) 1 bothLogIn
    hasRoom (fun s => s.players.entities.map (fun ch => ch.entityId.toInt) = [7, 8]) (by decide +kernel)
  have hrun : Run (stepOf (step 1)) SparesPlayers (start manager fun _ => 0) bothLogIn s := by
    refine (Run.of_guarded hs).weaken fun s a hroom => ?_
    cases a with
    | loadChar n =>
      have hvictim : s.manager.dataCache.victim = none := Option.isNone_iff_eq_none.mp hroom
      rintro id - - playerId - ⟨-, hevicts⟩
      exact absurd (hvictim.symm.trans hevicts) nofun
    | _ => trivial
  exact ⟨manager, s, hinit, hrun, of_decide_eq_true hcheck, savesAccepted_of_run hinit hrun⟩

theorem savesAccepted_counterexample
    : ¬ ∀ [DataUtil] [SqlServer] [Gson Int32] [Gson Int64] [Gson (Option Formation)]
        (maxNum cleanSize : Int) (db : Database) (manager : DataManager (DbCache Nat) (MulSearch Nat))
        (counts : EntityCreator.EntityCountMap) (serverId : BitVec 32) (as : List Action) (s : State),
        DataManager.init maxNum cleanSize db = some (true, manager) →
        Run (stepOf (step serverId)) anyLabel (start manager counts) as s → SavesAccepted s := by
  intro h
  let _ := CommonModule.rowDigest
  let _ := CommonModule.numericServer
  let _ := textGson zeroInts
  let _ := textGson zeroLongs
  let _ := textGson noFormations
  obtain ⟨manager, s, hinit, hs, hcheck⟩ := @exists_run _ _ _ _ _ 0 1 twoPlayers (fun _ => 0) 1
    (.actionPlayerLogin ⟨1, .success, .success, 0, 0⟩ :: .loadChar 0 :: loginPlayer 0
      ++ [.actionPlayerLogin ⟨2, .success, .success, 0, 0⟩, .loadChar 0])
    (fun _ _ => true) (fun s => s.players.entities.any fun ch =>
      (s.manager.dataCache.query ch.entityId.toInt).all fun p => p.1.isNone) (by decide +kernel)
  obtain ⟨ch, hch, hquery⟩ := List.any_eq_true.mp hcheck
  obtain ⟨d, dataCache, hd, -⟩ :=
    (h 0 1 _ manager _ 1 _ s hinit ((Run.of_guarded hs).weaken fun _ _ _ => trivial)).1 ch hch
  simp [hd] at hquery

end LogicServer

end WzGame
