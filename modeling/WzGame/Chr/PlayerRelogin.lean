import WzGame.Chr.PlayerManager

/-!
This module contains when a player that logs in again keeps the levels it has reached.
-/

namespace WzGame.PlayerManager

open Runs DbRecord PlayerSaver PlayerLoader

theorem level_heroOf [Gson Int32] {playerId : Int64} {hero hero' : HeroEntity}
    (h : heroOf (geneHeroData playerId hero) = some hero')
    : hero'.level = hero.level := by
  obtain ⟨awakeInfo, -, h⟩ := Option.bind_eq_some_iff.mp h
  rw [← Option.some.inj h]
  simp [geneHeroData, MapObject.getInt]

theorem hasLevels_modify {T : Type} [IEntity T] {storage : EntityStorage T} {level : T → Int32}
    {levels : Int64 → Option Int32} {id : Int64} {t : T} (f : T → T)
    (hf : ∀ t, getEntityId (f t) = getEntityId t) (h : storage.HasLevels level levels)
    (ht : storage.getEntity id = some t)
    : (storage.modify id f hf).HasLevels level (Function.update levels id (some (level (f t)))) := by
  intro id' l hl
  rw [Function.update_apply] at hl
  rw [EntityStorage.getEntity_modify]
  split at hl
  case isTrue heq =>
    obtain rfl := Option.some.inj hl
    exact ⟨f t, by simp [heq, ht], rfl⟩
  case isFalse hne =>
    obtain ⟨t', ht', hlevel⟩ := h id' l hl
    exact ⟨t', by simpa [hne] using ht', hlevel⟩

theorem checkInit_cases {ch ch' : RyCharacter} {currentSecond serverId : BitVec 32}
    {counts counts' : EntityCreator.EntityCountMap}
    (h : ch.checkInit currentSecond serverId counts = (some ch', counts'))
    : (ch.charHero.entities ≠ [] → ch' = ch) ∧ ch'.entityId = ch.entityId
        ∧ ch'.charHero.entities ≠ [] := by
  unfold RyCharacter.checkInit at h
  split at h
  case isTrue hne =>
    have hne : ch.charHero.entities ≠ [] := by simpa using hne
    obtain ⟨hch, -⟩ := Prod.mk.inj h
    obtain rfl := Option.some.inj hch
    exact ⟨fun _ => rfl, rfl, hne⟩
  case isFalse hnil =>
    have hnil : ch.charHero.entities = [] := by simpa using hnil
    refine ⟨fun hne => absurd hnil hne, ?_⟩
    simp only [List.foldl_cons, List.foldl_nil] at h
    split at h
    case h_1 => cases h
    case h_2 =>
      cases h
      exact ⟨rfl, EntityStorage.addEntity_ne_nil⟩

section saving

variable [DataUtil] [Gson Int32] [Gson Int64] [Gson (Option Formation)] {ch ch' : RyCharacter}
  {charData charData' : CharData} {now : Int64} {heroLevels equipLevels : Int64 → Option Int32}

theorem reflects_of_saved (S : charData.Sound) (hid : ch.entityId.toInt = charData.charId)
    (hkeeps : ch.KeepsLevels charData) (hsave : savePlayer ch charData = (charData', false))
    (hload : loadFromCharData now charData' = some ch') (hch : ch.Reflects heroLevels equipLevels)
    : ch'.Reflects heroLevels equipLevels
        ∧ (ch.charHero.entities ≠ [] → ch'.charHero.entities ≠ []) := by
  obtain ⟨_, hsave', hcharId, hupdate⟩ := savePlayer_eq hid
  obtain ⟨rfl, -⟩ := Prod.mk.inj (hsave.symm.trans hsave')
  have hrange : (Int64.ofInt charData'.charId).toInt = charData'.charId := by
    rw [hcharId, ← hid, Int64.ofInt_toInt]
  obtain ⟨p, name, heroes, equips, charFormation, -, -, hheroes, hequips, -, rfl⟩ :=
    (loadFromCharData_eq_some hrange).mp hload
  have hhero := fun id hero => @entities_levels _ _ _ ch.charHero _ _ HeroEntity.level _ _ _ _
    (fun hero h => @hasKeys_rows _ _ _ ch .hero _ _ rfl _ (List.mem_map_of_mem h))
    (@nodup_rows _ _ _ ch .hero _ _ rfl) (S.ids .hero _ _ rfl) (hupdate .hero _ _ rfl)
    (fun _ _ => level_heroOf) (fun _ _ _ => entityId_heroOf) hkeeps.heroes hheroes id hero
  have hequip := fun id equip => @entities_levels _ _ _ ch.charEquip _ _ EquipEntity.level _ _ _ _
    (fun equip h => @hasKeys_rows _ _ _ ch .equip _ _ rfl _ (List.mem_map_of_mem h))
    (@nodup_rows _ _ _ ch .equip _ _ rfl) (S.ids .equip _ _ rfl) (hupdate .equip _ _ rfl)
    (fun equip equip' => by simp +contextual [equipOf_geneEquipData])
    (fun _ _ _ => entityId_equipOf)
    (fun equip h r hr hkeep => by simpa using hkeeps.equips equip h r hr hkeep) hequips id equip
  refine ⟨⟨?_, ?_⟩, ?_⟩
  . intro id l hl
    obtain ⟨hero, hget, rfl⟩ := hch.heroes id l hl
    exact hhero id hero hget
  . intro id l hl
    obtain ⟨equip, hget, rfl⟩ := hch.equips id l hl
    exact hequip id equip hget
  . intro hne hnil
    obtain ⟨hero, hmem⟩ := List.exists_mem_of_ne_nil _ hne
    obtain ⟨hero', hget, -⟩ :=
      hhero hero.entityId hero (EntityStorage.getEntity_eq_some.mpr ⟨hmem, rfl⟩)
    have hmem' := (EntityStorage.getEntity_eq_some.mp hget).1
    simp only at hnil
    simp [hnil] at hmem'

end saving

section runs

variable [DataUtil]

def Reached (s : State) : Prop := ∃ id, s.heroLevels id ≠ none ∨ s.equipLevels id ≠ none

omit [DataUtil] in
theorem reflects_of_not_reached {ch : RyCharacter} {heroLevels equipLevels : Int64 → Option Int32}
    (h : ¬ ∃ id, heroLevels id ≠ none ∨ equipLevels id ≠ none)
    : ch.Reflects heroLevels equipLevels := by
  constructor
  . intro id l hl
    exact absurd ⟨id, .inl (by simp [hl])⟩ h
  . intro id l hl
    exact absurd ⟨id, .inr (by simp [hl])⟩ h

variable [Gson Int32] [Gson Int64] [Gson (Option Formation)]

structure Inv (s : State) : Prop where
  sound : s.charData.Sound
  range : (Int64.ofInt s.charData.charId).toInt = s.charData.charId
  player : ∀ ch, s.player = some ch → ch.entityId.toInt = s.charData.charId
    ∧ ch.charHero.entities ≠ [] ∧ ch.Reflects s.heroLevels s.equipLevels
  reached : Reached s → s.player ≠ none
  saved : s.unsaved = false → Reached s → ∀ now ch, loadFromCharData now s.charData = some ch →
    ch.Reflects s.heroLevels s.equipLevels ∧ ch.charHero.entities ≠ []

variable {s s' : State} {a : Action} {actions : List Action} {serverId currentSecond : BitVec 32}
  {id now : Int64}

theorem inv_start {charData : CharData} {counts : EntityCreator.EntityCountMap}
    (hloaded : charData.Loaded) (hrange : (Int64.ofInt charData.charId).toInt = charData.charId)
    : Inv (start charData counts) := by
  have hreached : ¬ Reached (start charData counts) := by
    simp [Reached, start]
  refine ⟨sound_of_loaded hloaded, hrange, ?_, ?_, ?_⟩
  . intro ch hch
    cases hch
  . intro h
    exact absurd h hreached
  . intro _ h
    exact absurd h hreached

theorem Inv.unsaved (I : Inv s) {ch : RyCharacter} {heroLevels equipLevels : Int64 → Option Int32}
    (hid : ch.entityId.toInt = s.charData.charId) (hne : ch.charHero.entities ≠ [])
    (R : ch.Reflects heroLevels equipLevels)
    : Inv
        { s with
          player := some ch
          heroLevels := heroLevels
          equipLevels := equipLevels
          unsaved := true } := by
  refine ⟨I.sound, I.range, ?_, ?_, ?_⟩
  . intro ch' hch'
    obtain rfl := Option.some.inj hch'
    exact ⟨hid, hne, R⟩
  . simp
  . intro hsaved
    cases hsaved

theorem Inv.heroLevelUp (I : Inv s) (hstep : heroLevelUp s id = some s') : Inv s' := by
  obtain ⟨ch, hch, hstep⟩ := Option.bind_eq_some_iff.mp hstep
  obtain ⟨hid, hne, R⟩ := I.player ch hch
  split at hstep
  case h_1 =>
    obtain rfl := Option.some.inj hstep
    exact I
  case h_2 entity hentity =>
    obtain rfl := Option.some.inj hstep
    have hne' : (HeroManager.heroLevelUp ch id).charHero.entities ≠ [] := by
      simpa [HeroManager.heroLevelUp, EntityStorage.modify] using hne
    exact I.unsaved hid hne' ⟨hasLevels_modify HeroEntity.levelUp (fun _ => rfl) R.heroes hentity, R.equips⟩

theorem Inv.strengthenEquip (I : Inv s) (hstep : strengthenEquip s id = some s') : Inv s' := by
  obtain ⟨ch, hch, hstep⟩ := Option.bind_eq_some_iff.mp hstep
  obtain ⟨hid, hne, R⟩ := I.player ch hch
  split at hstep
  case h_1 =>
    obtain rfl := Option.some.inj hstep
    exact I
  case h_2 entity hentity =>
    obtain rfl := Option.some.inj hstep
    exact I.unsaved hid hne ⟨R.heroes, hasLevels_modify EquipEntity.levelUp (fun _ => rfl) R.equips hentity⟩

theorem Inv.saveAllCharacter (I : Inv s) (hok : Timely s (.saveAllCharacter now))
    : Inv (saveAllCharacter s now) := by
  unfold PlayerManager.saveAllCharacter
  split
  case h_1 => exact I
  case h_2 ch hch =>
    split
    case isFalse => exact I
    case isTrue =>
      obtain ⟨hid, hne, R⟩ := I.player ch hch
      obtain ⟨charData', hsave, hcharId, -⟩ := savePlayer_eq hid
      have hsound := I.sound.savePlayer hid
      simp only [hsave] at hsound ⊢
      refine ⟨hsound.1, by rw [hcharId, I.range], ?_, I.reached, ?_⟩
      . intro ch' hch'
        rw [hcharId]
        exact I.player ch' hch'
      . intro _ _ now ch' hload
        obtain ⟨R', hne'⟩ := reflects_of_saved I.sound hid (hok ch hch) hsave hload R
        exact ⟨R', hne' hne⟩

theorem Inv.login (I : Inv s) (hok : s.unsaved = false)
    : Inv (login serverId s now currentSecond) := by
  unfold PlayerManager.login
  split
  case h_1 => exact I
  case h_2 ch hload =>
    split
    case h_1 => exact ⟨I.sound, I.range, I.player, I.reached, I.saved⟩
    case h_2 ch' counts hinit =>
      obtain ⟨hsame, hid, hne⟩ := checkInit_cases hinit
      refine ⟨I.sound, I.range, ?_, ?_, I.saved⟩
      . intro ch'' hch''
        obtain rfl := Option.some.inj hch''
        have hentity : ch.entityId = .ofInt s.charData.charId := by
          obtain ⟨p, name, heroes, equips, charFormation, -, -, -, -, -, rfl⟩ :=
            (loadFromCharData_eq_some I.range).mp hload
          rfl
        refine ⟨by rw [hid, hentity, I.range], hne, ?_⟩
        by_cases hreached : Reached s
        . obtain ⟨R, hne'⟩ := I.saved hok hreached now ch hload
          obtain rfl := hsame hne'
          exact R
        . exact reflects_of_not_reached hreached
      . simp

variable [SqlServer]

theorem Inv.save {action : DBAction} {updatesSucceed deletesSucceed : Bool} {db : Database}
    (I : Inv s) (hstep : save s action updatesSucceed deletesSucceed db = some s')
    : Inv s' := by
  obtain ⟨charData, hexec, hstep⟩ := Option.bind_eq_some_iff.mp hstep
  obtain rfl := Option.some.inj hstep
  obtain ⟨hsound, hcharId⟩ := I.sound.exec hexec
  have hload : ∀ now ch, loadFromCharData now charData = some ch →
      loadFromCharData now s.charData = some ch := by
    intro now ch h
    rw [loadFromCharData_eq_some (by rw [hcharId, I.range])] at h
    rw [loadFromCharData_eq_some I.range]
    simpa only [CharData.view_exec_save hexec, hcharId] using h
  refine ⟨hsound, by rw [hcharId, I.range], ?_, I.reached, ?_⟩
  . intro ch hch
    rw [hcharId]
    exact I.player ch hch
  . intro hsaved hreached now ch h
    exact I.saved hsaved hreached now ch (hload now ch h)

theorem Inv.step (I : Inv s) (hok : Timely s a) (hstep : step serverId s a = some s') : Inv s' := by
  cases a with
  | heroLevelUp id => exact I.heroLevelUp hstep
  | strengthenEquip id => exact I.strengthenEquip hstep
  | saveAllCharacter now =>
    obtain rfl := Option.some.inj hstep
    exact I.saveAllCharacter hok
  | save action updatesSucceed deletesSucceed db => exact I.save hstep
  | login now currentSecond =>
    obtain rfl := Option.some.inj hstep
    exact I.login hok

/--
A player that logs in only when its levels have been saved keeps them all, as long as no record of
other levels is kept when it is saved.
-/
theorem reflects_of_run {playerId : Int64} {charData : CharData}
    {counts : EntityCreator.EntityCountMap} (hid : charData.charId = playerId.toInt)
    (hloaded : charData.Loaded)
    (hrun : Run (stepOf (PlayerManager.step serverId)) Timely (start charData counts) actions s)
    : ∀ ch, s.player = some ch → ch.Reflects s.heroLevels s.equipLevels := by
  have hrange : (Int64.ofInt charData.charId).toInt = charData.charId := by
    rw [hid, Int64.ofInt_toInt]
  have I := hrun.invariant Inv (inv_start hloaded hrange) fun _ _ _ I hok hstep => I.step hok hstep
  intro ch hch
  exact (I.player ch hch).2.2

end runs

def storedData [DataUtil] [Gson Int32] [Gson Int64] [Gson (Option Formation)] (ch : RyCharacter)
    : CharData :=
  ⟨ch.entityId.toInt, fun action => (rows ch action).map ofData⟩

theorem storedData_loaded [DataUtil] [Gson Int32] [Gson Int64] [Gson (Option Formation)]
    (ch : RyCharacter)
    : (storedData ch).Loaded := by
  intro action table keys htables
  exact ⟨rows ch action, rfl, hasKeys_rows htables,
    (distinct_nodup (hasKeys_rows htables)).mpr (nodup_rows htables)⟩

def newChar : RyCharacter := RyCharacter.getDefault 0 7 "user_id" 1

theorem reflects_of_run_newChar
    : letI := CommonModule.rowDigest
      letI := CommonModule.numericServer
      letI := textGson zeroInts
      letI := textGson zeroLongs
      letI := textGson noFormations
      ∃ s, Run (stepOf (step 1)) Timely (start (storedData newChar) fun _ => 0)
          [.login 0 0, .heroLevelUp 144115188075859968, .saveAllCharacter 30000, .login 40000 0] s
        ∧ ∀ ch, s.player = some ch → ch.Reflects s.heroLevels s.equipLevels := by
  let _ := CommonModule.rowDigest
  let _ := CommonModule.numericServer
  let _ := textGson zeroInts
  let _ := textGson zeroLongs
  let _ := textGson noFormations
  let s₁ := login 1 (start (storedData newChar) fun _ => 0) 0 0
  let s₂ := (heroLevelUp s₁ 144115188075859968).getD s₁
  have hstep : heroLevelUp s₁ 144115188075859968 = some s₂ := by
    have hsome : (heroLevelUp s₁ 144115188075859968).isSome := by decide +kernel
    obtain ⟨s, hs⟩ := Option.isSome_iff_exists.mp hsome
    simp [s₂, hs]
  have hkeeps : Timely s₂ (.saveAllCharacter 30000) := by
    intro ch _
    have hheroes : s₂.charData.records .hero = [] := List.isEmpty_iff.mp (by decide +kernel)
    have hequips : s₂.charData.records .equip = [] := List.isEmpty_iff.mp (by decide +kernel)
    constructor <;> simp [hheroes, hequips]
  have hsaved : (saveAllCharacter s₂ 30000).unsaved = false := by
    decide +kernel
  have hrun : Run (stepOf (step 1)) Timely (start (storedData newChar) fun _ => 0)
      ([] ++ [.login 0 0] ++ [.heroLevelUp 144115188075859968] ++ [.saveAllCharacter 30000]
        ++ [.login 40000 0]) (login 1 (saveAllCharacter s₂ 30000) 40000 0) :=
    .next (.next (.next (.next .start rfl rfl) trivial hstep) hkeeps rfl) hsaved rfl
  have hid : (storedData newChar).charId = newChar.entityId.toInt := rfl
  exact ⟨_, hrun, reflects_of_run hid (storedData_loaded _) hrun⟩

theorem reflects_counterexample
    : ¬ ∀ [DataUtil] [SqlServer] [Gson Int32] [Gson Int64] [Gson (Option Formation)]
        (playerId : Int64) (charData : CharData) (counts : EntityCreator.EntityCountMap)
        (serverId : BitVec 32) (actions : List Action) (s : State),
        charData.charId = playerId.toInt → charData.Loaded →
        Run (stepOf (step serverId)) anyLabel (start charData counts) actions s →
        ∀ ch, s.player = some ch → ch.Reflects s.heroLevels s.equipLevels := by
  intro h
  let _ := CommonModule.rowDigest
  let _ := CommonModule.numericServer
  let _ := textGson zeroInts
  let _ := textGson zeroLongs
  let _ := textGson noFormations
  let s₁ := login 1 (start (storedData (heroChar 1 0 0)) fun _ => 0) 0 0
  let s₂ := (heroLevelUp s₁ 11).getD s₁
  let s₃ := login 1 s₂ 1000 1
  have hstep : heroLevelUp s₁ 11 = some s₂ := by
    have hsome : (heroLevelUp s₁ 11).isSome := by decide +kernel
    obtain ⟨s, hs⟩ := Option.isSome_iff_exists.mp hsome
    simp [s₂, hs]
  have hrun : Run (stepOf (step 1)) anyLabel (start (storedData (heroChar 1 0 0)) fun _ => 0)
      ([] ++ [.login 0 0] ++ [.heroLevelUp 11] ++ [.login 1000 1]) s₃ :=
    .next (.next (.next .start trivial rfl) trivial hstep) trivial rfl
  have hid : (storedData (heroChar 1 0 0)).charId = (heroChar 1 0 0).entityId.toInt := rfl
  have hreached : s₃.heroLevels 11 = some 2 := by
    decide +kernel
  have hlevel : (s₃.player.bind fun ch => (ch.charHero.getEntity 11).map HeroEntity.level) = some 1 := by
    decide +kernel
  obtain ⟨ch, hch, hlevel⟩ := Option.bind_eq_some_iff.mp hlevel
  obtain ⟨hero, hhero, hreflects⟩ :=
    (h _ _ _ _ _ _ hid (storedData_loaded _) hrun ch hch).heroes 11 2 hreached
  rw [hhero, Option.map_some, hreflects] at hlevel
  exact absurd (Option.some.inj hlevel) (by decide)

end WzGame.PlayerManager
