import WzGame.Chr.PlayerRoundTrip

/-!
This module contains the runs that the data of a character goes through, and when a character that is
saved at their end is loaded as it was.
-/

namespace WzGame

open Runs DbRecord MapObject PlayerSaver PlayerLoader

namespace CharData

section defs

variable [DataUtil]

def Loaded (charData : CharData) : Prop :=
  ∀ action table keys, tables action = some (table, keys) →
    ∃ rows, charData.records action = rows.map ofData ∧ (∀ row ∈ rows, HasKeys keys row)
      ∧ Distinct keys rows

inductive Op where
  | savePlayer (ch : RyCharacter)
  | save (action : DBAction) (updatesSucceed deletesSucceed : Bool) (db : Database)

def exec [SqlServer] [Gson Int32] [Gson Int64] [Gson (Option Formation)] (charData : CharData)
    : Op → Option CharData
  | .savePlayer ch =>
    if ch.entityId.toInt = charData.charId then some (savePlayer ch charData).1 else none
  | .save action updatesSucceed deletesSucceed db => do
    let mod ← charData.modules action
    match (mod.save updatesSucceed deletesSucceed db).2 with
    | some mod => some (charData.setRecords action mod.records)
    | none => some charData

end defs

end CharData

namespace RyCharacter

structure SameProgress (ch ch' : RyCharacter) : Prop where
  resourceMap : ch'.resourceMap = ch.resourceMap
  charHero : ∀ id, ch'.charHero.getEntity id = ch.charHero.getEntity id
  charEquip : ∀ id, ch'.charEquip.getEntity id = ch.charEquip.getEntity id
  charFormation : ch'.charFormation = ch.charFormation

structure JsonRoundTrips [Gson Int32] [Gson Int64] [Gson (Option Formation)] (ch : RyCharacter)
    : Prop where
  awakeInfo : ∀ hero ∈ ch.charHero.entities, Gson.RoundTrips hero.awakeInfo
  formations : Gson.RoundTrips ch.charFormation.formations
  partners : Gson.RoundTrips ch.charFormation.partners
  battleFormation : Gson.RoundTrips ch.charFormation.battleFormation

/--
What is not saved has its initial value, and a record that has the key and the digest of a row of the
character is not marked for deletion and reads as the character is.
-/
structure Restores [DataUtil] [Gson Int32] [Gson Int64] [Gson (Option Formation)]
    (ch : RyCharacter) (charData : CharData) : Prop where
  currencies : ∀ type ∉ savedMoney, ch.resourceMap type = 0
  huashenLevels : ∀ hero ∈ ch.charHero.entities, hero.huashenLevel = 0
  player : ∀ r ∈ charData.records .player, Keeps ["player_id"] (genePlayerData ch) r →
    r.stat ≠ .delete
      ∧ (∃ name, r.data.getString "player_name" = some name)
      ∧ addResources .new r.data = ch.resourceMap
  heroes : ∀ hero ∈ ch.charHero.entities, ∀ r ∈ charData.records .hero,
    Keeps ["player_id", "hero_id"] (geneHeroData ch.entityId hero) r →
      r.stat ≠ .delete ∧ heroOf r.data = some hero
  equips : ∀ equip ∈ ch.charEquip.entities, ∀ r ∈ charData.records .equip,
    Keeps ["player_id", "equip_id"] (geneEquipData ch.entityId equip) r →
      r.stat ≠ .delete ∧ equipOf r.data = equip
  formation : ∀ r ∈ charData.records .formation, Keeps ["player_id"] (geneFormationData ch) r →
    r.stat ≠ .delete ∧ formationOf r.data = some ch.charFormation

end RyCharacter

open RyCharacter

section load

variable [DataUtil] {ch ch' : RyCharacter} {charData charData' : CharData} {now : Int64}
  {datas : List MapObject}

theorem moduleRows_eq (hid : ch.entityId.toInt = charData.charId) {action : DBAction}
    (haction : action ∈ CharData.entries)
    : moduleRows ch charData action = some (view (charData.records action)) := by
  rw [moduleRows, if_pos hid, CharData.getModuleData_eq haction]

theorem loadBaseData_eq_some (h : moduleRows ch charData .player = some datas)
    : loadBaseData ch charData = some ch' ↔ ∃ p name, datas.head? = some p
        ∧ p.getString "player_name" = some name
        ∧ { ch with
            playerName := name
            userId := p.getInt "user_id"
            resourceMap := addResources ch.resourceMap p } = ch' := by
  simp [loadBaseData, h, Option.bind_eq_some_iff]

theorem loadEquipData_eq_some (h : moduleRows ch charData .equip = some datas)
    : loadEquipData ch charData = some ch' ↔ ∃ equips, datas.mapM (some ∘ equipOf) = some equips
        ∧ { ch with charEquip := equips.foldl EntityStorage.addEntity ch.charEquip } = ch' := by
  have hmap : datas.mapM (some ∘ equipOf) = some (datas.map equipOf) := by
    rw [mapM_eq_some, List.forall₂_map_right_iff]
    exact List.forall₂_same.mpr fun _ _ => rfl
  simp [loadEquipData, h, hmap]

theorem loadHeroEntity_eq_some [Gson Int32] (h : moduleRows ch charData .hero = some datas)
    : loadHeroEntity ch charData = some ch' ↔ ∃ heroes, datas.mapM heroOf = some heroes
        ∧ { ch with charHero := heroes.foldl EntityStorage.addEntity ch.charHero } = ch' := by
  simp [loadHeroEntity, h, Option.bind_eq_some_iff]

theorem loadFormation_eq_some [Gson Int64] [Gson (Option Formation)]
    (h : moduleRows ch charData .formation = some datas)
    : loadFormation ch charData = some ch' ↔ ∃ charFormation,
        datas.head?.elim (some ch.charFormation) formationOf = some charFormation
        ∧ { ch with charFormation := charFormation } = ch' := by
  cases datas <;> simp [loadFormation, h, Option.bind_eq_some_iff]

variable [Gson Int32] [Gson Int64] [Gson (Option Formation)]

theorem loadFromCharData_eq_some (hid : (Int64.ofInt charData.charId).toInt = charData.charId)
    : loadFromCharData now charData = some ch' ↔ ∃ p name heroes equips charFormation,
        (view (charData.records .player)).head? = some p
        ∧ p.getString "player_name" = some name
        ∧ (view (charData.records .hero)).mapM heroOf = some heroes
        ∧ (view (charData.records .equip)).mapM (some ∘ equipOf) = some equips
        ∧ (view (charData.records .formation)).head?.elim (some .new) formationOf
          = some charFormation
        ∧ { RyCharacter.getEmptyChar now (.ofInt charData.charId) with
            playerName := name
            userId := p.getInt "user_id"
            resourceMap := addResources .new p
            charHero := heroes.foldl EntityStorage.addEntity .empty
            charEquip := equips.foldl EntityStorage.addEntity .empty
            charFormation := charFormation } = ch' := by
  have hrows : ∀ {ch : RyCharacter} {action}, ch.entityId = .ofInt charData.charId →
      action ∈ CharData.entries →
      moduleRows ch charData action = some (view (charData.records action)) := by
    intro ch' action hch' haction
    exact moduleRows_eq (by rw [hch', hid]) haction
  constructor
  . intro hload
    simp only [loadFromCharData, Option.bind_eq_bind, Option.bind_eq_some_iff] at hload
    obtain ⟨ch₁, hbase, ch₂, hhero, ch₃, hequip, hformation⟩ := hload
    obtain ⟨p, name, hp, hname, rfl⟩ :=
      (loadBaseData_eq_some (hrows rfl (by decide))).mp hbase
    obtain ⟨heroes, hheroes, rfl⟩ :=
      (loadHeroEntity_eq_some (hrows rfl (by decide))).mp hhero
    obtain ⟨equips, hequips, rfl⟩ :=
      (loadEquipData_eq_some (hrows rfl (by decide))).mp hequip
    obtain ⟨charFormation, hread, rfl⟩ :=
      (loadFormation_eq_some (hrows rfl (by decide))).mp hformation
    exact ⟨p, name, heroes, equips, charFormation, hp, hname, hheroes, hequips, hread, rfl⟩
  . rintro ⟨p, name, heroes, equips, charFormation, hp, hname, hheroes, hequips, hread, rfl⟩
    simp only [loadFromCharData, Option.bind_eq_bind, Option.bind_eq_some_iff]
    exact ⟨_, (loadBaseData_eq_some (hrows rfl (by decide))).mpr
        ⟨p, name, hp, hname, rfl⟩,
      _, (loadHeroEntity_eq_some (hrows rfl (by decide))).mpr ⟨heroes, hheroes, rfl⟩,
      _, (loadEquipData_eq_some (hrows rfl (by decide))).mpr ⟨equips, hequips, rfl⟩,
      (loadFormation_eq_some (hrows rfl (by decide))).mpr ⟨_, hread, rfl⟩⟩

theorem entityId_loadFromCharData (h : loadFromCharData now charData = some ch')
    : ch'.entityId.toInt = charData.charId := by
  have hid : (Int64.ofInt charData.charId).toInt = charData.charId := by
    obtain ⟨ch₁, hbase, -⟩ := Option.bind_eq_some_iff.mp h
    obtain ⟨datas, hdatas, -⟩ := Option.bind_eq_some_iff.mp hbase
    unfold moduleRows at hdatas
    split at hdatas
    case isTrue h => exact h
    case isFalse => contradiction
  obtain ⟨p, name, heroes, equips, charFormation, -, -, -, -, -, rfl⟩ :=
    (loadFromCharData_eq_some hid).mp h
  exact hid

theorem load_iff (hid : ch.entityId.toInt = charData.charId)
    : (∃ ch', loadFromCharData now charData = some ch' ∧ ch.SameProgress ch')
        ↔ (∃ p, (view (charData.records .player)).head? = some p
            ∧ (∃ name, p.getString "player_name" = some name)
            ∧ addResources .new p = ch.resourceMap)
          ∧ (∃ heroes, (view (charData.records .hero)).mapM heroOf = some heroes
            ∧ ∀ id, (heroes.foldl EntityStorage.addEntity .empty).getEntity id
              = ch.charHero.getEntity id)
          ∧ (∃ equips, (view (charData.records .equip)).mapM (some ∘ equipOf) = some equips
            ∧ ∀ id, (equips.foldl EntityStorage.addEntity .empty).getEntity id
              = ch.charEquip.getEntity id)
          ∧ (view (charData.records .formation)).head?.elim (some .new) formationOf
            = some ch.charFormation := by
  have hid : (Int64.ofInt charData.charId).toInt = charData.charId := by
    rw [← hid, Int64.ofInt_toInt]
  simp only [loadFromCharData_eq_some hid]
  constructor
  . rintro ⟨_, ⟨p, name, heroes, equips, charFormation, hp, hname, hheroes, hequips, hread, rfl⟩,
      hsame⟩
    refine ⟨⟨p, hp, ⟨name, hname⟩, hsame.resourceMap⟩, ⟨heroes, hheroes, hsame.charHero⟩,
      ⟨equips, hequips, hsame.charEquip⟩, ?_⟩
    rw [← hsame.charFormation]
    exact hread
  . rintro ⟨⟨p, hp, ⟨name, hname⟩, hresources⟩, ⟨heroes, hheroes, hhero⟩, ⟨equips, hequips, hequip⟩,
      hread⟩
    exact ⟨_, ⟨p, name, heroes, equips, ch.charFormation, hp, hname, hheroes, hequips, hread, rfl⟩,
      hresources, hhero, hequip, rfl⟩

end load

theorem entities_iff [DataUtil] {T : Type} [IEntity T] {storage : EntityStorage T} {row : T → MapObject}
    {read : MapObject → Option T} {Q : T → Prop} {records records' : List DbRecord}
    {keys : List String} (hkeys : ∀ t ∈ storage.entities, HasKeys keys (row t))
    (hnodup : ((storage.entities.map row).map (rowKey keys)).Nodup)
    (hids : (records.map (id keys)).Nodup)
    (hupdate : update records (some (storage.entities.map row)) keys false = .ok records')
    (hrow : ∀ t ∈ storage.entities, read (row t) = some t ↔ Q t)
    (hdata : ∀ x t, read x = some t → Q t)
    (hid : ∀ t x t', rowKey keys x = rowKey keys (row t) → read x = some t' →
      getEntityId t' = getEntityId t)
    : (∃ ts, (view records').mapM read = some ts
        ∧ ∀ id, (ts.foldl EntityStorage.addEntity .empty).getEntity id = storage.getEntity id)
      ↔ ∀ t ∈ storage.entities, Q t
        ∧ ∀ r ∈ records, Keeps keys (row t) r → r.stat ≠ .delete ∧ read r.data = some t := by
  obtain ⟨hids', hmem⟩ := mem_view_update (by simpa using hkeys) hnodup hids hupdate
  have hshown : ∀ x, x ∈ view records' ↔ ∃ t ∈ storage.entities, shown keys records (row t) = some x := by
    simpa using hmem
  rw [mapM_shown_iff (nodup_view hids') hshown]
  . apply forall₂_congr
    intro t ht
    exact shown_iff (hkeys t ht) hids (hrow t ht) fun x => hdata x t
  . intro t ht x t' hx hread
    exact hid t x t' (rowKey_shown (hkeys t ht) hx) hread

theorem entities_levels [DataUtil] {T : Type} [IEntity T] {storage : EntityStorage T}
    {row : T → MapObject} {read : MapObject → Option T} {level : T → Int32}
    {records records' : List DbRecord} {keys : List String} {ts : List T}
    (hkeys : ∀ t ∈ storage.entities, HasKeys keys (row t))
    (hnodup : ((storage.entities.map row).map (rowKey keys)).Nodup)
    (hids : (records.map (id keys)).Nodup)
    (hupdate : update records (some (storage.entities.map row)) keys false = .ok records')
    (hrow : ∀ t t', read (row t) = some t' → level t' = level t)
    (hid : ∀ t x t', rowKey keys x = rowKey keys (row t) → read x = some t' →
      getEntityId t' = getEntityId t)
    (hkept : ∀ t ∈ storage.entities, ∀ r ∈ records, Keeps keys (row t) r →
      r.stat ≠ .delete ∧ ∀ t', read r.data = some t' → level t' = level t)
    (hread : (view records').mapM read = some ts) {i : Int64} {t : T}
    (hget : storage.getEntity i = some t)
    : ∃ t', (ts.foldl EntityStorage.addEntity .empty).getEntity i = some t' ∧ level t' = level t := by
  obtain ⟨ht, rfl⟩ := EntityStorage.getEntity_eq_some.mp hget
  obtain ⟨hids', hmem⟩ := mem_view_update (by simpa using hkeys) hnodup hids hupdate
  obtain ⟨x, hx, hlevel⟩ := (shown_iff (P := fun x => ∀ t', read x = some t' → level t' = level t)
    (Q := True) (hkeys t ht) hids (by simpa using hrow t) (by simp)).mpr ⟨trivial, hkept t ht⟩
  obtain ⟨t', hread', hget'⟩ := getEntity_shown (nodup_view hids') (by simpa using hmem)
    (fun t ht x t' hx => hid t x t' (rowKey_shown (hkeys t ht) hx)) hread ht hx
  exact ⟨t', hget', hlevel t' hread'⟩

section restore

variable [DataUtil] [Gson Int32] [Gson Int64] [Gson (Option Formation)] {ch : RyCharacter}
  {charData charData' : CharData} {now : Int64}

structure CharData.Sound (charData : CharData) : Prop where
  ids : ∀ action table keys, CharData.tables action = some (table, keys) →
    ((charData.records action).map (id keys)).Nodup
  formation : ∀ r ∈ charData.records .formation,
    id ["player_id"] r = [(Value.long charData.charId).keyValue] → r.stat ≠ .delete

theorem formation_iff (S : charData.Sound) (hid : ch.entityId.toInt = charData.charId)
    (hjson : ch.JsonRoundTrips)
    (hupdate : update (charData.records .formation) (some [geneFormationData ch]) ["player_id"] false
      = .ok (charData'.records .formation))
    : (view (charData'.records .formation)).head?.elim (some .new) formationOf
          = some ch.charFormation
        ↔ ∀ r ∈ charData.records .formation, Keeps ["player_id"] (geneFormationData ch) r →
          r.stat ≠ .delete ∧ formationOf r.data = some ch.charFormation := by
  have hrow := @hasKeys_rows _ _ _ ch .formation _ _ rfl (geneFormationData ch) (by simp [rows])
  have hids := S.ids .formation _ _ rfl
  have hshown : shown ["player_id"] (charData.records .formation) (geneFormationData ch) ≠ none := by
    intro hnone
    unfold shown at hnone
    split at hnone
    . contradiction
    . next r hfind =>
      have hkeeps : Keeps ["player_id"] (geneFormationData ch) r := by
        simpa using List.find?_some hfind
      have hkey := ((keeps_iff hrow).mp hkeeps).1
      rw [rowKey_geneFormationData, hid] at hkey
      simp [S.formation r (List.mem_of_find?_eq_some hfind) hkey] at hnone
  obtain ⟨x, hx⟩ := Option.ne_none_iff_exists'.mp hshown
  have hread := formationOf_geneFormationData hjson.formations hjson.partners hjson.battleFormation
  have hiff := shown_iff (P := fun x => formationOf x = some ch.charFormation) (Q := True) hrow hids
    (by simp [hread]) (by simp)
  rw [head?_view hrow hids hupdate, hx]
  simpa [hx] using hiff

theorem restore_iff (S : charData.Sound) (hid : ch.entityId.toInt = charData.charId)
    (hjson : ch.JsonRoundTrips) (hsave : savePlayer ch charData = (charData', false))
    : (∃ ch', loadFromCharData now charData' = some ch' ∧ ch.SameProgress ch')
        ↔ ch.Restores charData := by
  obtain ⟨_, hsave', hcharId, hupdate⟩ := savePlayer_eq hid
  obtain ⟨rfl, -⟩ := Prod.mk.inj (hsave.symm.trans hsave')
  rw [load_iff (hid.trans hcharId.symm)]
  have hplayer : (∃ p, (view (charData'.records .player)).head? = some p
        ∧ (∃ name, p.getString "player_name" = some name)
        ∧ addResources .new p = ch.resourceMap)
      ↔ (∀ type ∉ savedMoney, ch.resourceMap type = 0)
        ∧ ∀ r ∈ charData.records .player, Keeps ["player_id"] (genePlayerData ch) r →
          r.stat ≠ .delete ∧ (∃ name, r.data.getString "player_name" = some name)
            ∧ addResources .new r.data = ch.resourceMap := by
    have hrow := @hasKeys_rows _ _ _ ch .player _ _ rfl (genePlayerData ch) (by simp [rows])
    rw [head?_view hrow (S.ids .player _ _ rfl) (hupdate .player _ _ rfl)]
    apply shown_iff hrow (S.ids .player _ _ rfl)
    . rw [addResources_genePlayerData]
      simp [getString_genePlayerData]
    . rintro p ⟨-, hp⟩ type htype
      rw [← hp, addResources_eq_zero htype]
  have hhero := entities_iff
    (fun hero h => @hasKeys_rows _ _ _ ch .hero _ _ rfl _ (List.mem_map_of_mem h))
    (@nodup_rows _ _ _ ch .hero _ _ rfl) (S.ids .hero _ _ rfl) (hupdate .hero _ _ rfl)
    (fun hero h => heroOf_eq_some (hjson.awakeInfo hero h)) (fun _ _ => huashenLevel_heroOf)
    (fun _ _ _ => entityId_heroOf)
  have hequip := entities_iff (Q := fun _ => True)
    (fun equip h => @hasKeys_rows _ _ _ ch .equip _ _ rfl _ (List.mem_map_of_mem h))
    (@nodup_rows _ _ _ ch .equip _ _ rfl) (S.ids .equip _ _ rfl) (hupdate .equip _ _ rfl)
    (fun equip _ => by simp [equipOf_geneEquipData]) (fun _ _ _ => trivial)
    (fun _ _ _ => entityId_equipOf)
  rw [hplayer, hhero, hequip, formation_iff S hid hjson (hupdate .formation _ _ rfl)]
  constructor
  . rintro ⟨⟨hcurrencies, hplayer⟩, hhero, hequip, hformation⟩
    exact ⟨hcurrencies, fun hero h => (hhero hero h).1, hplayer, fun hero h => (hhero hero h).2,
      fun equip h r hr hkeeps => by simpa using (hequip equip h).2 r hr hkeeps, hformation⟩
  . intro R
    exact ⟨⟨R.currencies, R.player⟩, fun hero h => ⟨R.huashenLevels hero h, R.heroes hero h⟩,
      fun equip h => ⟨trivial, fun r hr hkeeps => by simpa using R.equips equip h r hr hkeeps⟩,
      R.formation⟩

end restore

/-! ### Runs -/

section runs

variable [DataUtil] [SqlServer] [Gson Int32] [Gson Int64] [Gson (Option Formation)]
  {ch : RyCharacter} {charData₀ charData charData' : CharData} {op : CharData.Op}
  {ops : List CharData.Op}

omit [SqlServer] [Gson Int32] [Gson Int64] [Gson (Option Formation)] in
theorem sound_of_loaded (h : charData.Loaded) : charData.Sound := by
  constructor
  . intro action table keys htables
    obtain ⟨rows, hrecords, hkeys, hdistinct⟩ := h action table keys htables
    rw [hrecords, ids_ofData]
    exact (distinct_nodup hkeys).mp hdistinct
  . intro r hr _
    obtain ⟨rows, hrecords, -⟩ := h .formation _ _ rfl
    rw [hrecords] at hr
    obtain ⟨row, -, rfl⟩ := List.mem_map.mp hr
    simp [ofData]

omit [SqlServer] in
theorem CharData.Sound.savePlayer (S : charData.Sound) (hid : ch.entityId.toInt = charData.charId)
    : (PlayerSaver.savePlayer ch charData).1.Sound
        ∧ (PlayerSaver.savePlayer ch charData).1.charId = charData.charId := by
  obtain ⟨charData', hsave, hcharId, hupdate⟩ := savePlayer_eq hid
  rw [hsave]
  refine ⟨⟨?_, ?_⟩, hcharId⟩
  . intro action table keys htables
    exact (mem_view_update (hasKeys_rows htables) (nodup_rows htables)
      (S.ids action table keys htables) (hupdate action table keys htables)).1
  . have hkey : rowKey ["player_id"] (geneFormationData ch)
        = [(Value.long charData.charId).keyValue] := by
      rw [rowKey_geneFormationData, hid]
    have hstat := @stat_update _ ["player_id"] _ _ _ (geneFormationData ch)
      (@hasKeys_rows _ _ _ ch .formation _ _ rfl) (nodup_rows rfl) (by simp [rows])
      (hkey ▸ S.formation) (hupdate .formation _ _ rfl)
    rwa [hkey, ← hcharId] at hstat

omit [Gson Int32] [Gson Int64] [Gson (Option Formation)] in
theorem CharData.save_cases {action : DBAction} {updatesSucceed deletesSucceed : Bool}
    {db : Database} {mod : CommonModule} (hmod : charData.modules action = some mod)
    (h : (match (mod.save updatesSucceed deletesSucceed db).2 with
      | some mod => some (charData.setRecords action mod.records)
      | none => some charData) = some charData')
    : charData' = charData
        ∨ charData' = charData.setRecords action (DbRecord.saved (charData.records action)) := by
  obtain ⟨table, keys, htables, rfl⟩ := CharData.exists_tables hmod
  split at h
  case h_2 => exact .inl (Option.some.inj h).symm
  next mod' hsave =>
  unfold CommonModule.save at hsave
  split at hsave
  . contradiction
  . next hrecords =>
    obtain rfl := Option.some.inj hsave
    obtain rfl := Option.some.inj h
    exact .inr (congrArg _ (CommonModule.save_records hrecords))

theorem CharData.Sound.exec (S : charData.Sound) (h : charData.exec op = some charData')
    : charData'.Sound ∧ charData'.charId = charData.charId := by
  cases op with
  | savePlayer ch =>
    simp only [CharData.exec, Option.ite_none_right_eq_some, Option.some.injEq] at h
    obtain ⟨hid, rfl⟩ := h
    exact S.savePlayer hid
  | save action updatesSucceed deletesSucceed db =>
    obtain ⟨mod, hmod, h⟩ := Option.bind_eq_some_iff.mp h
    rcases CharData.save_cases hmod h with rfl | rfl
    . exact ⟨S, rfl⟩
    refine ⟨⟨?_, ?_⟩, rfl⟩
    . intro action' table' keys' htables'
      rw [CharData.records_setRecords]
      split
      . next haction =>
        subst haction
        have hsub := (List.filter_sublist (p := fun r : DbRecord => r.stat ≠ .delete)
          (l := charData.records action')).map (id keys')
        rw [DbRecord.saved, List.map_map]
        exact (S.ids action' table' keys' htables').sublist hsub
      . exact S.ids action' table' keys' htables'
    . intro r hr
      rw [CharData.records_setRecords] at hr
      split at hr
      . obtain ⟨r₀, -, -, rfl⟩ := mem_saved.mp hr
        simp
      . exact S.formation r hr

theorem CharData.view_exec_save {action action' : DBAction} {updatesSucceed deletesSucceed : Bool}
    {db : Database} (h : charData.exec (.save action updatesSucceed deletesSucceed db) = some charData')
    : view (charData'.records action') = view (charData.records action') := by
  obtain ⟨mod, hmod, h⟩ := Option.bind_eq_some_iff.mp h
  rcases CharData.save_cases hmod h with rfl | rfl
  . rfl
  . rw [CharData.records_setRecords]
    split
    case isTrue haction => rw [haction, view_saved]
    case isFalse => rfl

theorem sound_of_run (hloaded : charData₀.Loaded)
    (hrun : Run (stepOf CharData.exec) anyLabel charData₀ ops charData)
    : charData.Sound :=
  hrun.invariant CharData.Sound (sound_of_loaded hloaded) fun _ _ _ S _ hstep => (S.exec hstep).1

/--
After any run, loading what was saved gives the character back exactly when it has nothing that is
not saved, and no record is kept that is marked for deletion or reads as something else.
-/
theorem savePlayer_restores_iff (hloaded : charData₀.Loaded)
    (hrun : Run (stepOf CharData.exec) anyLabel charData₀ ops charData)
    (hid : ch.entityId.toInt = charData.charId) (hjson : ch.JsonRoundTrips) (now : Int64)
    : ∃ charData', savePlayer ch charData = (charData', false)
        ∧ ((∃ ch', loadFromCharData now charData' = some ch' ∧ ch.SameProgress ch')
          ↔ ch.Restores charData) := by
  obtain ⟨charData', hsave, -⟩ := savePlayer_eq hid
  exact ⟨charData', hsave, restore_iff (sound_of_run hloaded hrun) hid hjson hsave⟩

end runs

@[reducible]
def textGson {α : Type} [DecidableEq α] (texts : List (Option (List α) × String)) : Gson α where
  toJson array := ((texts.find? (·.1 = array)).map (·.2)).getD "null"
  parse json := (texts.find? (·.2 = json)).map (·.1)

def zeroInts : List (Option (List Int32) × String) := [(some [0, 0, 0, 0], "[0,0,0,0]")]

def zeroLongs : List (Option (List Int64) × String) :=
  [(some [0, 0, 0, 0, 0, 0, 0, 0], "[0,0,0,0,0,0,0,0]"), (some [0, 0, 0, 0, 0, 0], "[0,0,0,0,0,0]")]

def noFormations : List (Option (List (Option Formation)) × String) :=
  [(some [none, none, none, none, none, none], "[null,null,null,null,null,null]")]

def heroChar (level huashenLevel : Int32) (zhangong : Int64) : RyCharacter :=
  { RyCharacter.getDefault 0 7 "user_id" 1 with
    resourceMap := fun type =>
      match type with
      | .silver => 10000
      | .zhangong => zhangong
      | _ => 0
    charHero := EntityStorage.empty.addEntity
      { HeroEntity.createHeroEntity 11 100001 with
        level := level
        huashenLevel := huashenLevel }
    charEquip := EntityStorage.empty.addEntity (EquipEntity.createEquip 12 200001) }

theorem heroChar_jsonRoundTrips (level huashenLevel : Int32) (zhangong : Int64)
    : letI := textGson zeroInts
      letI := textGson zeroLongs
      letI := textGson noFormations
      (heroChar level huashenLevel zhangong).JsonRoundTrips := by
  let _ := textGson zeroInts
  let _ := textGson zeroLongs
  let _ := textGson noFormations
  refine ⟨?_, rfl, rfl, rfl⟩
  intro hero hhero
  obtain rfl := List.mem_singleton.mp hhero
  rfl

theorem init_loaded [DataUtil] (charId : Int) : (CharData.init charId).Loaded := by
  intro action table keys _
  exact ⟨[], by simp [CharData.init], by simp, List.Pairwise.nil⟩

theorem savePlayer_restores_counterexample
    : ¬ ∀ [DataUtil] [SqlServer] [Gson Int32] [Gson Int64] [Gson (Option Formation)]
        (charData₀ charData charData' : CharData) (ops : List CharData.Op) (ch : RyCharacter)
        (now : Int64), charData₀.Loaded → Run (stepOf CharData.exec) anyLabel charData₀ ops charData →
          ch.entityId.toInt = charData.charId → ch.JsonRoundTrips →
          savePlayer ch charData = (charData', false) →
          ∃ ch', loadFromCharData now charData' = some ch' ∧ ch.SameProgress ch' := by
  intro h
  let _ := CommonModule.rowDigest
  let _ := CommonModule.numericServer
  let _ := textGson zeroInts
  let _ := textGson zeroLongs
  let _ := textGson noFormations
  have hid : (heroChar 2 1 5).entityId.toInt = (CharData.init 7).charId := by decide
  obtain ⟨charData', hsave, -⟩ := savePlayer_eq hid
  have hload := h (CharData.init 7) (CharData.init 7) charData' [] (heroChar 2 1 5) 0
    (init_loaded 7) .start hid (heroChar_jsonRoundTrips 2 1 5) hsave
  have hrestores := (restore_iff (sound_of_loaded (init_loaded 7)) hid
    (heroChar_jsonRoundTrips 2 1 5) hsave).mp hload
  have hzhangong := hrestores.currencies .zhangong (by decide)
  revert hzhangong
  decide

theorem savePlayer_restores_iff_heroChar
    : letI := CommonModule.rowDigest
      letI := CommonModule.numericServer
      letI := textGson zeroInts
      letI := textGson zeroLongs
      letI := textGson noFormations
      ∃ charData',
        savePlayer (heroChar 3 0 0) (savePlayer (heroChar 2 0 0) (CharData.init 7)).1
          = (charData', false)
        ∧ ((∃ ch', loadFromCharData 0 charData' = some ch'
            ∧ (heroChar 3 0 0).SameProgress ch')
          ↔ (heroChar 3 0 0).Restores (savePlayer (heroChar 2 0 0) (CharData.init 7)).1) := by
  let _ := CommonModule.rowDigest
  let _ := CommonModule.numericServer
  let _ := textGson zeroInts
  let _ := textGson zeroLongs
  let _ := textGson noFormations
  have hid : (heroChar 2 0 0).entityId.toInt = (CharData.init 7).charId := by decide
  have hstep : (CharData.init 7).exec (.savePlayer (heroChar 2 0 0))
      = some (savePlayer (heroChar 2 0 0) (CharData.init 7)).1 := by
    rw [CharData.exec, if_pos hid]
  have hid' : (heroChar 3 0 0).entityId.toInt
      = (savePlayer (heroChar 2 0 0) (CharData.init 7)).1.charId :=
    hid.trans ((sound_of_loaded (init_loaded 7)).exec hstep).2.symm
  exact savePlayer_restores_iff (init_loaded 7) (.next .start trivial hstep) hid'
    (heroChar_jsonRoundTrips 3 0 0) 0

end WzGame
