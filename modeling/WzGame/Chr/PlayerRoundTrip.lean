import WzGame.Chr.PlayerLoader
import WzGame.Db.CharDataLemmas
import WzGame.Db.Data.DbRecordShown
import WzGame.Util.Runs

/-!
This module contains when loading a character gives back what saving it has put into its data.
-/

namespace WzGame

open DbRecord MapObject PlayerSaver PlayerLoader

namespace Value

theorem toLong_long {n : Int} : (long n).toLong = some n := rfl

theorem keyValue_long_inj {m n : Int} : (long m).keyValue = (long n).keyValue ↔ m = n := by
  unfold keyValue
  by_cases hm : m = -1 <;> by_cases hn : n = -1 <;> simp [toLong_long, hm, hn]
  exact Ne.symm hn

theorem toLong_of_keyValue {v : Value} {n : Int} (h : (long n).keyValue = v.keyValue)
    : v.toLong = some n := by
  unfold keyValue at h
  rw [toLong_long, Option.getD_some] at h
  by_cases hn : n = -1 <;> by_cases hv : v.toLong.getD (-1) = -1
  . simp only [hn, hv, if_true, KeyValue.object.injEq] at h
    rw [← h, hn]
    rfl
  . simp [hn, hv] at h
  . simp [hn, hv] at h
  . simp only [hn, hv, if_false, KeyValue.number.injEq] at h
    cases hlong : v.toLong with
    | none => simp [hlong] at hv
    | some m => simpa [hlong] using h.symm

end Value

/-! ### Single rows -/

section rows

theorem heroOf_geneHeroData [Gson Int32] {playerId : Int64} {hero : HeroEntity}
    (hjson : Gson.RoundTrips hero.awakeInfo)
    : heroOf (geneHeroData playerId hero) = some { hero with huashenLevel := 0 } := by
  simp [heroOf, geneHeroData, getString, getInt, getLong, Value.toLong, hjson.fromJson_eq,
    HeroEntity.getEmptyEntity]

theorem equipOf_geneEquipData {playerId : Int64} {equip : EquipEntity}
    : equipOf (geneEquipData playerId equip) = equip := by
  simp [equipOf, geneEquipData, getInt, getLong, Value.toLong]

theorem formationOf_geneFormationData [Gson Int64] [Gson (Option Formation)] {ch : RyCharacter}
    (hformations : Gson.RoundTrips ch.charFormation.formations)
    (hpartners : Gson.RoundTrips ch.charFormation.partners)
    (hbattle : Gson.RoundTrips ch.charFormation.battleFormation)
    : formationOf (geneFormationData ch) = some ch.charFormation := by
  simp [formationOf, geneFormationData, getString, hformations.fromJson_eq, hpartners.fromJson_eq,
    hbattle.fromJson_eq]

def savedMoney : List EMoney := [.diamond, .silver, .reputation]

theorem addResources_genePlayerData {ch : RyCharacter}
    : addResources .new (genePlayerData ch) = ch.resourceMap
        ↔ ∀ type ∉ savedMoney, ch.resourceMap type = 0 := by
  have hread : addResources .new (genePlayerData ch)
      = fun type => if type ∈ savedMoney then ch.resourceMap type else 0 := by
    funext type
    cases type <;>
      simp [addResources, genePlayerData, ResourceMap.updateResource, ResourceMap.new, savedMoney,
        getLong, Value.toLong]
  rw [hread]
  constructor
  . intro h type htype
    have := congrFun h type
    simpa [htype] using this.symm
  . intro h
    funext type
    by_cases htype : type ∈ savedMoney
    . simp [htype]
    . simp [htype, h type htype]

theorem addResources_eq_zero {p : MapObject} {type : EMoney} (h : type ∉ savedMoney)
    : addResources .new p type = 0 := by
  cases type <;> first | rfl | simp [savedMoney] at h

theorem getString_genePlayerData {ch : RyCharacter}
    : (genePlayerData ch).getString "player_name" = some ch.playerName := by
  cases h : ch.playerName <;> simp [genePlayerData, getString, h]

theorem rowKey_geneHeroData [Gson Int32] {playerId : Int64} {hero : HeroEntity}
    : rowKey ["player_id", "hero_id"] (geneHeroData playerId hero)
        = [(Value.long playerId.toInt).keyValue, (Value.long hero.entityId.toInt).keyValue] := by
  simp [rowKey, geneHeroData]

theorem rowKey_geneEquipData {playerId : Int64} {equip : EquipEntity}
    : rowKey ["player_id", "equip_id"] (geneEquipData playerId equip)
        = [(Value.long playerId.toInt).keyValue, (Value.long equip.entityId.toInt).keyValue] := by
  simp [rowKey, geneEquipData]

theorem rowKey_geneFormationData [Gson Int64] [Gson (Option Formation)] {ch : RyCharacter}
    : rowKey ["player_id"] (geneFormationData ch)
        = [(Value.long ch.entityId.toInt).keyValue] := by
  simp [rowKey, geneFormationData]

theorem huashenLevel_heroOf [Gson Int32] {data : MapObject} {hero : HeroEntity}
    (h : heroOf data = some hero)
    : hero.huashenLevel = 0 := by
  obtain ⟨awakeInfo, -, h⟩ := Option.bind_eq_some_iff.mp h
  obtain ⟨json, -, h⟩ := Option.bind_eq_some_iff.mp h
  rw [← Option.some.inj h]
  rfl

theorem heroOf_eq_some [Gson Int32] {playerId : Int64} {hero : HeroEntity}
    (hjson : Gson.RoundTrips hero.awakeInfo)
    : heroOf (geneHeroData playerId hero) = some hero ↔ hero.huashenLevel = 0 := by
  constructor
  . exact huashenLevel_heroOf
  . intro h
    rw [heroOf_geneHeroData hjson, ← h]

theorem entityId_heroOf [Gson Int32] {playerId : Int64} {data : MapObject} {hero hero' : HeroEntity}
    (hkey : rowKey ["player_id", "hero_id"] data
      = rowKey ["player_id", "hero_id"] (geneHeroData playerId hero))
    (h : heroOf data = some hero')
    : getEntityId hero' = getEntityId hero := by
  obtain ⟨awakeInfo, -, h⟩ := Option.bind_eq_some_iff.mp h
  obtain ⟨json, -, h⟩ := Option.bind_eq_some_iff.mp h
  rw [rowKey_geneHeroData] at hkey
  simp only [rowKey, List.map_cons, List.cons.injEq] at hkey
  have hlong := Value.toLong_of_keyValue hkey.2.1.symm
  rw [← Option.some.inj h]
  simp [getEntityId, getLong, hlong]

theorem entityId_equipOf {playerId : Int64} {data : MapObject} {equip equip' : EquipEntity}
    (hkey : rowKey ["player_id", "equip_id"] data
      = rowKey ["player_id", "equip_id"] (geneEquipData playerId equip))
    (h : (some ∘ equipOf) data = some equip')
    : getEntityId equip' = getEntityId equip := by
  rw [rowKey_geneEquipData] at hkey
  simp only [rowKey, List.map_cons, List.cons.injEq] at hkey
  have hlong := Value.toLong_of_keyValue hkey.2.1.symm
  rw [← Option.some.inj h]
  simp [getEntityId, equipOf, getLong, hlong]

end rows

/-! ### Rows of entities -/

section entities

variable {α T : Type} {read : α → Option T} {V : List α} {L : List T}

theorem mapM_eq_some : V.mapM read = some L ↔ List.Forall₂ (fun x t => read x = some t) V L := by
  induction V generalizing L with
  | nil => simp [eq_comm]
  | cons x V ih =>
    rw [List.mapM_cons]
    constructor
    . intro h
      obtain ⟨t, ht, h⟩ := Option.bind_eq_some_iff.mp h
      obtain ⟨L', hL', h⟩ := Option.bind_eq_some_iff.mp h
      obtain rfl := Option.some.inj h
      exact .cons ht (ih.mp hL')
    . rintro (_ | ⟨ht, hL'⟩)
      simp [ht, ih.mpr hL']

theorem exists_mapM (h : ∀ x ∈ V, ∃ t, read x = some t) : ∃ L, V.mapM read = some L := by
  induction V with
  | nil => exact ⟨[], rfl⟩
  | cons x V ih =>
    obtain ⟨t, ht⟩ := h x (by simp)
    obtain ⟨L, hL⟩ := ih fun x' hx' => h x' (by simp [hx'])
    exact ⟨t :: L, by simp [ht, hL]⟩

theorem exists_of_mapM (h : V.mapM read = some L) {x : α} (hx : x ∈ V) : ∃ t, read x = some t := by
  rw [mapM_eq_some] at h
  induction h with
  | nil => simp at hx
  | @cons y t V L hread _ ih =>
    rcases List.mem_cons.mp hx with rfl | hx
    . exact ⟨t, hread⟩
    . exact ih hx

theorem mem_mapM (h : V.mapM read = some L) {t : T} : t ∈ L ↔ ∃ x ∈ V, read x = some t := by
  rw [mapM_eq_some] at h
  induction h with
  | nil => simp
  | cons hread _ ih => simp [ih, hread, eq_comm]

theorem nodup_mapM {κ : Type} {key : T → κ} (h : V.mapM read = some L) (hV : V.Nodup)
    (hinj : ∀ x ∈ V, ∀ x' ∈ V, ∀ t t', read x = some t → read x' = some t' → key t = key t' → x = x')
    : (L.map key).Nodup := by
  rw [mapM_eq_some] at h
  induction h with
  | nil => simp
  | @cons x t V L hread hrest ih =>
    rw [List.nodup_cons] at hV
    rw [List.map_cons, List.nodup_cons]
    constructor
    . intro hmem
      obtain ⟨t', ht', hkey⟩ := List.mem_map.mp hmem
      obtain ⟨x', hx', hread'⟩ := (mem_mapM (mapM_eq_some.mpr hrest)).mp ht'
      obtain rfl := hinj x (by simp) x' (by simp [hx']) t t' hread hread' hkey.symm
      exact hV.1 hx'
    . exact ih hV.2 fun x hx x' hx' => hinj x (by simp [hx]) x' (by simp [hx'])

variable [IEntity T] {storage : EntityStorage T} {shown : T → Option α}

section shown

variable (hV : V.Nodup) (hshown : ∀ x, x ∈ V ↔ ∃ t ∈ storage.entities, shown t = some x)
  (hread : ∀ t ∈ storage.entities, ∀ x t', shown t = some x → read x = some t' →
    getEntityId t' = getEntityId t)

include hV hshown hread

theorem getEntity_mapM (hL : V.mapM read = some L) {id : Int64} {t : T}
    : (L.foldl EntityStorage.addEntity .empty).getEntity id = some t
        ↔ t ∈ L ∧ getEntityId t = id := by
  -- Whatever is shown and read with one id comes from one entity.
  have hinj : ∀ x ∈ V, ∀ x' ∈ V, ∀ t t', read x = some t → read x' = some t' →
      getEntityId t = getEntityId t' → x = x' := by
    intro x hx x' hx' t t' ht ht' hid
    obtain ⟨u, hu, hxu⟩ := (hshown x).mp hx
    obtain ⟨u', hu', hxu'⟩ := (hshown x').mp hx'
    have huid : getEntityId u = getEntityId u' := by
      rw [← hread u hu x t hxu ht, ← hread u' hu' x' t' hxu' ht', hid]
    obtain rfl := List.inj_on_of_nodup_map storage.nodup hu hu' huid
    exact Option.some.inj (hxu.symm.trans hxu')
  have hnodup := nodup_mapM hL hV hinj
  rw [EntityStorage.getEntity_foldl_addEntity hnodup, EntityStorage.getEntity_empty, Option.or_none]
  exact @EntityStorage.getEntity_eq_some T _ ⟨L, hnodup⟩ t id

theorem mapM_shown_iff
    : (∃ L, V.mapM read = some L
        ∧ ∀ id, (L.foldl EntityStorage.addEntity .empty).getEntity id = storage.getEntity id)
      ↔ ∀ t ∈ storage.entities, ∃ x, shown t = some x ∧ read x = some t := by
  constructor
  . rintro ⟨L, hL, heq⟩ t ht
    have hfind := EntityStorage.getEntity_eq_some.mpr ⟨ht, rfl⟩
    rw [← heq, getEntity_mapM hV hshown hread hL] at hfind
    obtain ⟨x, hx, hreadx⟩ := (mem_mapM hL).mp hfind.1
    obtain ⟨u, hu, hxu⟩ := (hshown x).mp hx
    obtain rfl := List.inj_on_of_nodup_map storage.nodup ht hu (hread u hu x t hxu hreadx)
    exact ⟨x, hxu, hreadx⟩
  . intro h
    obtain ⟨L, hL⟩ : ∃ L, V.mapM read = some L := by
      apply exists_mapM
      intro x hx
      obtain ⟨t, ht, hxt⟩ := (hshown x).mp hx
      obtain ⟨x', hxt', hreadt⟩ := h t ht
      obtain rfl := Option.some.inj (hxt.symm.trans hxt')
      exact ⟨t, hreadt⟩
    refine ⟨L, hL, ?_⟩
    intro id
    apply Option.ext
    intro t
    rw [getEntity_mapM hV hshown hread hL, EntityStorage.getEntity_eq_some, mem_mapM hL]
    apply and_congr_left'
    constructor
    . rintro ⟨x, hx, hreadx⟩
      obtain ⟨u, hu, hxu⟩ := (hshown x).mp hx
      obtain ⟨x', hxu', hreadu⟩ := h u hu
      obtain rfl := Option.some.inj (hxu.symm.trans hxu')
      obtain rfl := Option.some.inj (hreadx.symm.trans hreadu)
      exact hu
    . intro ht
      obtain ⟨x, hxt, hreadt⟩ := h t ht
      exact ⟨x, (hshown x).mpr ⟨t, ht, hxt⟩, hreadt⟩

theorem getEntity_shown (hL : V.mapM read = some L) {t : T} {x : α} (ht : t ∈ storage.entities)
    (hx : shown t = some x)
    : ∃ t', read x = some t'
        ∧ (L.foldl EntityStorage.addEntity .empty).getEntity (getEntityId t) = some t' := by
  obtain ⟨t', hreadx⟩ := exists_of_mapM hL ((hshown x).mpr ⟨t, ht, hx⟩)
  refine ⟨t', hreadx, ?_⟩
  rw [getEntity_mapM hV hshown hread hL, mem_mapM hL]
  exact ⟨⟨x, (hshown x).mpr ⟨t, ht, hx⟩, hreadx⟩, hread t ht x t' hx hreadx⟩

end shown

end entities

/-! ### Saving a character -/

theorem nodup_entityKeys {T : Type} [IEntity T] (storage : EntityStorage T) (playerId : Int64)
    : (storage.entities.map fun t =>
        [(Value.long playerId.toInt).keyValue, (Value.long (getEntityId t).toInt).keyValue]).Nodup := by
  have hinj : Function.Injective fun id : Int64 =>
      [(Value.long playerId.toInt).keyValue, (Value.long id.toInt).keyValue] := by
    intro id id' h
    simp only [List.cons.injEq, true_and, and_true] at h
    exact Int64.toInt_inj.mp (Value.keyValue_long_inj.mp h)
  have hnodup := storage.nodup.map hinj
  rwa [List.map_map] at hnodup

section save

variable [Gson Int32] [Gson Int64] [Gson (Option Formation)] {ch : RyCharacter}
  {action : DBAction} {table : String} {keys : List String}

theorem hasKeys_rows (h : CharData.tables action = some (table, keys))
    : ∀ row ∈ rows ch action, HasKeys keys row := by
  cases action <;> simp only [CharData.tables, reduceCtorEq, Option.some.injEq, Prod.mk.injEq] at h
  all_goals
    obtain ⟨-, rfl⟩ := h
    intro row hrow key hkey
    simp only [List.mem_cons, List.not_mem_nil, or_false] at hkey
  . obtain rfl := List.mem_singleton.mp hrow
    subst hkey
    simp [genePlayerData]
  . obtain ⟨hero, -, rfl⟩ := List.mem_map.mp hrow
    rcases hkey with rfl | rfl <;> simp [geneHeroData]
  . obtain ⟨equip, -, rfl⟩ := List.mem_map.mp hrow
    rcases hkey with rfl | rfl <;> simp [geneEquipData]
  . obtain rfl := List.mem_singleton.mp hrow
    subst hkey
    simp [geneFormationData]

theorem nodup_rows (h : CharData.tables action = some (table, keys))
    : ((rows ch action).map (rowKey keys)).Nodup := by
  cases action <;> simp only [CharData.tables, reduceCtorEq, Option.some.injEq, Prod.mk.injEq] at h
  all_goals obtain ⟨-, rfl⟩ := h
  . exact List.nodup_singleton _
  . simp only [rows, EntityStorage.getAllEntities, List.map_map, Function.comp_def,
      rowKey_geneHeroData]
    exact nodup_entityKeys ch.charHero ch.entityId
  . simp only [rows, EntityStorage.getAllEntities, List.map_map, Function.comp_def,
      rowKey_geneEquipData]
    exact nodup_entityKeys ch.charEquip ch.entityId
  . exact List.nodup_singleton _

variable [DataUtil] {charData : CharData}

theorem saveModules_eq (hid : ch.entityId.toInt = charData.charId) {actions : List DBAction}
    (hactions : ∀ action ∈ actions, action ∈ CharData.entries) (hnodup : actions.Nodup)
    : ∃ charData', saveModules ch actions charData = (charData', false)
        ∧ charData'.charId = charData.charId
        ∧ (∀ action ∈ actions, ∀ table keys, CharData.tables action = some (table, keys) →
          update (charData.records action) (some (rows ch action)) keys false
            = .ok (charData'.records action))
        ∧ ∀ action ∉ actions, charData'.records action = charData.records action := by
  induction actions generalizing charData with
  | nil => exact ⟨charData, rfl, rfl, by simp, by simp⟩
  | cons action actions ih =>
    rw [List.nodup_cons] at hnodup
    obtain ⟨⟨table, keys⟩, htables⟩ := Option.ne_none_iff_exists'.mp
      (CharData.mem_entries.mp (hactions action (by simp)))
    obtain ⟨records', hupdate, -⟩ :=
      update_eq (@hasKeys_rows _ _ _ ch _ _ _ htables) (nodup_rows htables) (charData.records action)
    have hstep : charData.updateModuleData action (some (geneModuleData ch action))
        = (charData.setRecords action records', false) := by
      rw [CharData.updateModuleData_eq htables]
      simp [geneModuleData, ← hid, hupdate]
    obtain ⟨charData', hsave, hcharId, hupdates, hrest⟩ :=
      @ih (charData.setRecords action records') hid
        (fun action' h => hactions action' (by simp [h])) hnodup.2
    refine ⟨charData', ?_, hcharId, ?_, ?_⟩
    . simp only [saveModules, hstep, hsave]
    . intro action' haction' table' keys' htables'
      rcases List.mem_cons.mp haction' with rfl | haction'
      . obtain ⟨rfl, rfl⟩ := Prod.mk.inj (Option.some.inj (htables.symm.trans htables'))
        rw [hrest action' hnodup.1, CharData.records_setRecords, if_pos rfl, hupdate]
      . have hne : action' ≠ action := fun h => hnodup.1 (h ▸ haction')
        have := hupdates action' haction' table' keys' htables'
        rwa [CharData.records_setRecords, if_neg hne] at this
    . intro action' haction'
      rw [List.mem_cons, not_or] at haction'
      rw [hrest action' haction'.2, CharData.records_setRecords, if_neg haction'.1]

theorem savePlayer_eq (hid : ch.entityId.toInt = charData.charId)
    : ∃ charData', savePlayer ch charData = (charData', false)
        ∧ charData'.charId = charData.charId
        ∧ ∀ action table keys, CharData.tables action = some (table, keys) →
          update (charData.records action) (some (rows ch action)) keys false
            = .ok (charData'.records action) := by
  obtain ⟨charData', hsave, hcharId, hupdates, -⟩ := saveModules_eq hid
    (fun action (h : action ∈ CharData.entries) => h) (by decide)
  refine ⟨charData', hsave, hcharId, ?_⟩
  intro action table keys htables
  exact hupdates action (CharData.mem_entries.mpr (by simp [htables])) table keys htables

end save

end WzGame
