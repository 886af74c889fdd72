import WzGame.Chr.LoginPbCreator
import WzGame.Client.PlayerManager
import WzGame.Proto.RoundTrips
import WzGame.Util.Outcomes

/-!
This module contains that the client shows the character whose login data it gets, of whose formations however one
equipment each, and that what it gets with a later login is lost.
-/

namespace WzGame

open Proto Protobuf Except

theorem map_of_mapM {α β : Type} {f : α → Option β} {g : α → β} {xs : List α} {ys : List β}
    (hf : ∀ x y, f x = some y → y = g x) (h : xs.mapM f = some ys)
    : ys = xs.map g := by
  induction xs generalizing ys with
  | nil => exact (Option.some.inj h).symm
  | cons x xs ih =>
    rw [List.mapM_cons] at h
    obtain ⟨y, hy, h⟩ := Option.bind_eq_some_iff.mp h
    obtain ⟨ys', hys, h⟩ := Option.bind_eq_some_iff.mp h
    obtain rfl := Option.some.inj h
    rw [hf x y hy, ih hys, List.map_cons]

section entries

variable {entity : AttrEntity EBattleAttribute} {resourceMap : ResourceMap}

theorem AttrEntity.nodup_entries : (entity.entries.map Prod.fst).Nodup :=
  Dictionary.nodup_filterMap EBattleAttribute.nodup_values

theorem AttrEntity.lookup_entries (type : EBattleAttribute)
    : entity.entries.lookup type.getValue = entity.attrMap type :=
  Dictionary.lookup_filterMap EBattleAttribute.nodup_values type.mem_values

theorem ResourceMap.entries_eq
    : resourceMap.entries
        = EMoney.values.filterMap fun type => (some (resourceMap type)).map (Prod.mk type.getValue) := by
  simp only [Option.map_some, List.filterMap_eq_map', ResourceMap.entries]

theorem ResourceMap.nodup_entries : (resourceMap.entries.map Prod.fst).Nodup := by
  rw [ResourceMap.entries_eq]
  exact Dictionary.nodup_filterMap EMoney.nodup_values

theorem ResourceMap.lookup_entries (type : EMoney)
    : resourceMap.entries.lookup type.getValue = some (resourceMap type) := by
  rw [ResourceMap.entries_eq]
  exact Dictionary.lookup_filterMap EMoney.nodup_values type.mem_values

theorem list_ofEntries {V : Type} {entries : List (Int32 × V)} (h : (entries.map Prod.fst).Nodup)
    : (MapField.ofEntries entries).list = entries := by
  have hfold : ∀ (map : Protobuf.MapField Int32 V) (entries : List (Int32 × V)),
      (entries.foldl (fun map entry => map.set entry.1 entry.2) map).list
        = entries.foldl (KeyedList.upsert Prod.fst) map.list := by
    intro map entries
    induction entries generalizing map with
    | nil => rfl
    | cons entry entries ih => exact ih _
  rw [MapField.ofEntries, hfold]
  exact KeyedList.foldl_upsert_of_nodup h

end entries

namespace Client

variable {c c' : Client} {details : LoginDetails} {ch : RyCharacter} {pb : PBLoginSucc}

/-! ### The messages of a character -/

def shownHero (details : LoginDetails) (hero : WzGame.HeroEntity) : HeroEntity :=
  ⟨hero.entityId, hero.heroId, hero.level, hero.exp, hero.awakeLevel, hero.tianmingLevel,
    ⟨(details.heroAttributes hero).entries, AttrEntity.nodup_entries⟩⟩

def shownEquip (details : LoginDetails) (equip : WzGame.EquipEntity) : EquipEntity :=
  ⟨equip.entityId, equip.equipId, equip.level, ⟨(details.equipAttributes equip).entries, AttrEntity.nodup_entries⟩⟩

-- the formations that are not `null`
def fielded (ch : RyCharacter) : List WzGame.Formation := (ch.charFormation.formations.getD []).filterMap id

def shownFormation (formation : WzGame.Formation) (i : Nat) : Formation :=
  ⟨formation.heroId, (List.replicate 6 0).set i ((formation.equipId.getD [])[i]?.getD 0), formation.petId,
    formation.horseId, formation.mingjiangId⟩

structure Shows (details : LoginDetails) (ch : RyCharacter) (c : Client) : Prop where
  playerId : c.playerId = ch.entityId
  userId : c.userId = ch.userId
  name : c.name = ch.playerName
  battleScore : ch.charFormation.calBattleScore details ch.charHero = some c.battleScore
  tili : c.tili = details.tili
  jingli : c.jingli = details.jingli
  resources : ∀ type : EMoney, c.getResCount type.getValue = ch.resourceMap type
  heroes : ∀ id, c.heroMap.get? id = (ch.charHero.getEntity id).map (shownHero details)
  equips : ∀ id, c.equipMap.get? id = (ch.charEquip.getEntity id).map (shownEquip details)
  heroAttributes : ∀ (hero : WzGame.HeroEntity) (type : EBattleAttribute),
    (shownHero details hero).getAttributeValue type.getValue = (details.heroAttributes hero).getAttributeValue type
  formations : ∃ formations, c.formations = some formations ∧ formations.length = 6
    ∧ ∀ i, i < 6 → formations[i]? = some ((fielded ch)[i]?.map fun formation => shownFormation formation i)
  partners : c.partners = ch.charFormation.partners
  battleFormation : c.battleFormation = ch.charFormation.battleFormation

def Fits (ch : RyCharacter) : Prop :=
  (fielded ch).length ≤ 6
    ∧ ∀ (i : Nat) (formation : WzGame.Formation), (fielded ch)[i]? = some formation →
      i < (formation.equipId.getD []).length

theorem getAttributeValue_shownHero (hero : WzGame.HeroEntity) (type : EBattleAttribute)
    : (shownHero details hero).getAttributeValue type.getValue
        = (details.heroAttributes hero).getAttributeValue type := by
  rw [HeroEntity.getAttributeValue, Dictionary.get?]
  exact congrArg (Option.getD · 0) (AttrEntity.lookup_entries type)

def heroMessage (details : LoginDetails) (hero : WzGame.HeroEntity) : PBHeroEntity where
  heroId := hero.entityId
  confId := hero.heroId
  level := hero.level
  exp := hero.exp
  breakLevel := hero.breakLevel
  awakeInfo := hero.awakeInfo.getD []
  awakeLevel := hero.awakeLevel
  tianmingLevel := hero.tianmingLevel
  attributes := MapField.ofEntries (details.heroAttributes hero).entries

def formationMessage (formation : WzGame.Formation) : PBOneFormation where
  heroId := formation.heroId
  equip := formation.equipId.getD []
  petId := formation.petId
  horseId := formation.horseId
  mingjiangId := formation.mingjiangId

theorem loginSucc_spec (h : LoginPbCreator.loginSucc details ch = some pb)
    : ∃ name battleScore partners battleFormation, ch.playerName = some name
        ∧ ch.charFormation.calBattleScore details ch.charHero = some battleScore
        ∧ ch.charFormation.partners = some partners ∧ ch.charFormation.battleFormation = some battleFormation
        ∧ pb = {
          playerId := ch.entityId
          userId := ch.userId
          name := name
          battleScore := battleScore
          tili := details.tili
          jingli := details.jingli
          resMap := MapField.ofEntries ch.resourceMap.entries
          heroList := ch.charHero.entities.map (heroMessage details)
          equipList := ch.charEquip.entities.map (EquipPbCreator.equipEntity details)
          formation := some ⟨(fielded ch).map formationMessage, partners, battleFormation⟩ } := by
  obtain ⟨name, hname, h⟩ := Option.bind_eq_some_iff.mp h
  obtain ⟨battleScore, hscore, h⟩ := Option.bind_eq_some_iff.mp h
  obtain ⟨heroList, hheroes, h⟩ := Option.bind_eq_some_iff.mp h
  obtain ⟨formation, hformation, h⟩ := Option.bind_eq_some_iff.mp h
  obtain rfl := Option.some.inj h
  obtain ⟨formations, hformations, hformation⟩ := Option.bind_eq_some_iff.mp hformation
  obtain ⟨partners, hpartners, hformation⟩ := Option.bind_eq_some_iff.mp hformation
  obtain ⟨battleFormation, hbattle, hformation⟩ := Option.bind_eq_some_iff.mp hformation
  obtain ⟨messages, hmessages, hformation⟩ := Option.bind_eq_some_iff.mp hformation
  obtain rfl := Option.some.inj hformation
  have hheroes' : heroList = ch.charHero.entities.map (heroMessage details) := by
    apply map_of_mapM _ hheroes
    intro hero message hmessage
    obtain ⟨awakeInfo, hawake, hmessage⟩ := Option.bind_eq_some_iff.mp hmessage
    obtain rfl := Option.some.inj hmessage
    rw [heroMessage, hawake, Option.getD_some]
  have hmessages' : messages = (fielded ch).map formationMessage := by
    rw [fielded, hformations, Option.getD_some]
    apply map_of_mapM _ hmessages
    intro formation message hmessage
    obtain ⟨equipId, hequip, hmessage⟩ := Option.bind_eq_some_iff.mp hmessage
    obtain rfl := Option.some.inj hmessage
    rw [formationMessage, hequip, Option.getD_some]
  subst hheroes' hmessages'
  exact ⟨name, battleScore, partners, battleFormation, hname, hscore, hpartners, hbattle, rfl⟩

/-! ### The loops of the client -/

theorem attributes_eq (map : Protobuf.MapField Int32 Int32) : attributes map = .ok ⟨map.list, map.nodup⟩ :=
  Dictionary.addAll_of_nodup (d := .empty) map.nodup

def heroEntry (pb : PBHeroEntity) : Int64 × HeroEntity :=
  (pb.heroId, ⟨pb.heroId, pb.confId, pb.level, pb.exp, pb.awakeLevel, pb.tianmingLevel,
    ⟨pb.attributes.list, pb.attributes.nodup⟩⟩)

def equipEntry (pb : PBEquipEntity) : Int64 × EquipEntity :=
  (pb.entityId, ⟨pb.entityId, pb.confId, pb.level, ⟨pb.attts.list, pb.attts.nodup⟩⟩)

theorem foldlM_addResource (c : Client) (entries : List (Int32 × Int64))
    : entries.foldlM addResource c
        = onState (fun resMap => { c with resMap := resMap }) (c.resMap.addAll entries) := by
  have hloop := foldlM_onState Dictionary.addEntry addResource (fun resMap => { c with resMap := resMap }) id ?_ entries
    c.resMap
  . rw [List.map_id] at hloop
    exact hloop
  . intro resMap entry
    simp only [addResource, Dictionary.addEntry, id_eq]
    cases resMap.add entry.1 entry.2 <;> rfl

theorem foldlM_addHeroEntity (c : Client) (pbs : List PBHeroEntity)
    : pbs.foldlM addHeroEntity c
        = onState (fun heroMap => { c with heroMap := heroMap }) (c.heroMap.addAll (pbs.map heroEntry)) := by
  refine foldlM_onState Dictionary.addEntry addHeroEntity (fun heroMap => { c with heroMap := heroMap }) heroEntry ?_
    pbs c.heroMap
  intro heroMap pb
  simp only [addHeroEntity, Dictionary.addEntry, attributes_eq, heroEntry]
  cases heroMap.add pb.heroId _ <;> rfl

theorem foldlM_addEquipEntity (c : Client) (pbs : List PBEquipEntity)
    : pbs.foldlM addEquipEntity c
        = onState (fun equipMap => { c with equipMap := equipMap }) (c.equipMap.addAll (pbs.map equipEntry)) := by
  refine foldlM_onState Dictionary.addEntry addEquipEntity (fun equipMap => { c with equipMap := equipMap })
    equipEntry ?_ pbs c.equipMap
  intro equipMap pb
  simp only [addEquipEntity, Dictionary.addEntry, attributes_eq, equipEntry]
  cases equipMap.add pb.entityId _ <;> rfl

def formationOf (pb : PBOneFormation) (i : Nat) (equipId : Int64) : Formation :=
  ⟨pb.heroId, (List.replicate 6 0).set i equipId, pb.petId, pb.horseId, pb.mingjiangId⟩

section initFormation

variable {count i : Nat} {formations : List (Option Formation)} {formationPb : PBOneFormation} {equipId : Int64}

theorem initFormation_eq_ok (hcount : 0 < count) (hlength : i < formations.length)
    (hequip : formationPb.equip[i]? = some equipId)
    : initFormation count { c with formations := some formations } (formationPb, i)
        = .ok { c with formations := some (formations.set i (some (formationOf formationPb i equipId))) } := by
  have hrounds : List.range count ≠ [] := by simpa using Nat.ne_of_gt hcount
  simp only [initFormation, if_pos hlength]
  refine foldlM_idempotent { c with
    formations := some (formations.set i (some (formationOf formationPb i equipId))) } ?_ ?_ hrounds
  . simp [initEquip, hequip, formationOf, Formation.new, List.modify_eq_set_getElem?, hlength]
    rfl
  . simp [initEquip, hequip, formationOf, List.modify_eq_set_getElem?, hlength]
    rfl

theorem initFormation_ne_ok (hcount : 0 < count) (h : ¬ (i < formations.length ∧ i < formationPb.equip.length))
    : initFormation count { c with formations := some formations } (formationPb, i) ≠ .ok c' := by
  simp only [initFormation]
  split_ifs with hlength
  . have hequip : formationPb.equip[i]? = none := List.getElem?_eq_none (by omega)
    cases count with
    | zero => contradiction
    | succ count =>
      rw [List.range_succ_eq_map, List.foldlM_cons, initEquip, hequip]
      nofun
  . nofun

def FitFrom (length : Nat) : Nat → List PBOneFormation → Prop
  | _, [] => True
  | i, formationPb :: rest => (i < length ∧ i < formationPb.equip.length) ∧ FitFrom length (i + 1) rest

def placed : Nat → List PBOneFormation → List (Option Formation) → List (Option Formation)
  | _, [], formations => formations
  | i, formationPb :: rest, formations =>
    placed (i + 1) rest (formations.set i (some (formationOf formationPb i (formationPb.equip[i]?.getD 0))))

variable {rest : List PBOneFormation}

theorem fitFrom_iff {length : Nat} (hi : i ≤ length)
    : FitFrom length i rest ↔ i + rest.length ≤ length
        ∧ ∀ (j : Nat) (formationPb : PBOneFormation), rest[j]? = some formationPb →
          i + j < formationPb.equip.length := by
  induction rest generalizing i with
  | nil => simp [FitFrom, hi]
  | cons formationPb rest ih =>
    simp only [FitFrom, List.length_cons]
    constructor
    . rintro ⟨⟨hlength, hequip⟩, hrest⟩
      obtain ⟨hroom, hequips⟩ := (ih (by omega)).mp hrest
      refine ⟨by omega, fun j formationPb' hj => ?_⟩
      cases j with
      | zero =>
        obtain rfl := Option.some.inj hj
        exact hequip
      | succ j =>
        have hnext := hequips j formationPb' hj
        omega
    . rintro ⟨hroom, hequips⟩
      refine ⟨⟨by omega, hequips 0 formationPb rfl⟩, (ih (by omega)).mpr ⟨by omega, fun j formationPb' hj => ?_⟩⟩
      have hnext := hequips (j + 1) formationPb' hj
      omega

theorem length_placed : (placed i rest formations).length = formations.length := by
  induction rest generalizing i formations with
  | nil => rfl
  | cons formationPb rest ih =>
    rw [placed, ih, List.length_set]

theorem getElem?_placed (hlength : i + rest.length ≤ formations.length) (j : Nat)
    : (placed i rest formations)[j]? = if i ≤ j ∧ j < i + rest.length then
          some (rest[j - i]?.map fun formationPb => formationOf formationPb j (formationPb.equip[j]?.getD 0))
        else
          formations[j]? := by
  induction rest generalizing i formations with
  | nil =>
    rw [placed, if_neg (by simp)]
  | cons formationPb rest ih =>
    rw [List.length_cons] at hlength
    rw [placed, ih (by rw [List.length_set]; omega), List.length_cons]
    by_cases hj : j = i
    . subst hj
      have hroom : j < formations.length := by omega
      simp [hroom]
    . have hset (formation : Option Formation) : (formations.set i formation)[j]? = formations[j]? :=
        List.getElem?_set_ne (Ne.symm hj)
      rw [hset]
      by_cases hin : i + 1 ≤ j ∧ j < i + 1 + rest.length
      . have hsucc : j - i = j - (i + 1) + 1 := by omega
        rw [if_pos hin, if_pos (by omega), hsucc, List.getElem?_cons_succ]
      . rw [if_neg hin, if_neg (by omega)]

theorem foldlM_initFormation (c : Client) (formations : List (Option Formation)) (i : Nat) (rest : List PBOneFormation)
    (hcount : rest.length ≤ count)
    : (FitFrom formations.length i rest → (rest.zipIdx i).foldlM (initFormation count)
          { c with formations := some formations } = .ok { c with formations := some (placed i rest formations) })
        ∧ (¬ FitFrom formations.length i rest → ∀ c', (rest.zipIdx i).foldlM (initFormation count)
          { c with formations := some formations } ≠ .ok c') := by
  induction rest generalizing i formations with
  | nil => exact ⟨fun _ => rfl, fun h => absurd trivial h⟩
  | cons formationPb rest ih =>
    have hpos : 0 < count := Nat.lt_of_lt_of_le (Nat.succ_pos _) hcount
    rw [List.zipIdx_cons, List.foldlM_cons, FitFrom]
    by_cases hfit : i < formations.length ∧ i < formationPb.equip.length
    . have hequip : formationPb.equip[i]? = some formationPb.equip[i] := List.getElem?_eq_getElem hfit.2
      rw [initFormation_eq_ok hpos hfit.1 hequip]
      have hrest := ih (formations.set i (some (formationOf formationPb i formationPb.equip[i]))) (i + 1)
        (Nat.le_of_succ_le hcount)
      rw [List.length_set] at hrest
      rw [placed, hequip, Option.getD_some]
      exact ⟨fun h => hrest.1 h.2, fun h => hrest.2 fun h' => h ⟨hfit, h'⟩⟩
    . refine ⟨fun h => absurd h.1 hfit, fun _ => ?_⟩
      exact bind_ne_ok fun c' => initFormation_ne_ok hpos hfit

end initFormation

def withResources (c : Client) (pb : PBLoginSucc) : Client :=
  { c with
    playerId := pb.playerId
    userId := pb.userId
    name := some pb.name
    tili := pb.tili
    jingli := pb.jingli
    battleScore := pb.battleScore
    resMap := ⟨pb.resMap.list, pb.resMap.nodup⟩ }

def initFormations (c : Client) (pb : PBLoginSucc) : Except Client Client :=
  match pb.formation with
  | none => throw { c with formations := some (List.replicate 6 none) }
  | some formation => do
    let c ← formation.formation.zipIdx.foldlM (initFormation formation.formation.length)
      { c with formations := some (List.replicate 6 none) }
    pure { c with
      partners := some formation.partner
      battleFormation := some formation.battleFormation }

theorem initFromLoginData_eq (c : Client) (pb : PBLoginSucc)
    : c.initFromLoginData pb
        = onState (fun heroMap => { c.withResources pb with heroMap := heroMap })
            (c.heroMap.addAll (pb.heroList.map heroEntry)) >>= fun c =>
          onState (fun equipMap => { c with equipMap := equipMap })
            (c.equipMap.addAll (pb.equipList.map equipEntry)) >>= fun c => c.initFormations pb := by
  rw [initFromLoginData, foldlM_addResource, Dictionary.addAll_of_nodup (d := .empty) pb.resMap.nodup]
  show (pb.heroList.foldlM addHeroEntity (c.withResources pb) >>= _) = _
  rw [foldlM_addHeroEntity]
  refine Except.bind_congr rfl fun c₁ _ => ?_
  rw [foldlM_addEquipEntity]
  rfl

theorem initFromLoginData_of_nodup
    (hheroes : ((c.heroMap.entries ++ pb.heroList.map heroEntry).map Prod.fst).Nodup)
    (hequips : ((c.equipMap.entries ++ pb.equipList.map equipEntry).map Prod.fst).Nodup)
    : c.initFromLoginData pb = initFormations { c.withResources pb with
        heroMap := ⟨_, hheroes⟩
        equipMap := ⟨_, hequips⟩ } pb := by
  rw [initFromLoginData_eq, Dictionary.addAll_of_nodup hheroes]
  show (onState _ (c.equipMap.addAll (pb.equipList.map equipEntry)) >>= _) = _
  rw [Dictionary.addAll_of_nodup hequips]
  rfl

/-! ### What the client shows -/

theorem heroEntry_heroMessage (hero : WzGame.HeroEntity)
    : heroEntry (heroMessage details hero) = (getEntityId hero, shownHero details hero) := by
  have hattributes : (heroEntry (heroMessage details hero)).2.attributes = (shownHero details hero).attributes :=
    Dictionary.ext (list_ofEntries AttrEntity.nodup_entries)
  exact congrArg (fun attributes => (getEntityId hero, { shownHero details hero with attributes := attributes }))
    hattributes

theorem equipEntry_equipEntity (equip : WzGame.EquipEntity)
    : equipEntry (EquipPbCreator.equipEntity details equip) = (getEntityId equip, shownEquip details equip) := by
  have hattributes : (equipEntry (EquipPbCreator.equipEntity details equip)).2.attributes
      = (shownEquip details equip).attributes :=
    Dictionary.ext (list_ofEntries AttrEntity.nodup_entries)
  exact congrArg (fun attributes => (getEntityId equip, { shownEquip details equip with attributes := attributes }))
    hattributes

theorem heroEntries_eq
    : (ch.charHero.entities.map (heroMessage details)).map heroEntry
        = ch.charHero.entities.map fun hero => (getEntityId hero, shownHero details hero) := by
  rw [List.map_map]
  exact List.map_congr_left fun hero _ => heroEntry_heroMessage hero

theorem equipEntries_eq
    : (ch.charEquip.entities.map (EquipPbCreator.equipEntity details)).map equipEntry
        = ch.charEquip.entities.map fun equip => (getEntityId equip, shownEquip details equip) := by
  rw [List.map_map]
  exact List.map_congr_left fun equip _ => equipEntry_equipEntity equip

theorem fitFrom_iff_fits : FitFrom 6 0 ((fielded ch).map formationMessage) ↔ Fits ch := by
  rw [fitFrom_iff (Nat.zero_le 6), Fits, List.length_map, Nat.zero_add]
  refine and_congr_right fun _ => ?_
  simp only [List.getElem?_map, Option.map_eq_some_iff, Nat.zero_add]
  constructor
  . intro h i formation hi
    exact h i (formationMessage formation) ⟨formation, hi, rfl⟩
  . rintro h i _ ⟨formation, hi, rfl⟩
    exact h i formation hi

theorem initFormations_fielded (ch : RyCharacter) (c : Client) {partners battleFormation : List Int64}
    (hformation : pb.formation = some ⟨(fielded ch).map formationMessage, partners, battleFormation⟩)
    : (Fits ch → c.initFormations pb = .ok { c with
          formations := some (placed 0 ((fielded ch).map formationMessage) (List.replicate 6 none))
          partners := some partners
          battleFormation := some battleFormation })
        ∧ (¬ Fits ch → ∀ c', c.initFormations pb ≠ .ok c') := by
  simp only [initFormations, hformation]
  obtain ⟨hfit, hnot⟩ := foldlM_initFormation c (List.replicate 6 none) 0 ((fielded ch).map formationMessage)
    (Nat.le_refl _)
  rw [List.length_replicate, fitFrom_iff_fits] at hfit hnot
  constructor
  . intro h
    rw [hfit h]
    rfl
  . intro h
    exact bind_ne_ok (hnot h)

theorem getResCount_withResources (c : Client) (hsucc : LoginPbCreator.loginSucc details ch = some pb) (type : EMoney)
    : (c.withResources pb).getResCount type.getValue = ch.resourceMap type := by
  obtain ⟨name, battleScore, partners, battleFormation, -, -, -, -, hpb⟩ := loginSucc_spec hsucc
  have hresources : pb.resMap.list = ch.resourceMap.entries := by
    rw [hpb]
    exact list_ofEntries ResourceMap.nodup_entries
  simp only [getResCount, Dictionary.get?, withResources, hresources, ResourceMap.lookup_entries, Option.getD_some]

theorem getElem?_placed_fielded (hfits : Fits ch) {i : Nat} (hi : i < 6)
    : (placed 0 ((fielded ch).map formationMessage) (List.replicate 6 none))[i]?
        = some ((fielded ch)[i]?.map fun formation => shownFormation formation i) := by
  have hlength : (fielded ch).length ≤ 6 := hfits.1
  rw [getElem?_placed (by simp [hlength])]
  split_ifs with h
  . rw [Nat.sub_zero, List.getElem?_map, Option.map_map]
    rfl
  . have hnone : (fielded ch)[i]? = none := by
      rw [List.getElem?_eq_none_iff]
      rw [List.length_map] at h
      omega
    rw [hnone, List.getElem?_replicate_of_lt hi]
    rfl

theorem initFromLoginData_loginSucc (hsucc : LoginPbCreator.loginSucc details ch = some pb)
    (hheroes : c.heroMap.entries = []) (hequips : c.equipMap.entries = [])
    : (Fits ch → ∃ c', c.initFromLoginData pb = .ok c' ∧ Shows details ch c')
        ∧ (¬ Fits ch → ∀ c', c.initFromLoginData pb ≠ .ok c') := by
  obtain ⟨name, battleScore, partners, battleFormation, hname, hscore, hpartners, hbattle, hpb⟩ := loginSucc_spec hsucc
  have hformation : pb.formation = some ⟨(fielded ch).map formationMessage, partners, battleFormation⟩ := by rw [hpb]
  have hheroList : c.heroMap.entries ++ pb.heroList.map heroEntry
      = ch.charHero.entities.map fun hero => (getEntityId hero, shownHero details hero) := by
    rw [hheroes, hpb, List.nil_append, heroEntries_eq]
  have hequipList : c.equipMap.entries ++ pb.equipList.map equipEntry
      = ch.charEquip.entities.map fun equip => (getEntityId equip, shownEquip details equip) := by
    rw [hequips, hpb, List.nil_append, equipEntries_eq]
  have hheroNodup : ((c.heroMap.entries ++ pb.heroList.map heroEntry).map Prod.fst).Nodup := by
    rw [hheroList, List.map_map]
    exact ch.charHero.nodup
  have hequipNodup : ((c.equipMap.entries ++ pb.equipList.map equipEntry).map Prod.fst).Nodup := by
    rw [hequipList, List.map_map]
    exact ch.charEquip.nodup
  obtain ⟨hfit, hnot⟩ := initFormations_fielded ch { c.withResources pb with
    heroMap := ⟨_, hheroNodup⟩
    equipMap := ⟨_, hequipNodup⟩ } hformation
  rw [initFromLoginData_of_nodup hheroNodup hequipNodup]
  refine ⟨fun hfits => ⟨_, hfit hfits, ?_⟩, hnot⟩
  exact {
    playerId := by simp only [withResources, hpb]
    userId := by simp only [withResources, hpb]
    name := by simp only [withResources, hpb, hname]
    battleScore := by simp only [withResources, hpb, hscore]
    tili := by simp only [withResources, hpb]
    jingli := by simp only [withResources, hpb]
    resources := getResCount_withResources c hsucc
    heroes := by
      intro id
      simp only [Dictionary.get?, hheroList, Dictionary.lookup_map]
      rfl
    equips := by
      intro id
      simp only [Dictionary.get?, hequipList, Dictionary.lookup_map]
      rfl
    heroAttributes := getAttributeValue_shownHero
    formations := ⟨_, rfl, by rw [length_placed, List.length_replicate],
      fun i hi => getElem?_placed_fielded hfits hi⟩
    partners := hpartners.symm
    battleFormation := hbattle.symm }

/--
Whether the first login of a client goes through depends on the formations alone. If it does, the client shows the
character.
-/
theorem onReceiveLogin_loginSucc {malformed : Malformed} {bytes : List UInt8}
    (hsucc : LoginPbCreator.loginSucc details ch = some pb)
    (hbytes : (Descriptor.PBLoginSucc.message malformed).parseFrom Descriptor.PBLoginSucc.new bytes = .ok pb)
    (hheroes : c.heroMap.entries = []) (hequips : c.equipMap.entries = [])
    : ((∃ c', onReceiveLogin malformed c bytes = .ok c') ↔ Fits ch)
        ∧ ∀ c', onReceiveLogin malformed c bytes = .ok c' → Shows details ch c' := by
  have hreceive : onReceiveLogin malformed c bytes = c.initFromLoginData pb := by
    rw [onReceiveLogin, hbytes]
  obtain ⟨hfit, hnot⟩ := initFromLoginData_loginSucc hsucc hheroes hequips
  rw [hreceive]
  refine ⟨⟨fun ⟨c', hc'⟩ => ?_, fun hfits => ?_⟩, fun c' hc' => ?_⟩
  . by_contra h
    exact hnot h c' hc'
  . obtain ⟨c', hc', -⟩ := hfit hfits
    exact ⟨c', hc'⟩
  . by_cases hfits : Fits ch
    . obtain ⟨c'', hc'', hshows⟩ := hfit hfits
      rw [hc''] at hc'
      obtain rfl := Except.ok.inj hc'
      exact hshows
    . exact absurd hc' (hnot hfits c')

theorem exists_bytes {malformed : Malformed}
    (hsize : (Descriptor.PBLoginSucc.message malformed).calculateSize pb < maxValue)
    : ∃ bytes, (Descriptor.PBLoginSucc.message malformed).parseFrom Descriptor.PBLoginSucc.new bytes = .ok pb := by
  obtain ⟨rs, -, -, hlength, hmerged⟩ := Descriptor.PBLoginSucc.toByteArray_eq hsize
  have hm := hmerged Descriptor.PBLoginSucc.new
  rw [Descriptor.copy_new] at hm
  rw [hlength] at hsize
  exact ⟨_, (Descriptor.PBLoginSucc.meanings malformed).mergeFromData_encodes (by decide) hsize hm⟩

def oneDetails : LoginDetails where
  tili := 10
  jingli := 5
  heroAttributes _ := AttrEntity.new.addAttribute .hp 100
  equipAttributes _ := .new

def oneHero : RyCharacter :=
  { RyCharacter.getDefault 0 7 "user_id" 3 with
    charHero := EntityStorage.empty.addEntity (.createHeroEntity 8 100001)
    charFormation := ⟨some [none, some (.new 8)], some [], some [0, 8]⟩ }

theorem fits_oneHero : Fits oneHero := by
  refine ⟨by decide, fun i formation hi => ?_⟩
  have hfielded : fielded oneHero = [.new 8] := rfl
  rw [hfielded] at hi
  cases i with
  | zero =>
    obtain rfl := Option.some.inj hi
    decide
  | succ i => contradiction

theorem exists_oneHero
    : ∃ pb bytes, LoginPbCreator.loginSucc oneDetails oneHero = some pb
        ∧ (Descriptor.PBLoginSucc.message fun _ => "").parseFrom Descriptor.PBLoginSucc.new bytes = .ok pb := by
  have hsize : (LoginPbCreator.loginSucc oneDetails oneHero).any (fun pb =>
      (Descriptor.PBLoginSucc.message fun _ => "").calculateSize pb < maxValue) = true := by
    decide
  obtain ⟨pb, hsucc, hpb⟩ := (Option.any_eq_true _ _).mp hsize
  obtain ⟨bytes, hbytes⟩ := exists_bytes (of_decide_eq_true hpb)
  exact ⟨pb, bytes, hsucc, hbytes⟩

theorem onReceiveLogin_loginSucc_oneHero
    : ∃ bytes c', onReceiveLogin (fun _ => "") start bytes = .ok c' ∧ Shows oneDetails oneHero c' := by
  obtain ⟨pb, bytes, hsucc, hbytes⟩ := exists_oneHero
  obtain ⟨hiff, hshows⟩ := onReceiveLogin_loginSucc hsucc hbytes (c := start) rfl rfl
  obtain ⟨c', hc'⟩ := hiff.mpr fits_oneHero
  exact ⟨bytes, c', hc', hshows c' hc'⟩

/-! ### Later logins -/

-- the client after a login, whether this has thrown or not
def received (malformed : Malformed) (c : Client) (bytes : List UInt8) : Client :=
  match onReceiveLogin malformed c bytes with
  | .ok c' => c'
  | .error c' => c'

structure Keeps (c c' : Client) : Prop where
  heroes : c.heroMap.entries <+: c'.heroMap.entries
  equips : c.equipMap.entries <+: c'.equipMap.entries

theorem Keeps.refl (c : Client) : Keeps c c := ⟨List.prefix_rfl, List.prefix_rfl⟩

theorem Keeps.trans {c'' : Client} (h : Keeps c c') (h' : Keeps c' c'') : Keeps c c'' :=
  ⟨h.heroes.trans h'.heroes, h.equips.trans h'.equips⟩

theorem Keeps.outcome {x : Except Client Client} (h : Keeps c c') (hx : Outcome (Keeps c') (Keeps c') x)
    : Outcome (Keeps c) (Keeps c) x :=
  hx.mono (fun _ => h.trans) fun _ => h.trans

theorem Keeps.foldlM {α : Type} {step : Client → α → Except Client Client} (h : Keeps c c')
    (hstep : ∀ c a, Outcome (Keeps c) (Keeps c) (step c a)) (as : List α)
    : Outcome (Keeps c) (Keeps c) (as.foldlM step c') :=
  h.outcome (Outcome.foldlM Keeps.refl Keeps.trans hstep as c')

theorem addResource_keeps (c : Client) (entry : Int32 × Int64)
    : Outcome (Keeps c) (Keeps c) (c.addResource entry) := by
  unfold addResource
  split
  . exact .error (.refl c)
  . exact .ok ⟨List.prefix_rfl, List.prefix_rfl⟩

theorem addHeroEntity_keeps (c : Client) (pb : PBHeroEntity) : Outcome (Keeps c) (Keeps c) (c.addHeroEntity pb) := by
  simp only [addHeroEntity, attributes_eq]
  split
  . exact .error (.refl c)
  . next h => exact .ok ⟨Dictionary.entries_of_add h ▸ List.prefix_append _ _, List.prefix_rfl⟩

theorem addEquipEntity_keeps (c : Client) (pb : PBEquipEntity)
    : Outcome (Keeps c) (Keeps c) (c.addEquipEntity pb) := by
  simp only [addEquipEntity, attributes_eq]
  split
  . exact .error (.refl c)
  . next h => exact .ok ⟨List.prefix_rfl, Dictionary.entries_of_add h ▸ List.prefix_append _ _⟩

theorem initEquip_keeps (formationPb : PBOneFormation) (i : Nat) (c : Client)
    : Outcome (Keeps c) (Keeps c) (initEquip formationPb i c) := by
  unfold initEquip
  split
  . exact .error (.refl c)
  . exact .ok ⟨List.prefix_rfl, List.prefix_rfl⟩

theorem initFormation_keeps (count : Nat) (c : Client) (entry : PBOneFormation × Nat)
    : Outcome (Keeps c) (Keeps c) (initFormation count c entry) := by
  obtain ⟨formationPb, i⟩ := entry
  simp only [initFormation]
  split
  . exact .error (.refl c)
  . split_ifs
    . refine Keeps.foldlM ?_ (fun c _ => initEquip_keeps formationPb i c) _
      exact ⟨List.prefix_rfl, List.prefix_rfl⟩
    . exact .error (.refl c)

theorem initFromLoginData_keeps (c : Client) (pb : PBLoginSucc)
    : Outcome (Keeps c) (Keeps c) (c.initFromLoginData pb) := by
  unfold initFromLoginData
  refine .bind (Keeps.foldlM ?_ addResource_keeps _) fun c₁ h₁ => ?_
  . exact ⟨List.prefix_rfl, List.prefix_rfl⟩
  refine .bind (h₁.foldlM addHeroEntity_keeps _) fun c₂ h₂ => ?_
  refine .bind (h₂.foldlM addEquipEntity_keeps _) fun c₃ h₃ => ?_
  simp only
  split
  . exact .error ⟨h₃.heroes, h₃.equips⟩
  . refine .bind (Keeps.foldlM ?_ (initFormation_keeps _) _) fun c₄ h₄ => ?_
    . exact ⟨h₃.heroes, h₃.equips⟩
    . exact .ok ⟨h₄.heroes, h₄.equips⟩

theorem received_keeps (malformed : Malformed) (c : Client) (bytes : List UInt8)
    : Keeps c (received malformed c bytes) := by
  have hout : Outcome (Keeps c) (Keeps c) (onReceiveLogin malformed c bytes) := by
    unfold onReceiveLogin
    split
    . exact .error (.refl c)
    . exact initFromLoginData_keeps c _
  unfold received
  cases h : onReceiveLogin malformed c bytes with
  | ok c' =>
    rw [h] at hout
    exact hout
  | error c' =>
    rw [h] at hout
    exact hout

theorem foldl_received_keeps (malformed : Malformed) (c : Client) (logins : List (List UInt8))
    : Keeps c (logins.foldl (received malformed) c) := by
  induction logins generalizing c with
  | nil => exact .refl c
  | cons bytes logins ih => exact (received_keeps malformed c bytes).trans (ih _)

theorem initFromLoginData_of_known {id : Int64} (hknown : id ∈ c.heroMap.entries.map Prod.fst)
    (hhero : id ∈ (pb.heroList.map heroEntry).map Prod.fst)
    : ∃ heroMap, c.initFromLoginData pb = .error { c.withResources pb with heroMap := heroMap } := by
  rw [initFromLoginData_eq]
  cases h : c.heroMap.addAll (pb.heroList.map heroEntry) with
  | ok heroMap => exact absurd h (Dictionary.addAll_ne_ok hknown hhero)
  | error heroMap => exact ⟨heroMap, rfl⟩

/--
The client still shows the heroes and equipments of `ch` as they were. A login with one of these heroes throws; of what
the server has by then, only the resources get to the client.
-/
structure Stale (malformed : Malformed) (details : LoginDetails) (ch : RyCharacter) (c : Client) : Prop where
  heroes : ∀ id hero, ch.charHero.getEntity id = some hero → c.heroMap.get? id = some (shownHero details hero)
  equips : ∀ id equip, ch.charEquip.getEntity id = some equip → c.equipMap.get? id = some (shownEquip details equip)
  relogin : ∀ (details' : LoginDetails) (ch' : RyCharacter) (pb : PBLoginSucc) (bytes : List UInt8) (id : Int64),
    LoginPbCreator.loginSucc details' ch' = some pb →
    (Descriptor.PBLoginSucc.message malformed).parseFrom Descriptor.PBLoginSucc.new bytes = .ok pb →
    (ch.charHero.getEntity id).isSome → (ch'.charHero.getEntity id).isSome →
    ∃ c', onReceiveLogin malformed c bytes = .error c' ∧ c'.formations = c.formations ∧ c'.equipMap = c.equipMap
      ∧ ∀ type : EMoney, c'.getResCount type.getValue = ch'.resourceMap type

theorem mem_heroEntries {id : Int64} (h : (ch.charHero.getEntity id).isSome)
    : id ∈ ((ch.charHero.entities.map (heroMessage details)).map heroEntry).map Prod.fst := by
  obtain ⟨hero, hhero⟩ := Option.isSome_iff_exists.mp h
  obtain ⟨hmem, hid⟩ := EntityStorage.getEntity_eq_some.mp hhero
  rw [heroEntries_eq, List.map_map, ← hid]
  exact List.mem_map_of_mem (f := Prod.fst ∘ fun hero => (getEntityId hero, shownHero details hero)) hmem

/-- Whatever logins follow, what a client has been shown of its heroes stays, and later logins fail. -/
theorem stale_of_logins {malformed : Malformed} (hshows : Shows details ch c) (logins : List (List UInt8))
    : Stale malformed details ch (logins.foldl (received malformed) c) := by
  have hkeeps := foldl_received_keeps malformed c logins
  refine ⟨fun id hero hhero => ?_, fun id equip hequip => ?_, fun details' ch' pb bytes id hsucc hbytes hold hnew => ?_⟩
  . have hshown := hshows.heroes id
    rw [hhero] at hshown
    exact Dictionary.get?_of_front hkeeps.heroes hshown
  . have hshown := hshows.equips id
    rw [hequip] at hshown
    exact Dictionary.get?_of_front hkeeps.equips hshown
  . obtain ⟨name, battleScore, partners, battleFormation, -, -, -, -, hpb⟩ := loginSucc_spec hsucc
    obtain ⟨hero, hhero⟩ := Option.isSome_iff_exists.mp hold
    have hshown := hshows.heroes id
    rw [hhero] at hshown
    have hmem : (id, shownHero details hero) ∈ (logins.foldl (received malformed) c).heroMap.entries :=
      hkeeps.heroes.subset (Dictionary.get?_eq_some.mp hshown)
    have hlist : id ∈ (pb.heroList.map heroEntry).map Prod.fst := by
      rw [hpb]
      exact mem_heroEntries hnew
    obtain ⟨heroMap, hthrow⟩ := initFromLoginData_of_known (List.mem_map_of_mem (f := Prod.fst) hmem) hlist
    refine ⟨{ (logins.foldl (received malformed) c).withResources pb with heroMap := heroMap }, ?_, rfl, rfl,
      getResCount_withResources (logins.foldl (received malformed) c) hsucc⟩
    rw [onReceiveLogin, hbytes]
    exact hthrow

theorem stale_of_logins_oneHero
    : ∃ c bytes, Shows oneDetails oneHero c
        ∧ Stale (fun _ => "") oneDetails oneHero (received (fun _ => "") c bytes) := by
  obtain ⟨pb, bytes, hsucc, hbytes⟩ := exists_oneHero
  obtain ⟨c, -, hshows⟩ := (initFromLoginData_loginSucc hsucc (c := start) rfl rfl).1 fits_oneHero
  exact ⟨c, bytes, hshows, stale_of_logins hshows [bytes]⟩

end Client

end WzGame
