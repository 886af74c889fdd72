import WzGame.Chr.RyCharacter
import WzGame.Util.Runs
import Mathlib.Data.List.Count

/-!
This module contains what becomes of the slots of a formation as heroes are added to it. Both of its arrays are
seen as slots of one kind: `heroOf` is the hero in a slot, and `none` for a free one.
-/

namespace WzGame

open Runs

namespace CharFormation

-- `none` is the exception for an array that is `null`. Neither loop stops at the slot it fills.
def addHeroIntoFormation (charFormation : CharFormation) (hero : HeroEntity) : Option CharFormation := do
  let formations ← charFormation.formations
  let battleFormation ← charFormation.battleFormation
  some { charFormation with
    formations := some (formations.map fun formation =>
      if formation = none then some (.new hero.entityId) else formation)
    battleFormation := some (battleFormation.map fun id => if id = 0 then hero.entityId else id) }

section Slots

variable {α : Type} (heroOf : α → Option Int64)

def fillFree (x : α) (slots : List α) : List α := slots.map fun y => if heroOf y = none then x else y

def freeSlots (slots : List α) : Nat := slots.countP fun x => heroOf x = none

/--
What is expected of the slots after the additions `added`, each of which is a hero and the slots it found: no
hero is in two of them, those that were taken are unchanged, and a hero that found a free one is in exactly one.
-/
structure SlotsHold (added : List (Int64 × List α)) (slots : List α) : Prop where
  noTwice : (slots.filterMap heroOf).Nodup
  kept : ∀ a ∈ added, ∀ (i : Nat) (x : α), a.2[i]? = some x → heroOf x ≠ none → slots[i]? = some x
  occupies : ∀ a ∈ added, (∃ x ∈ a.2, heroOf x = none) → (slots.filterMap heroOf).count a.1 = 1

variable {heroOf : α → Option Int64} {x : α} {id id' : Int64} {slots : List α} {added : List (Int64 × List α)}

theorem count_fillFree (hx : heroOf x = some id)
    : ((fillFree heroOf x slots).filterMap heroOf).count id'
        =
      (slots.filterMap heroOf).count id' + if id = id' then freeSlots heroOf slots else 0 := by
  induction slots with
  | nil => simp [fillFree, freeSlots]
  | cons y slots ih =>
    simp only [fillFree, freeSlots, List.map_cons] at ih ⊢
    cases hy : heroOf y with
    | none =>
      rw [if_pos rfl, List.filterMap_cons_some hx, List.filterMap_cons_none hy, List.count_cons, ih]
      by_cases hid : id = id'
      . simp [hid, hy]
        omega
      . simp [hid]
    | some id'' =>
      rw [if_neg (by simp), List.filterMap_cons_some hy, List.filterMap_cons_some hy, List.count_cons,
        List.count_cons, ih]
      simp [hy]
      omega

theorem freeSlots_pos (hfree : ∃ y ∈ slots, heroOf y = none) : 0 < freeSlots heroOf slots := by
  simpa [freeSlots, List.countP_pos_iff] using hfree

theorem getElem?_fillFree {y : α} {i : Nat} (hy : slots[i]? = some y) (htaken : heroOf y ≠ none)
    : (fillFree heroOf x slots)[i]? = some y := by
  simp [fillFree, hy, htaken]

theorem mem_fillFree (hx : heroOf x = some id) (h : id' ∈ (fillFree heroOf x slots).filterMap heroOf)
    : id' ∈ slots.filterMap heroOf ∨ id' = id := by
  obtain ⟨y, hy, hid'⟩ := List.mem_filterMap.mp h
  obtain ⟨z, hz, rfl⟩ := List.mem_map.mp hy
  split at hid'
  . rw [hx] at hid'
    exact .inr (Option.some.inj hid').symm
  . exact .inl (List.mem_filterMap.mpr ⟨z, hz, hid'⟩)

theorem slotsHold_fillFree_iff (h : SlotsHold heroOf added slots) (hx : heroOf x = some id)
    (hnew : ∀ a ∈ added, a.1 ≠ id) (hout : id ∉ slots.filterMap heroOf)
    : SlotsHold heroOf (added ++ [(id, slots)]) (fillFree heroOf x slots) ↔ freeSlots heroOf slots ≤ 1 := by
  have hcount : ((fillFree heroOf x slots).filterMap heroOf).count id = freeSlots heroOf slots := by
    rw [count_fillFree hx, if_pos rfl, List.count_eq_zero_of_not_mem hout, Nat.zero_add]
  have hother : ∀ id' ≠ id, ((fillFree heroOf x slots).filterMap heroOf).count id'
      = (slots.filterMap heroOf).count id' := by
    intro id' hid'
    rw [count_fillFree hx, if_neg (Ne.symm hid'), Nat.add_zero]
  constructor
  . intro hafter
    rw [← hcount]
    exact List.nodup_iff_count_le_one.mp hafter.noTwice id
  . intro hfree
    constructor
    . apply List.nodup_iff_count_le_one.mpr
      intro id'
      by_cases hid' : id' = id
      . rw [hid', hcount]
        exact hfree
      . rw [hother id' hid']
        exact List.nodup_iff_count_le_one.mp h.noTwice id'
    . intro a ha i y hy htaken
      rcases List.mem_append.mp ha with ha | ha
      . exact getElem?_fillFree (h.kept a ha i y hy htaken) htaken
      . obtain rfl := List.mem_singleton.mp ha
        exact getElem?_fillFree hy htaken
    . intro a ha hfound
      rcases List.mem_append.mp ha with ha | ha
      . rw [hother _ (hnew a ha)]
        exact h.occupies a ha hfound
      . obtain rfl := List.mem_singleton.mp ha
        rw [hcount]
        exact Nat.le_antisymm hfree (freeSlots_pos hfound)

theorem filterMap_set_free {i : Nat} (hfree : ∀ y ∈ slots, heroOf y = none) (hi : i < slots.length)
    (hx : heroOf x = some id)
    : (slots.set i x).filterMap heroOf = [id] := by
  rw [List.set_eq_take_append_cons_drop, if_pos hi, List.filterMap_append, List.filterMap_cons_some hx,
    List.filterMap_eq_nil_iff.mpr fun y hy => hfree y (List.mem_of_mem_take hy),
    List.filterMap_eq_nil_iff.mpr fun y hy => hfree y (List.mem_of_mem_drop hy), List.nil_append]

theorem slotsHold_set_free {i : Nat} (hfree : ∀ y ∈ slots, heroOf y = none) (hi : i < slots.length)
    (hx : heroOf x = some id)
    : SlotsHold heroOf [(id, slots)] (slots.set i x) := by
  constructor
  . rw [filterMap_set_free hfree hi hx]
    exact List.nodup_singleton id
  . intro a ha j y hy htaken
    obtain rfl := List.mem_singleton.mp ha
    exact absurd (hfree y (List.mem_of_getElem? hy)) htaken
  . intro a ha _
    obtain rfl := List.mem_singleton.mp ha
    rw [filterMap_set_free hfree hi hx]
    exact List.count_singleton_self

end Slots

-- the hero in a slot of `formations`, where a free one is `null`
def formationHero (formation : Option Formation) : Option Int64 := formation.map Formation.heroId

def battleHero (id : Int64) : Option Int64 := if id = 0 then none else some id

def formationSlots (charFormation : CharFormation) : List (Option Formation) :=
  charFormation.formations.getD []

def battleSlots (charFormation : CharFormation) : List Int64 := charFormation.battleFormation.getD []

def Empty (charFormation : CharFormation) : Prop :=
  (∀ y ∈ charFormation.formationSlots, formationHero y = none)
    ∧ ∀ y ∈ charFormation.battleSlots, battleHero y = none

structure History where
  charFormation : CharFormation
  added : List (HeroEntity × CharFormation)
deriving DecidableEq

namespace History

variable {s s' s₀ : History} {empty : CharFormation} {hero : HeroEntity} {heroes : List HeroEntity}

def start (empty : CharFormation) (hero : HeroEntity) : Option History :=
  (empty.addFirstHero hero).map fun charFormation => ⟨charFormation, [(hero, empty)]⟩

def IsNew (s : History) (hero : HeroEntity) : Prop :=
  hero.entityId ≠ 0 ∧ ∀ a ∈ s.added, a.1.entityId ≠ hero.entityId

instance : Decidable (s.IsNew hero) := inferInstanceAs (Decidable (_ ∧ _))

def step (s : History) (hero : HeroEntity) : Option History :=
  if s.IsNew hero then
    (s.charFormation.addHeroIntoFormation hero).map fun charFormation =>
      ⟨charFormation, s.added ++ [(hero, s.charFormation)]⟩
  else
    none

def formationAdded (s : History) : List (Int64 × List (Option Formation)) :=
  s.added.map fun a => (a.1.entityId, a.2.formationSlots)

def battleAdded (s : History) : List (Int64 × List Int64) :=
  s.added.map fun a => (a.1.entityId, a.2.battleSlots)

def Holds (s : History) : Prop :=
  SlotsHold formationHero s.formationAdded s.charFormation.formationSlots
    ∧ SlotsHold battleHero s.battleAdded s.charFormation.battleSlots

def OneFree (s : History) (_ : HeroEntity) : Prop :=
  freeSlots formationHero s.charFormation.formationSlots ≤ 1
    ∧ freeSlots battleHero s.charFormation.battleSlots ≤ 1

instance : Decidable (s.OneFree hero) := inferInstanceAs (Decidable (_ ∧ _))

def Inv (s : History) : Prop :=
  (∀ id ∈ s.charFormation.formationSlots.filterMap formationHero, ∃ a ∈ s.added, a.1.entityId = id)
    ∧ ∀ id ∈ s.charFormation.battleSlots.filterMap battleHero, ∃ a ∈ s.added, a.1.entityId = id

theorem step_cases (hstep : s.step hero = some s')
    : s.IsNew hero ∧ s'.added = s.added ++ [(hero, s.charFormation)]
        ∧ s'.charFormation.formationSlots
          = fillFree formationHero (some (.new hero.entityId)) s.charFormation.formationSlots
        ∧ s'.charFormation.battleSlots = fillFree battleHero hero.entityId s.charFormation.battleSlots := by
  rw [step] at hstep
  split at hstep
  . next hnew =>
    obtain ⟨charFormation, hadd, rfl⟩ := Option.map_eq_some_iff.mp hstep
    obtain ⟨formations, hformations, hadd⟩ := Option.bind_eq_some_iff.mp hadd
    obtain ⟨battleFormation, hbattle, hadd⟩ := Option.bind_eq_some_iff.mp hadd
    obtain rfl := Option.some.inj hadd
    refine ⟨hnew, rfl, ?_, ?_⟩
    . simp [formationSlots, hformations, fillFree, formationHero]
    . simp [battleSlots, hbattle, fillFree, battleHero]
  . contradiction

theorem start_cases (hstart : start empty hero = some s₀)
    : s₀.added = [(hero, empty)]
        ∧ (0 < empty.formationSlots.length
          ∧ s₀.charFormation.formationSlots = empty.formationSlots.set 0 (some (.new hero.entityId)))
        ∧ 1 < empty.battleSlots.length
        ∧ s₀.charFormation.battleSlots = empty.battleSlots.set 1 hero.entityId := by
  obtain ⟨charFormation, hadd, rfl⟩ := Option.map_eq_some_iff.mp hstart
  obtain ⟨formations, hformations, hadd⟩ := Option.bind_eq_some_iff.mp hadd
  obtain ⟨battleFormation, hbattle, hadd⟩ := Option.bind_eq_some_iff.mp hadd
  split at hadd
  . next hlengths =>
    obtain rfl := Option.some.inj hadd
    simp [formationSlots, battleSlots, hformations, hbattle, hlengths]
  . contradiction

theorem formationHero_new (id : Int64) : formationHero (some (.new id)) = some id := rfl

theorem battleHero_of_ne_zero {id : Int64} (hid : id ≠ 0) : battleHero id = some id := if_neg hid

theorem inv_start (hempty : empty.Empty) (hid : hero.entityId ≠ 0) (hstart : start empty hero = some s₀)
    : s₀.Inv ∧ s₀.Holds := by
  obtain ⟨hadded, ⟨hformationLength, hformation⟩, hbattleLength, hbattle⟩ := start_cases hstart
  constructor
  . rw [Inv, hformation, hbattle, filterMap_set_free hempty.1 hformationLength (formationHero_new _),
      filterMap_set_free hempty.2 hbattleLength (battleHero_of_ne_zero hid), hadded]
    simp
  . rw [Holds, formationAdded, battleAdded, hformation, hbattle, hadded]
    exact ⟨slotsHold_set_free hempty.1 hformationLength (formationHero_new _),
      slotsHold_set_free hempty.2 hbattleLength (battleHero_of_ne_zero hid)⟩

theorem inv_step (h : s.Inv) (hstep : s.step hero = some s') : s'.Inv := by
  obtain ⟨hnew, hadded, hformation, hbattle⟩ := step_cases hstep
  have hafter : ∀ id, (∃ a ∈ s.added, a.1.entityId = id) ∨ id = hero.entityId
      → ∃ a ∈ s'.added, a.1.entityId = id := by
    rw [hadded]
    rintro id (⟨a, ha, hid⟩ | rfl)
    . exact ⟨a, List.mem_append_left _ ha, hid⟩
    . exact ⟨(hero, s.charFormation), by simp, rfl⟩
  constructor
  . intro id hid
    rw [hformation] at hid
    exact hafter id ((mem_fillFree (formationHero_new _) hid).imp_left (h.1 id))
  . intro id hid
    rw [hbattle] at hid
    exact hafter id ((mem_fillFree (battleHero_of_ne_zero hnew.1) hid).imp_left (h.2 id))

theorem holds_step_iff (hinv : s.Inv) (h : s.Holds) (hstep : s.step hero = some s')
    : s'.Holds ↔ s.OneFree hero := by
  obtain ⟨⟨hid, hnew⟩, hadded, hformation, hbattle⟩ := step_cases hstep
  have hout : ∀ id, (∃ a ∈ s.added, a.1.entityId = id) → id ≠ hero.entityId := by
    rintro _ ⟨a, ha, rfl⟩
    exact hnew a ha
  rw [Holds, OneFree, formationAdded, battleAdded, hadded, hformation, hbattle, List.map_append,
    List.map_append]
  apply and_congr
  . apply slotsHold_fillFree_iff h.1 (formationHero_new _)
    . exact List.forall_mem_map.mpr hnew
    . exact fun hmem => hout _ (hinv.1 _ hmem) rfl
  . apply slotsHold_fillFree_iff h.2 (battleHero_of_ne_zero hid)
    . exact List.forall_mem_map.mpr hnew
    . exact fun hmem => hout _ (hinv.2 _ hmem) rfl

/-- The slots are as expected all along exactly if no hero but the first one finds two free slots. -/
theorem slotsHold_iff (hempty : empty.Empty) (hid : hero.entityId ≠ 0) (hstart : start empty hero = some s₀)
    : Run (stepOf step) (fun s _ => s.Holds) s₀ heroes s ∧ s.Holds ↔ Run (stepOf step) OneFree s₀ heroes s :=
  holds_iff Inv Holds (inv_start hempty hid hstart) (fun _ _ _ hinv _ _ => inv_step hinv)
    fun _ _ _ hinv h => holds_step_iff hinv h

def heroWithId (id : Int64) : HeroEntity := .createHeroEntity id 100001

def twoSlots : CharFormation where
  formations := some [none, none]
  partners := some []
  battleFormation := some [0, 0]

theorem slotsHold_twoSlots
    : ∃ s₀ s, start twoSlots (heroWithId 1) = some s₀
        ∧ (Run (stepOf step) (fun s _ => s.Holds) s₀ [heroWithId 2, heroWithId 3] s ∧ s.Holds) := by
  obtain ⟨s₀, hstart, hfound⟩ : ∃ s₀, start twoSlots (heroWithId 1) = some s₀
      ∧ (([heroWithId 2, heroWithId 3].foldlM
          (fun s a => if decide (OneFree s a) then step s a else none) s₀).any fun _ => True) = true := by
    exact ⟨_, rfl, by decide⟩
  obtain ⟨s, hrun, -⟩ := Run.exists_of_decide hfound
  have hempty : twoSlots.Empty := ⟨by decide, by simp [battleSlots, twoSlots, battleHero]⟩
  exact ⟨s₀, s, hstart, (slotsHold_iff hempty (by decide) hstart).mpr hrun⟩

theorem slotsHold_counterexample
    : ¬ ∀ (empty : CharFormation) (hero : HeroEntity) (heroes : List HeroEntity) (s₀ s : History),
        empty.Empty → hero.entityId ≠ 0 → start empty hero = some s₀ → Run (stepOf step) anyLabel s₀ heroes s
          → s.Holds := by
  intro hclaim
  obtain ⟨s₀, hstart, hfound⟩ : ∃ s₀, start .new (heroWithId 1) = some s₀
      ∧ ([heroWithId 2].foldlM step s₀).any
          (fun s => ¬ (s.charFormation.formationSlots.filterMap formationHero).Nodup) = true := by
    exact ⟨_, rfl, by decide⟩
  obtain ⟨s, hrun, htwice⟩ := Run.exists_of_foldlM hfound
  have hempty : CharFormation.new.Empty := ⟨by decide, by simp [battleSlots, CharFormation.new, battleHero]⟩
  exact htwice (hclaim .new _ _ s₀ s hempty (by decide) hstart hrun).1.noTwice

end History

end CharFormation

end WzGame
