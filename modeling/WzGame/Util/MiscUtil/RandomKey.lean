import WzGame.Util.FixedInts
import WzGame.Util.WeightedChoice

/-!
This module contains the choice of a key by the weights of a list, as `MiscUtil.randomKey` makes it.
-/

namespace WzGame

namespace MiscUtil

variable {κ : Type}

def totalWeight (list : List (κ × Int32)) : Int32 :=
  list.foldl (fun totalWeight pair => totalWeight + pair.2) 0

-- the second loop, where `none` is its end without a `return`
def selectLoop (randomNum : Int32) : Int32 → List (κ × Int32) → Option κ
  | _, [] => none
  | currentWeight, pair :: list =>
    let currentWeight := currentWeight + pair.2
    if randomNum < currentWeight then some pair.1 else selectLoop randomNum currentWeight list

-- `nextInt` is `Randomizer.nextInt`.
def randomKey (nextInt : Int32 → Int32) (list : List (Int32 × Int32)) : Int32 :=
  (selectLoop (nextInt (totalWeight list)) 0 list).getD (-1)

def selected (randomNum : Int32) (list : List (κ × Int32)) : Option Nat :=
  selectLoop randomNum 0 (list.mapIdx fun i pair => (i, pair.2))

def weights (list : List (κ × Int32)) : List Nat := list.map fun pair => pair.2.toInt.toNat

section Loops

variable {list : List (κ × Int32)}

@[simp]
theorem weights_cons (pair : κ × Int32) (list : List (κ × Int32))
    : weights (pair :: list) = pair.2.toInt.toNat :: weights list := rfl

theorem toInt_foldl (hweights : ∀ pair ∈ list, 0 ≤ pair.2.toInt) {total : Int32} (htotal : 0 ≤ total.toInt)
    (hfits : total.toInt + (weights list).sum < 2 ^ 31)
    : (list.foldl (fun totalWeight pair => totalWeight + pair.2) total).toInt
        = total.toInt + (weights list).sum := by
  induction list generalizing total with
  | nil => simp [weights]
  | cons pair list ih =>
    obtain ⟨hpair, hweights⟩ := List.forall_mem_cons.mp hweights
    rw [weights_cons, List.sum_cons] at hfits ⊢
    have hsum : (total + pair.2).toInt = total.toInt + pair.2.toInt :=
      Int32.toInt_add_of_fits (by omega) (by omega)
    rw [List.foldl_cons, ih hweights (by omega) (by omega), hsum]
    omega

theorem toInt_totalWeight (hweights : ∀ pair ∈ list, 0 ≤ pair.2.toInt) (hfits : (weights list).sum < 2 ^ 31)
    : (totalWeight list).toInt = (weights list).sum := by
  have hzero : (0 : Int32).toInt = 0 := rfl
  rw [totalWeight, toInt_foldl hweights (by decide) (by omega), hzero, Int.zero_add]

theorem selectLoop_eq {randomNum currentWeight : Int32} {r : Nat} (hweights : ∀ pair ∈ list, 0 ≤ pair.2.toInt)
    (hcurrent : 0 ≤ currentWeight.toInt) (hfits : currentWeight.toInt + (weights list).sum < 2 ^ 31)
    (hr : randomNum.toInt = currentWeight.toInt + r)
    : selectLoop randomNum currentWeight list
        = (WeightedChoice.pick (weights list) r).bind fun i => (list[i]?).map Prod.fst := by
  induction list generalizing currentWeight r with
  | nil => rfl
  | cons pair list ih =>
    obtain ⟨hpair, hweights⟩ := List.forall_mem_cons.mp hweights
    rw [weights_cons, List.sum_cons] at hfits
    have hsum : (currentWeight + pair.2).toInt = currentWeight.toInt + pair.2.toInt :=
      Int32.toInt_add_of_fits (by omega) (by omega)
    have hlt : randomNum < currentWeight + pair.2 ↔ r < pair.2.toInt.toNat := by
      rw [Int32.lt_iff_toInt_lt]
      omega
    rw [selectLoop, weights_cons, WeightedChoice.pick]
    by_cases hin : r < pair.2.toInt.toNat
    . rw [if_pos (hlt.mpr hin), if_pos hin]
      rfl
    . rw [if_neg (hlt.not.mpr hin), if_neg hin,
        @ih (currentWeight + pair.2) (r - pair.2.toInt.toNat) hweights (by omega) (by omega) (by omega),
        Option.bind_map]
      rfl

theorem selected_eq {randomNum : Int32} {r : Nat} (hweights : ∀ pair ∈ list, 0 ≤ pair.2.toInt)
    (hfits : (weights list).sum < 2 ^ 31) (hr : randomNum.toInt = r)
    : selected randomNum list = WeightedChoice.pick (weights list) r := by
  have hsame : weights (list.mapIdx fun i pair => (i, pair.2)) = weights list := by
    apply List.ext_getElem?
    intro i
    simp [weights, Option.map_map, Function.comp_def]
  have hzero : (0 : Int32).toInt = 0 := rfl
  rw [selected, @selectLoop_eq _ _ _ _ r _ (by decide) (by rw [hsame]; omega) (by omega), hsame]
  . cases hpick : WeightedChoice.pick (weights list) r with
    | none => rfl
    | some i =>
      have hi := WeightedChoice.lt_length_of_pick hpick
      rw [weights, List.length_map] at hi
      simp [hi]
  . intro pair hpair
    obtain ⟨i, hi, rfl⟩ := List.mem_mapIdx.mp hpair
    exact hweights _ (List.getElem_mem hi)

end Loops

theorem sum_toInt {list : List (κ × Int32)} (hweights : ∀ pair ∈ list, 0 ≤ pair.2.toInt)
    : (list.map fun pair => pair.2.toInt).sum = (weights list).sum := by
  induction list with
  | nil => rfl
  | cons pair list ih =>
    obtain ⟨hpair, hweights⟩ := List.forall_mem_cons.mp hweights
    rw [List.map_cons, List.sum_cons, ih hweights, weights_cons, List.sum_cons]
    omega

/--
Among the numbers below the total weight each entry has as many as its weight, and whatever `nextInt` gives for the
total weight, the key of an entry is returned whose weight is not zero.
-/
theorem randomKey_exact (list : List (Int32 × Int32)) (hweights : ∀ pair ∈ list, 0 ≤ pair.2)
    (hfits : (list.map fun pair => pair.2.toInt).sum ≤ 2 ^ 31 - 1)
    : (totalWeight list).toInt = (list.map fun pair => pair.2.toInt).sum
        ∧ (∀ i (hi : i < list.length),
          ((Finset.range (totalWeight list).toInt.toNat).filter fun r => selected (.ofNat r) list = some i).card
            = list[i].2.toInt)
        ∧ ∀ nextInt : Int32 → Int32, 0 ≤ nextInt (totalWeight list) → nextInt (totalWeight list) < totalWeight list →
          ∃ i, ∃ hi : i < list.length, selected (nextInt (totalWeight list)) list = some i ∧ list[i].2 ≠ 0
            ∧ randomKey nextInt list = list[i].1 := by
  have hnat : ∀ pair ∈ list, 0 ≤ pair.2.toInt := by
    intro pair hpair
    simpa using Int32.le_iff_toInt_le.mp (hweights pair hpair)
  rw [sum_toInt hnat] at hfits ⊢
  have htotal := toInt_totalWeight hnat (by omega)
  refine ⟨htotal, ?_, ?_⟩
  . intro i hi
    have hi' : i < (weights list).length := by simpa [weights] using hi
    have hpicked : (Finset.range (totalWeight list).toInt.toNat).filter (fun r => selected (.ofNat r) list = some i)
        = (Finset.range (weights list).sum).filter fun r => WeightedChoice.pick (weights list) r = some i := by
      rw [htotal, Int.toNat_natCast]
      apply Finset.filter_congr
      intro r hr
      rw [Finset.mem_range] at hr
      rw [selected_eq hnat (by omega) (Int32.toInt_ofNat_of_lt (by omega))]
    have hweight : (weights list)[i] = list[i].2.toInt.toNat := List.getElem_map ..
    have hle := hnat list[i] (List.getElem_mem hi)
    rw [hpicked, WeightedChoice.card_pick hi', hweight]
    omega
  . intro nextInt hle hlt
    rw [Int32.le_iff_toInt_le, Int32.toInt_zero] at hle
    rw [Int32.lt_iff_toInt_lt, htotal] at hlt
    obtain ⟨i, hi⟩ := Option.isSome_iff_exists.mp
      (@WeightedChoice.pick_isSome (weights list) (nextInt (totalWeight list)).toInt.toNat (by omega))
    have hlength := WeightedChoice.lt_length_of_pick hi
    have hweight := WeightedChoice.pos_of_pick hi
    rw [weights, List.length_map] at hlength
    refine ⟨i, hlength, ?_, ?_, ?_⟩
    . rw [selected_eq hnat (by omega) (Int.toNat_of_nonneg hle).symm, hi]
    . intro hzero
      simp [weights, hzero] at hweight
    . have hzero : (0 : Int32).toInt = 0 := rfl
      rw [randomKey, @selectLoop_eq _ _ _ _ (nextInt (totalWeight list)).toInt.toNat hnat (by decide) (by omega)
        (by omega), hi]
      simp [hlength]

def threeKeys : List (Int32 × Int32) := [(10, 0), (20, 3), (10, 2)]

theorem randomKey_threeKeys
    : ((Finset.range (totalWeight threeKeys).toInt.toNat).filter fun r =>
        selected (.ofNat r) threeKeys = some 1).card = (3 : Int) :=
  (randomKey_exact threeKeys (by simp [threeKeys]) (by decide)).2.1 1 (by decide)

end MiscUtil

end WzGame
