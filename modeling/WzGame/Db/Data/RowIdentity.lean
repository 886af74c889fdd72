import WzGame.Db.Data.DbRecordLemmas

/-!
This module contains which rows `sameRecord` takes for one row, when their key columns hold numbers or texts that do
not read as numbers.
-/

namespace WzGame

open MapObject

namespace Value

variable {v w : Value}

def number? : Value → Option Int
  | int v => some v
  | long v => some v
  | null => none
  | bool _ => none
  | string _ => none

def Same (v w : Value) : Prop :=
  (∃ n, v.number? = some n ∧ w.number? = some n) ∨ ∃ s, v = .string s ∧ w = .string s

def IsKey (v : Value) : Prop :=
  (∃ n, v.number? = some n) ∨ ∃ s, v = .string s ∧ parseLong (trim s.toList) = none

def MinusOnes (v w : Value) : Prop := (v = .int (-1) ∧ w = .long (-1)) ∨ (v = .long (-1) ∧ w = .int (-1))

theorem IsKey.ne_null (h : v.IsKey) : v ≠ .null := by
  rintro rfl
  rcases h with ⟨n, hn⟩ | ⟨s, hs, -⟩
  . contradiction
  . contradiction

theorem keyValue_number {n : Int} (h : v.number? = some n)
    : v.keyValue = if n = -1 then .object v else .number n := by
  have hlong : v.toLong = some n := by
    cases v with
    | int | long => exact h
    | null | bool | string => contradiction
  rw [keyValue, hlong]
  rfl

theorem keyValue_string {s : String} (h : parseLong (trim s.toList) = none)
    : (string s).keyValue = .object (string s) := by
  rw [keyValue, toLong, h]
  rfl

theorem MinusOnes.number (h : v.MinusOnes w) : v.number? = some (-1) := by
  rcases h with ⟨rfl, -⟩ | ⟨rfl, -⟩ <;> rfl

theorem same_number_iff {m n : Int} (hv : v.number? = some m) (hw : w.number? = some n) : v.Same w ↔ m = n := by
  constructor
  . rintro (⟨k, hvk, hwk⟩ | ⟨s, rfl, -⟩)
    . rw [← Option.some_inj, ← hv, ← hw, hvk, hwk]
    . contradiction
  . rintro rfl
    exact .inl ⟨m, hv, hw⟩

theorem number_ne_string {n : Int} {s : String} (h : v.number? = some n)
    : v ≠ string s ∧ ¬ v.Same (string s) ∧ ¬ (string s).Same v := by
  cases v with
  | int | long => simp [Same, number?]
  | null | bool | string => contradiction

theorem eq_iff_not_minusOnes (hv : v.number? = some (-1)) (hw : w.number? = some (-1))
    : v = w ↔ ¬ v.MinusOnes w := by
  cases v <;> cases w <;> simp_all [number?, MinusOnes]

theorem keyValue_eq_iff (hv : v.IsKey) (hw : w.IsKey)
    : v.keyValue = w.keyValue ↔ v.Same w ∧ ¬ v.MinusOnes w := by
  rcases hv with ⟨m, hm⟩ | ⟨s, rfl, hs⟩
  . rw [keyValue_number hm]
    rcases hw with ⟨n, hn⟩ | ⟨t, rfl, ht⟩
    . rw [keyValue_number hn, same_number_iff hm hn]
      by_cases hm1 : m = -1 <;> by_cases hn1 : n = -1
      . rw [if_pos hm1, if_pos hn1, KeyValue.object.injEq, eq_iff_not_minusOnes (hm1 ▸ hm) (hn1 ▸ hn),
          and_iff_right (hm1.trans hn1.symm)]
      . simp [hm1, hn1, Ne.symm hn1]
      . simp [hm1, hn1]
      . have hone : ¬ v.MinusOnes w := fun h => hm1 (Option.some_inj.mp (hm.symm.trans h.number))
        simp [hm1, hn1, hone]
    . obtain ⟨hne, hsame, -⟩ := number_ne_string (s := t) hm
      rw [keyValue_string ht]
      by_cases hm1 : m = -1 <;> simp [hm1, hne, hsame]
  . rw [keyValue_string hs]
    rcases hw with ⟨n, hn⟩ | ⟨t, rfl, ht⟩
    . obtain ⟨hne, -, hsame⟩ := number_ne_string (s := s) hn
      rw [keyValue_number hn]
      by_cases hn1 : n = -1 <;> simp [hn1, Ne.symm hne, hsame]
    . rw [keyValue_string ht]
      simp [Same, MinusOnes, number?, eq_comm]

end Value

namespace MapObject

structure KeyRow (keys : List String) where
  data : MapObject
  isKey : ∀ key ∈ keys, (data.get key).IsKey

namespace KeyRow

variable {keys : List String} {a b : KeyRow keys}

def SameRecord (a b : KeyRow keys) : Prop := DbRecord.sameRecord a.data b.data keys = some true

instance : DecidableRel (@SameRecord keys) := fun _ _ => inferInstanceAs (Decidable (_ = _))

def Agree (a b : KeyRow keys) : Prop := ∀ key ∈ keys, (a.data.get key).Same (b.data.get key)

theorem sameRecord_eq (a b : KeyRow keys)
    : DbRecord.sameRecord a.data b.data keys = some (decide (rowKey keys a.data = rowKey keys b.data)) :=
  DbRecord.sameRecord_eq b.data fun key hkey => (a.isKey key hkey).ne_null

theorem sameRecord_iff_rowKey : a.SameRecord b ↔ rowKey keys a.data = rowKey keys b.data := by
  rw [SameRecord, sameRecord_eq, Option.some_inj, decide_eq_true_iff]

theorem sameRecord_iff_agree
    : a.SameRecord b ↔ a.Agree b ∧ ∀ key ∈ keys, ¬ (a.data.get key).MinusOnes (b.data.get key) := by
  rw [sameRecord_iff_rowKey, rowKey, rowKey, List.map_inj_left]
  constructor
  . intro h
    have hkey := fun key hkey => (Value.keyValue_eq_iff (a.isKey key hkey) (b.isKey key hkey)).mp (h key hkey)
    exact ⟨fun key hmem => (hkey key hmem).1, fun key hmem => (hkey key hmem).2⟩
  . rintro ⟨hagree, hones⟩ key hkey
    exact (Value.keyValue_eq_iff (a.isKey key hkey) (b.isKey key hkey)).mpr ⟨hagree key hkey, hones key hkey⟩

theorem equivalence_sameRecord : Equivalence (@SameRecord keys) where
  refl _ := sameRecord_iff_rowKey.mpr rfl
  symm h := sameRecord_iff_rowKey.mpr (sameRecord_iff_rowKey.mp h).symm
  trans h h' := sameRecord_iff_rowKey.mpr ((sameRecord_iff_rowKey.mp h).trans (sameRecord_iff_rowKey.mp h'))

/--
No comparison throws and rows are divided into classes. The rows of a class are the ones that agree in the columns
`keys`, unless it is -1 that they have there as objects of both classes.
-/
theorem sameRecord_iff (a b : KeyRow keys)
    : DbRecord.sameRecord a.data b.data keys ≠ none ∧ Equivalence (@SameRecord keys)
        ∧ ((a.SameRecord b ↔ a.Agree b)
          ↔ (a.Agree b → ∀ key ∈ keys, ¬ (a.data.get key).MinusOnes (b.data.get key))) := by
  refine ⟨by simp [sameRecord_eq], equivalence_sameRecord, ?_⟩
  rw [sameRecord_iff_agree]
  exact and_iff_left_iff_imp

def ofNumber (key : String) (v : Value) (h : ∃ n, v.number? = some n) : KeyRow [key] where
  data := Finmap.singleton key v
  isKey := by
    intro key' hkey'
    obtain rfl := List.mem_singleton.mp hkey'
    have hget : MapObject.get (Finmap.singleton key' v) key' = v := by
      rw [MapObject.get, Finmap.lookup_singleton_eq]
      rfl
    rw [hget]
    exact .inl h

theorem sameRecord_counterexample : ¬ ∀ (keys : List String) (a b : KeyRow keys), a.SameRecord b ↔ a.Agree b := by
  intro h
  have hagree : (ofNumber "player_id" (.int (-1)) ⟨-1, rfl⟩).Agree (ofNumber "player_id" (.long (-1)) ⟨-1, rfl⟩) := by
    intro key hkey
    obtain rfl := List.mem_singleton.mp hkey
    exact .inl ⟨-1, by decide, by decide⟩
  exact absurd ((h _ _ _).mpr hagree) (by decide)

end KeyRow

end MapObject

end WzGame
