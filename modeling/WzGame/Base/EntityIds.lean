import WzGame.Base.EntityCreator
import WzGame.Util.BitFields
import Mathlib.Data.List.Induction

/-!
This module contains when the ids that the logic servers make tell their type, second and server,
and when they are distinct.
-/

namespace WzGame.EntityCreator

open BitFields

section Counting

variable {α : Type} {p : α → Bool} {l : List α}

theorem exists_countP_take {n : Nat} (h : n < l.countP p)
    : ∃ (i : Nat) (a : α), l[i]? = some a ∧ p a = true ∧ (l.take i).countP p = n := by
  induction l generalizing n with
  | nil => simp at h
  | cons b l ih =>
    by_cases hb : p b = true
    . cases n with
      | zero => exact ⟨0, b, by simp, hb, by simp⟩
      | succ n =>
        rw [List.countP_cons_of_pos hb] at h
        obtain ⟨i, a, hget, ha, hcount⟩ := ih (Nat.lt_of_succ_lt_succ h)
        exact ⟨i + 1, a, by simpa using hget, ha, by simp [hb, hcount]⟩
    . rw [List.countP_cons_of_neg hb] at h
      obtain ⟨i, a, hget, ha, hcount⟩ := ih h
      exact ⟨i + 1, a, by simpa using hget, ha, by simp [hb, hcount]⟩

theorem countP_take_lt {i j : Nat} {a : α} (hij : i < j) (hget : l[i]? = some a) (ha : p a = true)
    : (l.take i).countP p < (l.take j).countP p := by
  have hsucc : (l.take (i + 1)).countP p = (l.take i).countP p + 1 := by
    simp [List.take_add_one, hget, ha]
  have hle : (l.take (i + 1)).countP p ≤ (l.take j).countP p :=
    (List.take_sublist_take_left (by omega)).countP_le
  omega

theorem countP_take_lt_countP {i : Nat} {a : α} (hget : l[i]? = some a) (ha : p a = true)
    : (l.take i).countP p < l.countP p := by
  have hlt : i < l.length := (List.getElem?_eq_some_iff.mp hget).1
  simpa using countP_take_lt (j := l.length) hlt hget ha

end Counting

variable {call call' : Call} {calls : List Call}

def idAt (call : Call) (count : Nat) : BitVec 64 :=
  (geneEntityId call.currentSecond call.serverId (fun _ => BitVec.ofNat 64 count)
    call.entityType).1

def countBefore (calls : List Call) (i : Nat) (call : Call) : Nat :=
  (calls.take i).countP fun call' => call'.SameCounter call

theorem toNat_ofNat_srem {n : Nat} (h : n < 0xffff)
    : ((BitVec.ofNat 64 n).srem 0xffff).toNat = n := by
  have hmsb : (BitVec.ofNat 64 n).msb = false := by
    rw [BitVec.msb_eq_false_iff_two_mul_lt, BitVec.toNat_ofNat]
    omega
  simp only [BitVec.srem_eq, hmsb, show (0xffff : BitVec 64).msb = false by decide,
    BitVec.toNat_umod, BitVec.toNat_ofNat, show (0xffff : BitVec 64).toNat = 0xffff by decide]
  omega

theorem toNat_signExtend {x : BitVec 32} (h : 0 ≤ x.toInt)
    : (x.signExtend 64).toNat = x.toNat := by
  have hmsb : x.msb = false := by
    rw [BitVec.msb_eq_false_iff_two_mul_lt]
    simp only [BitVec.toInt] at h
    omega
  rw [BitVec.signExtend_eq_setWidth_of_msb_false hmsb, BitVec.toNat_setWidth_of_le (by omega)]

namespace Call.WellFormed

theorem toNat_entityType (h : call.WellFormed)
    : 1 ≤ call.entityType.value.toNat ∧ call.entityType.value.toNat ≤ 127 := by
  obtain ⟨hle, hge⟩ := h.entityType
  simp only [BitVec.toInt] at hle hge
  omega

theorem toNat_currentSecond (h : call.WellFormed) : call.currentSecond.toNat < 2 ^ 31 := by
  have hnonneg := h.currentSecond
  simp only [BitVec.toInt] at hnonneg
  omega

theorem toNat_serverId (h : call.WellFormed) : call.serverId.toNat < 2 ^ 12 := by
  obtain ⟨hle, hge⟩ := h.serverId
  simp only [BitVec.toInt] at hle hge
  omega

end Call.WellFormed

theorem toNat_idAt (h : call.WellFormed) {n : Nat} (hn : n < 0xffff)
    : (idAt call n).toNat = call.entityType.value.toNat * 2 ^ 56 + call.currentSecond.toNat * 2 ^ 24
        + call.serverId.toNat * 2 ^ 12 + n := by
  obtain ⟨htype, htype'⟩ := h.toNat_entityType
  have hsecond := h.toNat_currentSecond
  have hserver := h.toNat_serverId
  have hvtype := @toNat_signExtend call.entityType.value (by have := h.entityType; omega)
  have hvsecond := toNat_signExtend h.currentSecond
  have hvserver := toNat_signExtend h.serverId.1
  have hvcount := toNat_ofNat_srem hn
  simp only [idAt, geneEntityId]
  generalize call.entityType.value.signExtend 64 = typeValue at hvtype ⊢
  generalize call.currentSecond.signExtend 64 = currentSecond at hvsecond ⊢
  generalize call.serverId.signExtend 64 = serverId at hvserver ⊢
  generalize (BitVec.ofNat 64 n).srem 0xffff = itemCount at hvcount ⊢
  have htypeSum : (0 : BitVec 64).toNat + typeValue.toNat * 2 ^ 56 < 2 ^ 64 := by
    simpa using (by omega : typeValue.toNat * 2 ^ 56 < 2 ^ 64)
  have htypeId := toNat_and_add_shiftLeft
    (by decide +kernel : ClearsOnly entityTypeMask 56 8) (by simp) htypeSum
  generalize (0 &&& entityTypeMask) + (typeValue <<< 56) = typeId at htypeId ⊢
  simp only [BitVec.ofNat_eq_ofNat, BitVec.toNat_ofNat, Nat.zero_mod, Nat.zero_add] at htypeId
  have htimeSum : typeId.toNat + currentSecond.toNat * 2 ^ 24 < 2 ^ 64 := by omega
  have htimeId := toNat_and_add_shiftLeft
    (by decide +kernel : ClearsOnly createTimeMask 24 32) (by omega) htimeSum
  generalize (typeId &&& createTimeMask) + (currentSecond <<< 24) = timeId at htimeId ⊢
  have hserverSum : timeId.toNat + serverId.toNat * 2 ^ 12 < 2 ^ 64 := by omega
  have hserverId := toNat_and_add_shiftLeft
    (by decide +kernel : ClearsOnly serverIdMask 12 12) (by omega) hserverSum
  generalize (timeId &&& serverIdMask) + (serverId <<< 12) = serversId at hserverId ⊢
  have hcountSum : serversId.toNat + itemCount.toNat * 2 ^ 0 < 2 ^ 64 := by omega
  have hcountId := toNat_and_add_shiftLeft
    (by decide +kernel : ClearsOnly entityCountMask 0 12) (by omega) hcountSum
  rw [BitVec.shiftLeft_zero] at hcountId
  omega

theorem decodes_idAt (h : call.WellFormed) {n : Nat} (hn : n < 4096)
    : call.Decodes (idAt call n) := by
  have hid := toNat_idAt h (n := n) (by omega)
  have htype := h.toNat_entityType
  have hsecond := h.toNat_currentSecond
  have hserver := h.toNat_serverId
  constructor
  all_goals
    apply BitVec.eq_of_toNat_eq
    simp only [BitVec.truncate_eq_setWidth, BitVec.toNat_setWidth, BitVec.extractLsb'_toNat, hid,
      Nat.shiftRight_eq_div_pow]
    omega

theorem not_decodes_idAt (h : call.WellFormed) : ¬ call.Decodes (idAt call 4096) := by
  intro hdecodes
  have hid := toNat_idAt h (n := 4096) (by omega)
  have hserver := congrArg BitVec.toNat hdecodes.serverId
  have hlt := h.toNat_serverId
  simp only [BitVec.truncate_eq_setWidth, BitVec.toNat_setWidth, BitVec.extractLsb'_toNat, hid,
    Nat.shiftRight_eq_div_pow] at hserver
  omega

theorem toNat_idAt_mod (h : call.WellFormed) {n : Nat} (hn : n < 4096)
    : (idAt call n).toNat % 4096 = n := by
  have hid := toNat_idAt h (n := n) (by omega)
  omega

theorem eq_of_decodes {entityId : BitVec 64} (h : call.Decodes entityId)
    (h' : call'.Decodes entityId)
    : call = call' := by
  obtain ⟨server, type, second⟩ := call
  obtain ⟨server', type', second'⟩ := call'
  have htype : type = type' := by
    cases type
    cases type'
    exact congrArg EntityType.mk (h.entityType.symm.trans h'.entityType)
  obtain rfl := htype
  obtain rfl : second = second' := h.currentSecond.symm.trans h'.currentSecond
  obtain rfl : server = server' := h.serverId.symm.trans h'.serverId
  rfl

namespace Servers

theorem run_concat : run (calls ++ [call]) = (run calls).exec call := by
  simp [run]

theorem entityCountMap_run
    : (run calls).entityCountMap call.serverId call.entityType
        = BitVec.ofNat 64 (calls.countP fun call' => call'.SameCounter call) := by
  induction calls using List.reverseRecOn with
  | nil => rfl
  | append_singleton calls last ih =>
    rw [run_concat, List.countP_append]
    simp only [exec, geneEntityId]
    by_cases hserver : call.serverId = last.serverId
    . by_cases htype : call.entityType = last.entityType
      . simp [ih, ← hserver, ← htype, Call.SameCounter, BitVec.ofNat_add]
      . simp [ih, ← hserver, htype, Ne.symm htype, Call.SameCounter]
    . simp [ih, hserver, Ne.symm hserver, Call.SameCounter]

theorem created_run
    : (run calls).created
        = calls.mapIdx fun i call => (call, idAt call (countBefore calls i call)) := by
  induction calls using List.reverseRecOn with
  | nil => rfl
  | append_singleton calls call ih =>
    have hbefore : ∀ i (h : i < calls.length),
        countBefore (calls ++ [call]) i calls[i] = countBefore calls i calls[i] := by
      intro i h
      rw [countBefore, List.take_append_of_le_length (by omega), countBefore]
    rw [run_concat, List.mapIdx_append]
    simp only [exec]
    rw [ih]
    congr 1
    . apply List.ext_getElem
      . simp
      . intro i h _
        simp [hbefore i (by simpa using h)]
    . simp [idAt, countBefore, geneEntityId, entityCountMap_run]

theorem getElem?_created {i : Nat}
    : (run calls).created[i]?
        = calls[i]?.map fun call => (call, idAt call (countBefore calls i call)) := by
  rw [created_run, List.getElem?_mapIdx]

theorem countBefore_lt
    (h : ∀ call : Call, (calls.countP fun call' => call'.SameCounter call) ≤ 4096) {i : Nat}
    (hget : calls[i]? = some call)
    : countBefore calls i call < 4096 := by
  have hlt : countBefore calls i call < calls.countP fun call' => call'.SameCounter call :=
    countP_take_lt_countP hget (by simp [Call.SameCounter])
  exact Nat.lt_of_lt_of_le hlt (h call)

theorem layout_of_le (hwf : ∀ call ∈ calls, call.WellFormed)
    (h : ∀ call : Call, (calls.countP fun call' => call'.SameCounter call) ≤ 4096)
    : (run calls).Layout := by
  intro p hp
  obtain ⟨i, hi⟩ := List.mem_iff_getElem?.mp hp
  rw [getElem?_created] at hi
  obtain ⟨call, hget, rfl⟩ := Option.map_eq_some_iff.mp hi
  exact decodes_idAt (hwf call (List.mem_of_getElem? hget)) (countBefore_lt h hget)

theorem distinct_of_le (hwf : ∀ call ∈ calls, call.WellFormed)
    (h : ∀ call : Call, (calls.countP fun call' => call'.SameCounter call) ≤ 4096)
    : (run calls).Distinct := by
  intro i j call call' entityId entityId' hij hi hj _ heq
  subst heq
  have hlayout := layout_of_le hwf h
  obtain rfl : call = call' :=
    eq_of_decodes (hlayout _ (List.mem_of_getElem? hi)) (hlayout _ (List.mem_of_getElem? hj))
  rw [getElem?_created] at hi hj
  obtain ⟨c, hgeti, hi⟩ := Option.map_eq_some_iff.mp hi
  obtain ⟨c', hgetj, hj⟩ := Option.map_eq_some_iff.mp hj
  obtain ⟨rfl, rfl⟩ := Prod.ext_iff.mp hi
  obtain ⟨rfl, hid⟩ := Prod.ext_iff.mp hj
  -- The lowest fields are the counters, and the counter of the later call is larger.
  have hc := hwf c' (List.mem_of_getElem? hgeti)
  have hcount : countBefore calls j c' = countBefore calls i c' := by
    rw [← toNat_idAt_mod hc (countBefore_lt h hgeti), ← toNat_idAt_mod hc (countBefore_lt h hgetj)]
    exact congrArg (·.toNat % 4096) hid
  have hself : decide (c'.SameCounter c') = true := by simp [Call.SameCounter]
  rcases Nat.lt_or_gt_of_ne hij with hlt | hlt
  . have := countP_take_lt (p := fun call' => call'.SameCounter c') hlt hgeti hself
    simp only [countBefore] at hcount
    omega
  . have := countP_take_lt (p := fun call' => call'.SameCounter c') hlt hgetj hself
    simp only [countBefore] at hcount
    omega

theorem not_layout_of_lt (hwf : ∀ call ∈ calls, call.WellFormed) {call : Call}
    (h : 4096 < calls.countP fun call' => call'.SameCounter call)
    : ¬ (run calls).Layout := by
  intro hlayout
  obtain ⟨i, c, hget, hsame, hcount⟩ := exists_countP_take h
  have hcount' : countBefore calls i c = 4096 := by
    obtain ⟨hserver, htype⟩ : c.SameCounter call := by simpa using hsame
    have heq : (fun call' : Call => decide (call'.SameCounter c))
        = fun call' => decide (call'.SameCounter call) := by
      funext call'
      exact decide_eq_decide.mpr (by simp [Call.SameCounter, hserver, htype])
    rw [countBefore, heq, hcount]
  apply not_decodes_idAt (hwf c (List.mem_of_getElem? hget))
  have hcreated : (run calls).created[i]? = some (c, idAt c 4096) := by
    rw [getElem?_created, hget, Option.map_some, hcount']
  exact hlayout _ (List.mem_of_getElem? hcreated)

/--
The ids tell their type, second and server and are distinct if and only if no server makes more than
4096 ids of one type.
-/
theorem layout_distinct_iff (hwf : ∀ call ∈ calls, call.WellFormed)
    : ((run calls).Layout ∧ (run calls).Distinct)
        ↔ ∀ call : Call, (calls.countP fun call' => call'.SameCounter call) ≤ 4096 := by
  constructor
  . rintro ⟨hlayout, -⟩ call
    by_contra hle
    exact not_layout_of_lt hwf (Nat.lt_of_not_le hle) hlayout
  . intro h
    exact ⟨layout_of_le hwf h, distinct_of_le hwf h⟩

theorem layout_distinct_iff_small
    : let calls : List Call := [⟨0, .hero, 1500000000⟩, ⟨0, .equip, 1500000000⟩,
        ⟨1, .hero, 1500000000⟩, ⟨0, .hero, 1500000000⟩]
      (run calls).Layout ∧ (run calls).Distinct := by
  refine (layout_distinct_iff (by decide +kernel)).mpr ?_
  intro call
  exact Nat.le_trans List.countP_le_length (by decide)

theorem layout_distinct_counterexample
    : let calls : List Call := List.replicate 4097 ⟨0, .hero, 1500000000⟩
        ++ [⟨1, .hero, 1500000000⟩]
      (∀ call ∈ calls, call.WellFormed) ∧ ¬ (run calls).Layout ∧ ¬ (run calls).Distinct := by
  intro calls
  have hwf : ∀ call ∈ calls, call.WellFormed := by
    intro call hcall
    rcases List.mem_append.mp hcall with h | h
    . rw [List.eq_of_mem_replicate h]
      decide +kernel
    . rw [List.mem_singleton.mp h]
      decide +kernel
  refine ⟨hwf, @not_layout_of_lt _ hwf ⟨0, .hero, 1500000000⟩ ?_, ?_⟩
  . simp [calls, Call.SameCounter, List.countP_replicate, -List.reduceReplicate]
  . intro hdistinct
    have hfst : (run calls).created[4096]?
        = some (⟨0, .hero, 1500000000⟩, idAt ⟨0, .hero, 1500000000⟩ 4096) := by
      simp [getElem?_created, calls, countBefore, Call.SameCounter, List.take_append,
        List.countP_replicate, -List.reduceReplicate]
    have hsnd : (run calls).created[4097]?
        = some (⟨1, .hero, 1500000000⟩, idAt ⟨1, .hero, 1500000000⟩ 0) := by
      simp [getElem?_created, calls, countBefore, Call.SameCounter, List.countP_replicate,
        -List.reduceReplicate]
    refine hdistinct 4096 4097 _ _ _ _ (by decide) hfst hsnd ?_ (by decide +kernel)
    simp

end Servers

end WzGame.EntityCreator
