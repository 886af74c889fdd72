import WzGame.EventBus.ClientEventManager
import Mathlib.Algebra.GroupWithZero.Nat

/-!
This module contains when each event of the client is dispatched exactly once before it is recycled: as
long as no event is handed out that is flagged since its last life.
-/

namespace WzGame

open Runs

namespace ClientEventManager

variable {τ ρ φ : Type} [Zero τ]

/--
What happens to the event of a hash code: its lives begin with an event that is as good as new, which is
dispatched to each of its functions before it is recycled. The last life is open if it has an id.
-/
inductive Lives (mAllEvents : Nat → List (Option φ)) : List (Entry τ ρ φ) → Option Int → Prop where
  | new : Lives mAllEvents [] none
  | added {entries : List (Entry τ ρ φ)} (type : Int) :
      Lives mAllEvents entries none
      → Lives mAllEvents (entries ++ [.added { ClientEvent.fresh with mID := type }]) (some type)
  | recycled {entries : List (Entry τ ρ φ)} {type : Int} :
      Lives mAllEvents entries (some type)
      → Lives mAllEvents (entries ++ (functions mAllEvents type).map .dispatched ++ [.recycled]) none

theorem Lives.unflagged {mAllEvents : Nat → List (Option φ)} {entries : List (Entry τ ρ φ)}
    {type : Option Int} (L : Lives mAllEvents entries type) {eve : ClientEvent τ ρ}
    (h : .added eve ∈ entries)
    : eve.mDeleteFlg = false := by
  induction L with
  | new => contradiction
  | added type _ ih =>
    rcases List.mem_append.mp h with h | h
    . exact ih h
    . obtain rfl := Entry.added.inj (List.mem_singleton.mp h)
      rfl
  | recycled _ ih => exact ih (by simpa using h)

namespace State

def entriesOf (s : State τ ρ φ) (key : Int) : List (Entry τ ρ φ) :=
  (s.log.filter (·.1 = key)).map Prod.snd

def addsUnflagged (s : State τ ρ φ) : Action τ ρ → Bool
  | .addEvent _ _ => s.mEventPool.firstIdle.all fun key => !(s.event key).mDeleteFlg
  | _ => true

def AddsUnflagged (s : State τ ρ φ) (a : Action τ ρ) : Prop := s.addsUnflagged a = true

variable {mAllEvents : Nat → List (Option φ)} {s s' : State τ ρ φ} {key k : Int} {i n : Nat}
  {eve : ClientEvent τ ρ} {f : ClientEvent τ ρ → ClientEvent τ ρ}

structure Inv (mAllEvents : Nat → List (Option φ)) (s : State τ ρ φ) : Prop where
  pool : ObjectPool.Inv ⟨s.mEventPool, s.mProcessEventsList⟩ 50 maxEventCount
  supporter : s.mEventPool.supporter = some fun _ => .fresh
  unflagged : ∀ key ∈ s.mProcessEventsList, (s.event key).mDeleteFlg = false
  pending : ∀ key ∈ s.mProcessEventsList,
    Lives mAllEvents (s.entriesOf key) (some (s.event key).mID)
  recycled : ∀ key, key ∉ s.mProcessEventsList → Lives mAllEvents (s.entriesOf key) none
  idle : ∀ key eve, s.mEventPool.isIdle key = true → s.mEventPool.hashTableObjs key = some eve
    → eve = { ClientEvent.fresh with mDeleteFlg := eve.mDeleteFlg }

theorem inv_start {shrinkPoint : Int} : Inv mAllEvents (start shrinkPoint : State τ ρ φ) where
  pool := ObjectPool.inv_start (by decide)
  supporter := rfl
  unflagged := nofun
  pending := nofun
  recycled := fun _ _ => .new
  idle := nofun

theorem event_eq (h : s.mEventPool.hashTableObjs key = some eve) : s.event key = eve := by
  rw [event, h, Option.getD_some]

theorem event_modify_of_ne (h : k ≠ key) : (s.modify key f).event k = s.event k := by
  simp [event, modify, h]

theorem event_modify_self (h : s.mEventPool.hashTableObjs key = some eve)
    : (s.modify key f).event key = f eve := by
  simp [event, modify, h]

theorem Inv.exists_event (I : s.Inv mAllEvents) (hmem : key ∈ s.mProcessEventsList)
    : ∃ eve, s.mEventPool.hashTableObjs key = some eve :=
  I.pool.wf.exists_obj (I.pool.mem_keyList hmem)

variable (mAllEvents) in
def finish (s : State τ ρ φ) (key : Int) : State τ ρ φ :=
  { (s.activeFunction mAllEvents key).destoryEvent key with
    mProcessEventsList := s.mProcessEventsList.erase key }

theorem entriesOf_finish_self
    : (s.finish mAllEvents key).entriesOf key
      = s.entriesOf key ++ (functions mAllEvents (s.event key).mID).map .dispatched ++ [.recycled] := by
  simp [finish, destoryEvent, activeFunction, entriesOf, List.filter_map, Function.comp_def]

theorem entriesOf_finish_of_ne (h : k ≠ key)
    : (s.finish mAllEvents key).entriesOf k = s.entriesOf k := by
  simp [finish, destoryEvent, activeFunction, entriesOf, List.filter_map, Function.comp_def, h.symm]

theorem Inv.shrinks (I : s.Inv mAllEvents) (hmem : key ∈ s.mProcessEventsList)
    : ObjectPool.Shrinks (s.mEventPool.takeBack key) (s.mEventPool.giveBackObject key) :=
  (ObjectPool.giveBackObject_spec I.pool.wf ((I.pool.busy key).mp hmem)).2

theorem Inv.event_finish (I : s.Inv mAllEvents) (hmem : key ∈ s.mProcessEventsList)
    (hk : k ∈ s.mProcessEventsList) (hne : k ≠ key)
    : (s.finish mAllEvents key).event k = s.event k := by
  have hlent : k ∈ s.mProcessEventsList.erase key := (I.pool.lent.mem_erase_iff).mpr ⟨hne, hk⟩
  have hobjs := (I.shrinks hmem).objs k ((I.pool.giveBackObject hmem).mem_keyList hlent)
  rw [event, event]
  show ((s.mEventPool.giveBackObject key).hashTableObjs k).getD .fresh = _
  rw [hobjs]
  simp [ObjectPool.takeBack, hne]

theorem Inv.finish (I : s.Inv mAllEvents) (hmem : key ∈ s.mProcessEventsList)
    : (s.finish mAllEvents key).Inv mAllEvents where
  pool := I.pool.giveBackObject hmem
  supporter := (I.shrinks hmem).supporter.trans I.supporter
  unflagged := by
    intro k hk
    obtain ⟨hne, hk⟩ := I.pool.lent.mem_erase_iff.mp hk
    rw [I.event_finish hmem hk hne]
    exact I.unflagged k hk
  pending := by
    intro k hk
    obtain ⟨hne, hk⟩ := I.pool.lent.mem_erase_iff.mp hk
    rw [I.event_finish hmem hk hne, entriesOf_finish_of_ne hne]
    exact I.pending k hk
  recycled := by
    intro k hk
    by_cases hne : k = key
    . subst hne
      rw [entriesOf_finish_self]
      exact .recycled (I.pending k hmem)
    . rw [entriesOf_finish_of_ne hne]
      exact I.recycled k fun hk' => hk (I.pool.lent.mem_erase_iff.mpr ⟨hne, hk'⟩)
  idle := by
    intro k eve hidle hobj
    have S := I.shrinks hmem
    have hobj : (s.mEventPool.giveBackObject key).hashTableObjs k = some eve := hobj
    have hk : k ∈ (s.mEventPool.giveBackObject key).keyList :=
      ((I.pool.giveBackObject hmem).wf.objs k).mp (Option.isSome_of_eq_some hobj)
    have hstatus : (s.mEventPool.giveBackObject key).hashTableStatus k = some true :=
      ObjectPool.isIdle_iff.mp hidle
    rw [S.status k hk] at hstatus
    rw [S.objs k hk] at hobj
    by_cases hne : k = key
    . subst hne
      simp only [ObjectPool.takeBack, I.supporter, Function.update_self] at hobj
      obtain ⟨_, -, rfl⟩ := Option.map_eq_some_iff.mp hobj
      rfl
    . simp only [ObjectPool.takeBack, Function.update_of_ne hne] at hobj hstatus
      exact I.idle k eve (ObjectPool.isIdle_iff.mpr hstatus) hobj

omit [Zero τ] in
theorem poolInv_modify {list : List Int} {minNum maxNum : Int}
    (P : ObjectPool.Inv ⟨s.mEventPool, list⟩ minNum maxNum)
    : ObjectPool.Inv ⟨(s.modify key f).mEventPool, list⟩ minNum maxNum := by
  have hobjs (k : Int) : ((s.modify key f).mEventPool.hashTableObjs k).isSome
      = (s.mEventPool.hashTableObjs k).isSome := by
    by_cases hne : k = key
    . subst hne
      simp [State.modify]
    . simp [State.modify, hne]
  refine ⟨⟨P.wf.nodup, fun k => ?_, P.wf.status, P.wf.idle⟩, P.lent, P.busy, P.minObjCount,
    P.maxObjCount, P.curObjCount⟩
  rw [hobjs k]
  exact P.wf.objs k

theorem Inv.modify (I : s.Inv mAllEvents)
    (hpending : key ∈ s.mProcessEventsList
      → ∀ eve, (f eve).mID = eve.mID ∧ (f eve).mDeleteFlg = eve.mDeleteFlg)
    (hidle : key ∉ s.mProcessEventsList
      → ∀ eve, f eve = { eve with mDeleteFlg := (f eve).mDeleteFlg })
    : (s.modify key f).Inv mAllEvents := by
  have hevent {k : Int} (hk : k ∈ s.mProcessEventsList)
      : ((s.modify key f).event k).mID = (s.event k).mID
        ∧ ((s.modify key f).event k).mDeleteFlg = (s.event k).mDeleteFlg := by
    by_cases hne : k = key
    . subst hne
      obtain ⟨eve, heve⟩ := I.exists_event hk
      rw [event_modify_self heve, event_eq heve]
      exact hpending hk eve
    . rw [event_modify_of_ne hne]
      exact ⟨rfl, rfl⟩
  refine ⟨poolInv_modify I.pool, I.supporter, ?_, ?_, I.recycled, ?_⟩
  . intro k hk
    rw [(hevent hk).2]
    exact I.unflagged k hk
  . intro k hk
    rw [(hevent hk).1]
    exact I.pending k hk
  . intro k eve hidle' hobj
    by_cases hne : k = key
    . subst hne
      have hnot : k ∉ s.mProcessEventsList := by
        intro hk
        have hbusy : s.mEventPool.hashTableStatus k = some false := (I.pool.busy k).mp hk
        have hstatus : s.mEventPool.hashTableStatus k = some true := ObjectPool.isIdle_iff.mp hidle'
        rw [hstatus] at hbusy
        contradiction
      simp only [State.modify, Function.update_self] at hobj
      obtain ⟨eve', heve', rfl⟩ := Option.map_eq_some_iff.mp hobj
      rw [hidle hnot eve', I.idle k eve' hidle' heve']
    . simp only [State.modify, Function.update_of_ne hne] at hobj
      exact I.idle k eve hidle' hobj

theorem Inv.immediatelyActiveEvent (I : s.Inv mAllEvents) (hmem : key ∈ s.mProcessEventsList)
    : (s.immediatelyActiveEvent mAllEvents key).Inv mAllEvents := by
  have hnot : key ∉ (s.finish mAllEvents key).mProcessEventsList := by
    intro hk
    exact (I.pool.lent.mem_erase_iff.mp hk).1 rfl
  exact (I.finish hmem).modify (fun hk => absurd hk hnot) fun _ _ => rfl

theorem Inv.erase_eq (I : s.Inv mAllEvents) (hi : s.mProcessEventsList[i]? = some key)
    : s.mProcessEventsList.erase key = s.mProcessEventsList.eraseIdx i := by
  obtain ⟨hlt, heq⟩ := List.getElem?_eq_some_iff.mp hi
  rw [← heq]
  exact I.pool.lent.erase_getElem i hlt

theorem Inv.processEvent_eq (I : s.Inv mAllEvents) (hi : s.mProcessEventsList[i]? = some key)
    : s.processEvent mAllEvents i key = s.finish mAllEvents key := by
  have hflag := I.unflagged key (List.mem_of_getElem? hi)
  rw [State.finish, I.erase_eq hi]
  simp only [processEvent, hflag]
  rfl

theorem Inv.finish_at (I : s.Inv mAllEvents) (hi : s.mProcessEventsList[i]? = some key)
    : (s.finish mAllEvents key).mProcessEventsList.take i = s.mProcessEventsList.take i
        ∧ (s.finish mAllEvents key).mProcessEventsList.drop i = s.mProcessEventsList.drop (i + 1)
        ∧ ∀ k ∈ (s.finish mAllEvents key).mProcessEventsList,
          (s.finish mAllEvents key).event k = s.event k := by
  have hlt : i < s.mProcessEventsList.length := (List.getElem?_eq_some_iff.mp hi).1
  have hlength : (s.mProcessEventsList.take i).length = i := by
    rw [List.length_take]
    omega
  have hlist : (s.finish mAllEvents key).mProcessEventsList
      = s.mProcessEventsList.take i ++ s.mProcessEventsList.drop (i + 1) := by
    rw [← List.eraseIdx_eq_take_drop_succ, ← I.erase_eq hi]
    rfl
  refine ⟨?_, ?_, fun k hk => ?_⟩
  . rw [hlist, List.take_left' hlength]
  . rw [hlist, List.drop_left' hlength]
  . obtain ⟨hne, hk⟩ := I.pool.lent.mem_erase_iff.mp hk
    exact I.event_finish (List.mem_of_getElem? hi) hk hne

structure Leaves (mAllEvents : Nat → List (Option φ)) (s : State τ ρ φ) (keys : List Int)
    (s' : State τ ρ φ) : Prop where
  inv : s'.Inv mAllEvents
  list : s'.mProcessEventsList = keys
  event : ∀ k ∈ keys, s'.event k = s.event k

theorem Inv.checkLoop (I : s.Inv mAllEvents)
    : s.Leaves mAllEvents (s.mProcessEventsList.drop n) (s.checkLoop mAllEvents n) := by
  induction n generalizing s with
  | zero => exact ⟨I, rfl, fun _ _ => rfl⟩
  | succ n ih =>
    rw [State.checkLoop]
    split
    . next hnil =>
      have hempty : s.mProcessEventsList = [] := by
        simpa using hnil
      exact ⟨I, by simp [hempty], fun _ _ => rfl⟩
    . next key hi =>
      obtain ⟨-, hdrop, hevent⟩ := I.finish_at hi
      rw [I.processEvent_eq hi]
      obtain ⟨I', hlist, hevent'⟩ := ih (I.finish (List.mem_of_getElem? hi))
      have hkeys : (s.finish mAllEvents key).mProcessEventsList.drop n
          = s.mProcessEventsList.drop (n + 1) := by
        rw [List.drop_zero] at hdrop
        rw [hdrop, List.drop_drop, Nat.add_comm]
      rw [hkeys] at hlist hevent'
      refine ⟨I', hlist, fun k hk => ?_⟩
      rw [hevent' k hk, hevent k]
      exact List.mem_of_mem_drop (hkeys ▸ hk)

variable [LT τ] [DecidableLT τ]

variable (s) in
def keptFrom (unscaledTime : τ) (i : Nat) : List Int :=
  s.mProcessEventsList.take i ++ (s.mProcessEventsList.drop i).filter fun key =>
    unscaledTime < (s.event key).mTimeLock

theorem keptFrom_of_length_le {unscaledTime : τ} (h : s.mProcessEventsList.length ≤ i)
    : s.keptFrom unscaledTime i = s.mProcessEventsList := by
  rw [keptFrom, List.take_of_length_le h, List.drop_of_length_le h, List.filter_nil, List.append_nil]

theorem keptFrom_succ {unscaledTime : τ} (hi : s.mProcessEventsList[i]? = some key)
    (hlocked : unscaledTime < (s.event key).mTimeLock)
    : s.keptFrom unscaledTime (i + 1) = s.keptFrom unscaledTime i := by
  obtain ⟨hlt, heq⟩ := List.getElem?_eq_some_iff.mp hi
  rw [keptFrom, keptFrom, List.drop_eq_getElem_cons hlt, heq, List.filter_cons_of_pos (by simpa),
    List.take_succ_eq_append_getElem hlt, heq, List.append_assoc]
  rfl

theorem Inv.keptFrom_finish (I : s.Inv mAllEvents) {unscaledTime : τ}
    (hi : s.mProcessEventsList[i]? = some key) (hpassed : ¬ unscaledTime < (s.event key).mTimeLock)
    : (s.finish mAllEvents key).keptFrom unscaledTime i = s.keptFrom unscaledTime i := by
  obtain ⟨hlt, heq⟩ := List.getElem?_eq_some_iff.mp hi
  obtain ⟨htake, hdrop, hevent⟩ := I.finish_at hi
  have hfilter : ((s.finish mAllEvents key).mProcessEventsList.drop i).filter (fun k =>
        unscaledTime < ((s.finish mAllEvents key).event k).mTimeLock)
      = ((s.finish mAllEvents key).mProcessEventsList.drop i).filter fun k =>
        unscaledTime < (s.event k).mTimeLock := by
    apply List.filter_congr
    intro k hk
    rw [hevent k (List.mem_of_mem_drop hk)]
  rw [keptFrom, keptFrom, hfilter, htake, hdrop, List.drop_eq_getElem_cons hlt, heq,
    List.filter_cons_of_neg (by simpa)]

theorem Inv.updateLoop (I : s.Inv mAllEvents) (unscaledTime : τ) {fuel : Nat}
    (hfuel : s.mProcessEventsList.length ≤ i + fuel)
    : (s.updateLoop mAllEvents unscaledTime fuel i).Inv mAllEvents
        ∧ (s.updateLoop mAllEvents unscaledTime fuel i).mProcessEventsList
          = s.keptFrom unscaledTime i := by
  induction fuel generalizing s i with
  | zero => exact ⟨I, (keptFrom_of_length_le hfuel).symm⟩
  | succ fuel ih =>
    rw [State.updateLoop]
    split
    . next hnone => exact ⟨I, (keptFrom_of_length_le (List.getElem?_eq_none_iff.mp hnone)).symm⟩
    . next key hi =>
      have hmem := List.mem_of_getElem? hi
      split
      . next hlocked =>
        obtain ⟨I', hlist⟩ := @ih s (i + 1) I (by omega)
        exact ⟨I', hlist.trans (keptFrom_succ hi hlocked.2)⟩
      . next hpassed =>
        have hlength := List.length_erase_add_one hmem
        rw [I.processEvent_eq hi]
        obtain ⟨I', hlist⟩ := @ih (s.finish mAllEvents key) i (I.finish hmem) (by
          show (s.mProcessEventsList.erase key).length ≤ i + fuel
          omega)
        refine ⟨I', hlist.trans (I.keptFrom_finish hi ?_)⟩
        simpa [I.unflagged key hmem] using hpassed

theorem Inv.onUpdate (I : s.Inv mAllEvents) (unscaledTime : τ)
    : (s.onUpdate mAllEvents unscaledTime).Inv mAllEvents
        ∧ (s.onUpdate mAllEvents unscaledTime).mProcessEventsList
          = (s.mProcessEventsList.drop (s.mProcessEventsList.length - eventCount)).filter fun key =>
            unscaledTime < (s.event key).mTimeLock := by
  have L : s.Leaves mAllEvents _ (s.checkEventCount mAllEvents) := I.checkLoop
  obtain ⟨I', hlist⟩ := L.inv.updateLoop unscaledTime (i := 0) (Nat.le_of_eq (Nat.zero_add _).symm)
  refine ⟨I', hlist.trans ?_⟩
  rw [keptFrom, List.take_zero, List.drop_zero, List.nil_append, L.list]
  apply List.filter_congr
  intro k hk
  rw [L.event k hk]

omit [LT τ] [DecidableLT τ]

variable (s) in
def add (pool : ObjectPool (ClientEvent τ ρ)) (k type : Int) : State τ ρ φ :=
  { State.modify ⟨s.mProcessEventsList, pool, s.log⟩ k fun eve => { eve with mID := type } with
    mProcessEventsList := s.mProcessEventsList ++ [k]
    log := s.log ++ [(k, .added { ClientEvent.fresh with mID := type })] }

theorem entriesOf_add_self {pool : ObjectPool (ClientEvent τ ρ)} {type : Int}
    : (s.add pool k type).entriesOf k
      = s.entriesOf k ++ [.added { ClientEvent.fresh with mID := type }] := by
  simp [add, entriesOf]

theorem entriesOf_add_of_ne {pool : ObjectPool (ClientEvent τ ρ)} {type : Int} (h : key ≠ k)
    : (s.add pool k type).entriesOf key = s.entriesOf key := by
  simp [add, entriesOf, h.symm]

theorem Inv.add (I : s.Inv mAllEvents) {pool : ObjectPool (ClientEvent τ ρ)} (type : Int)
    (P : ObjectPool.Inv ⟨pool, s.mProcessEventsList ++ [k]⟩ 50 maxEventCount)
    (hsupporter : pool.supporter = s.mEventPool.supporter)
    (hfresh : pool.hashTableObjs k = some .fresh)
    (hother : ∀ key, key ≠ k → pool.hashTableObjs key = s.mEventPool.hashTableObjs key)
    (hidle : ∀ key, key ≠ k → pool.isIdle key = s.mEventPool.isIdle key)
    : (s.add pool k type).Inv mAllEvents := by
  have hnot : k ∉ s.mProcessEventsList := fun hk =>
    (List.nodup_append.mp P.lent).2.2 k hk k (List.mem_singleton_self k) rfl
  have hself : (s.add pool k type).event k = { ClientEvent.fresh with mID := type } := by
    simp [State.add, State.modify, event, hfresh]
  have hevent {key : Int} (hne : key ≠ k) : (s.add pool k type).event key = s.event key := by
    simp [State.add, State.modify, event, hne, hother key hne]
  refine ⟨poolInv_modify P, hsupporter.trans I.supporter, ?_, ?_, ?_, ?_⟩
  . intro key hkey
    rcases List.mem_append.mp hkey with hkey | hkey
    . rw [hevent fun heq => hnot (heq ▸ hkey)]
      exact I.unflagged key hkey
    . rw [List.mem_singleton.mp hkey, hself]
      rfl
  . intro key hkey
    rcases List.mem_append.mp hkey with hkey | hkey
    . have hne : key ≠ k := fun heq => hnot (heq ▸ hkey)
      rw [hevent hne, entriesOf_add_of_ne hne]
      exact I.pending key hkey
    . rw [List.mem_singleton.mp hkey, hself, entriesOf_add_self]
      exact .added type (I.recycled k hnot)
  . intro key hkey
    have hne : key ≠ k := by
      rintro rfl
      exact hkey (List.mem_append_right _ (List.mem_singleton_self _))
    rw [entriesOf_add_of_ne hne]
    exact I.recycled key fun hmem => hkey (List.mem_append_left _ hmem)
  . intro key eve hidle' hobj
    have hne : key ≠ k := by
      rintro rfl
      have hbusy : pool.hashTableStatus key = some false := (P.busy key).mp (by simp)
      have hstatus : pool.hashTableStatus key = some true := ObjectPool.isIdle_iff.mp hidle'
      rw [hstatus] at hbusy
      contradiction
    refine I.idle key eve ((hidle key hne).symm.trans hidle') ?_
    rw [← hother key hne]
    simpa [State.add, State.modify, hne] using hobj

theorem addEvent_eq {pool : ObjectPool (ClientEvent τ ρ)} {type : Int}
    (hrent : s.mEventPool.rentObject (some (key, .fresh)) = (pool, some (k, .fresh)))
    : s.addEvent type key = s.add pool k type := by
  rw [addEvent, hrent]
  rfl

theorem Inv.created (I : s.Inv mAllEvents) (hkey : key ∉ s.mEventPool.keyList)
    (P : ObjectPool.Inv ⟨(s.mEventPool.createOneObject (some (key, .fresh))).1, s.mProcessEventsList⟩ 50
      maxEventCount)
    : Inv mAllEvents
        { s with mEventPool := (s.mEventPool.createOneObject (some (key, .fresh))).1 } := by
  have hevent {k : Int} (hk : k ∈ s.mProcessEventsList)
      : State.event { s with mEventPool := (s.mEventPool.createOneObject (some (key, .fresh))).1 } k
        = s.event k := by
    have hne : k ≠ key := fun heq => hkey (heq ▸ I.pool.mem_keyList hk)
    simp [event, ObjectPool.createOneObject, hne]
  refine ⟨P, I.supporter, ?_, ?_, I.recycled, ?_⟩
  . intro k hk
    rw [hevent hk]
    exact I.unflagged k hk
  . intro k hk
    rw [hevent hk]
    exact I.pending k hk
  . intro k eve hidle hobj
    by_cases hne : k = key
    . subst hne
      simp only [ObjectPool.createOneObject, Function.update_self, Option.some.injEq] at hobj
      rw [← hobj]
    . rw [ObjectPool.isIdle_of_ne hne rfl] at hidle
      simp only [ObjectPool.createOneObject, Function.update_of_ne hne] at hobj
      exact I.idle k eve hidle hobj

theorem Inv.addEvent (I : s.Inv mAllEvents) {type : Int} (hkey : key ∉ s.mEventPool.keyList)
    (hok : s.AddsUnflagged (.addEvent type key))
    : (s.addEvent type key).Inv mAllEvents := by
  have P : ObjectPool.Inv ⟨(s.mEventPool.rentObject (some (key, .fresh))).1, s.mProcessEventsList
    ++ ((s.mEventPool.rentObject (some (key, .fresh))).2.map Prod.fst).toList⟩ 50 maxEventCount :=
    I.pool.rentObject hkey
  rcases ObjectPool.rentObject_cases I.pool.wf key .fresh
    with ⟨k, eve, hfirst, hobj, hrent⟩ | ⟨-, ⟨-, hrent⟩ | ⟨-, hrent⟩⟩
  . -- an event that has been recycled
    obtain ⟨-, hidle⟩ := ObjectPool.firstIdle_spec hfirst
    have hflag : eve.mDeleteFlg = false := by
      simpa [AddsUnflagged, addsUnflagged, hfirst, event_eq hobj] using hok
    obtain rfl : eve = .fresh := by
      rw [I.idle k eve hidle hobj, hflag]
      rfl
    rw [hrent] at P
    rw [addEvent_eq hrent]
    exact I.add type P rfl hobj (fun _ _ => rfl) fun _ hne => ObjectPool.isIdle_of_ne hne rfl
  . have heq : s.addEvent type key = s := by
      rw [State.addEvent, hrent]
    rwa [heq]
  . rw [hrent] at P
    split at hrent
    . next hnone =>
      have heq : s.addEvent type key
          = { s with mEventPool := (s.mEventPool.createOneObject (some (key, .fresh))).1 } := by
        rw [State.addEvent, hrent]
      rw [heq]
      rw [if_pos hnone] at P
      exact I.created hkey (by simpa using P)
    . next hsome =>
      rw [if_neg hsome] at P
      rw [addEvent_eq hrent]
      refine I.add type P rfl ?_ ?_ ?_
      . simp [ObjectPool.createOneObject, ObjectPool.lend]
      . intro k hne
        simp [ObjectPool.createOneObject, ObjectPool.lend, hne]
      . intro k hne
        simp [ObjectPool.createOneObject, ObjectPool.lend, ObjectPool.isIdle, hne]

variable [LT τ] [DecidableLT τ] [Add τ] {a : Action τ ρ}

theorem Inv.step (I : s.Inv mAllEvents) (hok : s.AddsUnflagged a)
    (h : s.step mAllEvents a = some s')
    : s'.Inv mAllEvents := by
  cases a with
  | addEvent type key =>
    simp only [State.step] at h
    split at h
    . contradiction
    . next hkey =>
      obtain rfl := Option.some.inj h
      exact I.addEvent hkey hok
  | addParameter key parameter =>
    simp only [State.step] at h
    split at h
    . next hmem =>
      obtain rfl := Option.some.inj h
      exact I.modify (fun _ _ => ⟨rfl, rfl⟩) fun hnot => absurd hmem hnot
    . contradiction
  | setTimelock key now timelock =>
    simp only [State.step] at h
    split at h
    . next hmem =>
      obtain rfl := Option.some.inj h
      exact I.modify (fun _ _ => ⟨rfl, rfl⟩) fun hnot => absurd hmem hnot
    . contradiction
  | immediatelyActiveEvent key =>
    simp only [State.step] at h
    split at h
    . next hmem =>
      obtain rfl := Option.some.inj h
      exact I.immediatelyActiveEvent hmem
    . contradiction
  | onUpdate unscaledTime =>
    obtain rfl := Option.some.inj h
    exact (I.onUpdate unscaledTime).1

end State

def registered : Nat → List (Option Nat)
  | 1 => [some 11, none, some 12]
  | 2 => [some 21]
  | _ => []

end ClientEventManager

end WzGame
