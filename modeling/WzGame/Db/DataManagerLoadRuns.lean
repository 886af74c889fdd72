import WzGame.Db.Data.Module.CommonModuleView
import WzGame.Db.DataManagerRefine
import WzGame.Db.LoadsServed

/-!
This module contains how the callbacks of `loadChar` calls are called in any run, and what an
exception of one of them does.
-/

namespace WzGame

open Runs

namespace DataManager

section state

variable [DataUtil] {maxSize maxClean : Int} {s : DataManager (DbCache Nat) (MulSearch Nat)}
  {t : Spec}

structure LoadsInv (t : Spec) : Prop where
  inv : Loads.Inv t.queryCache t.shared.loads
  results : t.shared.loads.Results
  called : t.shared.loads.Called

def Joins (s : DataManager (DbCache Nat) (MulSearch Nat)) (charId : Int) : Prop :=
  ∃ node, s.queryCache.search charId = some (some node)

theorem joins_iff (hR : Refines maxSize maxClean s t) (charId : Int)
    : s.Joins charId ↔ t.queryCache.queue charId ≠ [] := by
  obtain ⟨-, H, -⟩ := hR
  constructor
  . rintro ⟨node, hnode⟩ hempty
    obtain ⟨b, hb, -⟩ := Option.bind_eq_some_iff.mp hnode
    rw [H.search_eq hb, MulSearch.Holds.search_none.mpr hempty] at hnode
    simp at hnode
  . intro hne
    obtain ⟨b, hb⟩ := Option.ne_none_iff_exists'.mp (H.located charId hne)
    cases hsearch : t.queryCache.search charId with
    | none => exact absurd (MulSearch.Holds.search_none.mp hsearch) hne
    | some node => exact ⟨node, by rw [H.search_eq hb, hsearch]⟩

def Released (s : DataManager (DbCache Nat) (MulSearch Nat)) : Prop :=
  ∀ load task, s.shared.loads.tasks[load]? = some task → task.phase = .done
    → (∀ n call, s.shared.loads.calls[n]? = some call → call.load = some load
        → call.callBack = true → ∃ i ∈ s.shared.loads.invoked, i.call = n)
      ∧ (s.Joins task.charId
        → ∃ load' task', s.shared.loads.Outstanding load' task' ∧ task'.charId = task.charId)

omit [DataUtil] in
theorem hasCallBack_of_call {v : Loads} {n : Nat} {call : Call} (hcall : v.calls[n]? = some call)
    : v.hasCallBack n = call.callBack := by
  unfold Loads.hasCallBack
  rw [hcall]
  rfl

theorem released_of_live (hR : Refines maxSize maxClean s t)
    (hlive : Loads.Live t.queryCache t.shared.loads)
    : s.Released := by
  have hshared := hR.2.2
  intro load task htask hdone
  rw [hshared] at htask ⊢
  constructor
  . intro n call hcall hload hback
    have hmem : n ∈ t.shared.loads.served load := by
      rw [hlive.done load task htask hdone, List.mem_filter, hasCallBack_of_call hcall]
      exact ⟨Loads.mem_waiting.mpr ⟨call, hcall, hload⟩, hback⟩
    obtain ⟨i, hi, hin⟩ := List.mem_map.mp hmem
    exact ⟨i, (List.mem_filter.mp hi).1, hin⟩
  . intro hjoins
    exact hlive.outstanding _ ((joins_iff hR _).mp hjoins)

theorem not_released_of_stuck (hR : Refines maxSize maxClean s t) (L : LoadsInv t) {charId : Int}
    (hstuck : Loads.Stuck t.queryCache t.shared.loads charId)
    : ¬ s.Released := by
  have hshared := hR.2.2
  obtain ⟨hqueue, hnone⟩ := hstuck
  intro hreleased
  -- the last load of the player has ended
  obtain ⟨load, hlast⟩ := Option.ne_none_iff_exists'.mp (L.inv.known charId hqueue)
  obtain ⟨task, htask, hchar⟩ := L.inv.lastLoad charId load hlast
  have hdone : task.phase = .done := by
    by_contra hne
    exact hnone load task ⟨htask, hne⟩ hchar
  obtain ⟨-, hjoin⟩ := hreleased load task (by rw [hshared]; exact htask) hdone
  rw [hshared, hchar] at hjoin
  obtain ⟨load', task', hout, hchar'⟩ := hjoin ((joins_iff hR charId).mpr hqueue)
  exact hnone load' task' hout hchar'

end state

section runs

variable [DataUtil] [SqlServer] {maxSize maxClean maxNum cleanSize : Int} {db : Database}
  {s s₀ : DataManager (DbCache Nat) (MulSearch Nat)} {t t' : Spec} {a : Action} {as : List Action}

def Spec.initial (db : Database) : Spec :=
  ⟨.empty, .empty, ⟨.empty, .empty, fun _ => .init 0, db, CharData.storedRows db⟩⟩

theorem refines_init (hinit : init maxNum cleanSize db = some (true, s₀))
    : ∃ maxSize, Refines maxSize cleanSize s₀ (.initial db) := by
  unfold init at hinit
  obtain ⟨⟨ok, dataCache⟩, hcache, hinit⟩ := Option.bind_eq_some_iff.mp hinit
  refine ⟨toInt (maxNum + 100), ?_⟩
  cases ok with
  | false => simp at hinit
  | true =>
    simp only [if_true, Option.pure_def, Option.some.injEq, Prod.mk.injEq] at hinit
    obtain ⟨hok, rfl⟩ := hinit
    exact ⟨DbCache.refines_init hcache, MulSearch.holds_init (Prod.ext hok rfl), rfl⟩

theorem exists_spec_run {ok : DataManager (DbCache Nat) (MulSearch Nat) → Action → Prop}
    (ok' : Spec → Action → Prop)
    (hok : ∀ maxSize s t a, Refines maxSize cleanSize s t → ok s a → ok' t a)
    (hinit : init maxNum cleanSize db = some (true, s₀)) (hrun : Run (stepOf step) ok s₀ as s)
    : ∃ maxSize t, Run (Step maxSize cleanSize) ok' (.initial db) as t
        ∧ Refines maxSize cleanSize s t := by
  obtain ⟨maxSize, hR⟩ := refines_init hinit
  have hsim : Simulates (stepOf step) ok (Step maxSize cleanSize) (Refines maxSize cleanSize) :=
    fun s t a s' hR _ hstep => simulates maxSize cleanSize s t a s' hR trivial hstep
  obtain ⟨t, hrun', hR'⟩ := hrun.simulate hsim (hok maxSize) hR
  exact ⟨maxSize, t, hrun', hR'⟩

theorem loadsInv_initial : LoadsInv (.initial db) :=
  ⟨Loads.inv_empty, Loads.results_empty, by simp [Loads.Called, Spec.initial, Loads.empty]⟩

theorem Step.loadsInv (L : LoadsInv t) (hstep : Step maxSize maxClean t a t') : LoadsInv t' :=
  ⟨hstep.loads.inv L.inv, hstep.loads.results L.inv L.results, hstep.loads.called L.inv L.called⟩

theorem loadsInv_run {ok : Spec → Action → Prop}
    (hrun : Run (Step maxSize maxClean) ok (.initial db) as t)
    : LoadsInv t :=
  hrun.invariant LoadsInv loadsInv_initial fun _ _ _ L _ hstep => hstep.loadsInv L

theorem live_run
    (hrun : Run (Step maxSize maxClean) (fun _ a => a ≠ .callbackReturns true) (.initial db) as t)
    : Loads.Live t.queryCache t.shared.loads :=
  (hrun.invariant (fun t => LoadsInv t ∧ Loads.Live t.queryCache t.shared.loads)
    ⟨loadsInv_initial, Loads.live_empty⟩ fun _ _ _ ⟨L, hlive⟩ hok hstep =>
      ⟨hstep.loadsInv L, hstep.loads.live L.inv hlive hok⟩).2

theorem stuck_run (hrun : Run (Step maxSize maxClean) anyLabel (.initial db) as t)
    (hthrew : .callbackReturns true ∈ as)
    : ∃ charId, Loads.Stuck t.queryCache t.shared.loads charId := by
  induction hrun with
  | start => simp at hthrew
  | @next as t t' a hrun _ hstep ih =>
    have I := (loadsInv_run hrun).inv
    rcases List.mem_append.mp hthrew with hbefore | hlast
    . obtain ⟨charId, hstuck⟩ := ih hbefore
      exact ⟨charId, hstep.loads.stuck I hstuck⟩
    . obtain rfl := List.mem_singleton.mp hlast
      cases hstep with
      | @throws c cs _ hcs _ _ => exact ⟨c.charId, Loads.stuck_of_throws I hcs⟩

/--
The calls of every load that has ended are served and the player is free for the next load, exactly
when no callback has thrown.
-/
theorem released_iff (hinit : init maxNum cleanSize db = some (true, s₀))
    (hrun : Run (stepOf step) anyLabel s₀ as s)
    : s.Released ↔ .callbackReturns true ∉ as := by
  constructor
  . intro hreleased hthrew
    obtain ⟨maxSize, t, hrun', hR⟩ :=
      exists_spec_run anyLabel (fun _ _ _ _ _ _ => trivial) hinit hrun
    obtain ⟨charId, hstuck⟩ := stuck_run hrun' hthrew
    exact not_released_of_stuck hR (loadsInv_run hrun') hstuck hreleased
  . intro hthrew
    have hnormal : ∀ a ∈ as, a ≠ .callbackReturns true := by
      rintro a ha rfl
      exact hthrew ha
    obtain ⟨maxSize, t, hrun', hR⟩ := exists_spec_run (fun _ a => a ≠ .callbackReturns true)
      (fun _ _ _ _ _ h => h) hinit (hrun.label hnormal)
    exact released_of_live hR (live_run hrun')

theorem exists_run
    (h : ((init maxNum cleanSize db).bind fun p =>
      if p.1 then as.foldlM step p.2 else none).isSome = true)
    : ∃ s₀ s, init maxNum cleanSize db = some (true, s₀) ∧ Run (stepOf step) anyLabel s₀ as s := by
  obtain ⟨s, hs⟩ := Option.isSome_iff_exists.mp h
  obtain ⟨⟨ok, s₀⟩, hinit, hs⟩ := Option.bind_eq_some_iff.mp hs
  cases ok with
  | false => simp at hs
  | true => exact ⟨s₀, s, hinit, .of_foldlM hs⟩

theorem exists_guarded_run {ok : DataManager (DbCache Nat) (MulSearch Nat) → Action → Bool}
    {check : DataManager (DbCache Nat) (MulSearch Nat) → Bool}
    (h : ((init maxNum cleanSize db).bind fun p =>
      if p.1 then as.foldlM (fun s a => if ok s a then step s a else none) p.2 else none).any check
        = true)
    : ∃ s₀ s, init maxNum cleanSize db = some (true, s₀)
        ∧ Run (stepOf step) (fun s a => ok s a = true) s₀ as s ∧ check s = true := by
  obtain ⟨s, hs, hcheck⟩ := (Option.any_eq_true _ _).mp h
  obtain ⟨⟨ok, s₀⟩, hinit, hs⟩ := Option.bind_eq_some_iff.mp hs
  cases ok with
  | false => simp at hs
  | true => exact ⟨s₀, s, hinit, .of_guarded hs, hcheck⟩

end runs

def loadPlayer : List Action :=
  [.loadModule 0 .success, .loadModule 0 .success, .loadModule 0 .success, .loadModule 0 .success,
    .setData 0, .startCallbacks 0]

theorem released_counterexample
    : ¬ ∀ [DataUtil] [SqlServer] (maxNum cleanSize : Int) (db : Database)
        (s₀ s : DataManager (DbCache Nat) (MulSearch Nat)) (as : List Action),
        init maxNum cleanSize db = some (true, s₀) → Run (stepOf step) anyLabel s₀ as s
          → s.Released := by
  intro h
  let _ : DataUtil := CommonModule.rowDigest
  let _ : SqlServer := CommonModule.numericServer
  obtain ⟨s₀, s, hinit, hrun⟩ := @exists_run _ _ 0 1 (fun _ => [])
    (.loadChar 7 true :: .loadChar 7 true :: loadPlayer ++ [.callback, .callbackReturns true])
    (by decide +kernel)
  obtain ⟨maxSize, t, hrun', hR⟩ :=
    exists_spec_run anyLabel (fun _ _ _ _ _ _ => trivial) hinit hrun
  obtain ⟨charId, hstuck⟩ := stuck_run hrun' (by simp)
  exact not_released_of_stuck hR (loadsInv_run hrun') hstuck (h 0 1 _ s₀ s _ hinit hrun)

theorem released_iff_twoCalls
    : letI := CommonModule.rowDigest
      letI := CommonModule.numericServer
      ∃ s₀ s, init 0 1 (fun _ => []) = some (true, s₀)
        ∧ Run (stepOf step) anyLabel s₀ (.loadChar 7 true :: .loadChar 7 true :: loadPlayer
          ++ [.callback, .callbackReturns false, .callback, .callbackReturns false, .deleteKey,
            .loadChar 7 true]) s
        ∧ (s.Released ↔ .callbackReturns true ∉ .loadChar 7 true :: .loadChar 7 true :: loadPlayer
          ++ [.callback, .callbackReturns false, .callback, .callbackReturns false, .deleteKey,
            .loadChar 7 true]) := by
  let _ : DataUtil := CommonModule.rowDigest
  let _ : SqlServer := CommonModule.numericServer
  obtain ⟨s₀, s, hinit, hrun⟩ := @exists_run _ _ 0 1 (fun _ => [])
    (.loadChar 7 true :: .loadChar 7 true :: loadPlayer
      ++ [.callback, .callbackReturns false, .callback, .callbackReturns false, .deleteKey,
        .loadChar 7 true]) (by decide +kernel)
  exact ⟨s₀, s, hinit, hrun, released_iff hinit hrun⟩

end DataManager

end WzGame
