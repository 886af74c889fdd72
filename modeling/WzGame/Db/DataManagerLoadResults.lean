import WzGame.Db.DataManagerReads

/-!
This module contains what the calls of a load get when some of its queries fail.
-/

namespace WzGame

open Runs

namespace DataManager

section runs

variable [DataUtil] {s s₁ s₂ : DataManager (DbCache Nat) (MulSearch Nat)} {load : Nat}
  {charData : Option Nat} {task : LoadTask}

def Installed (s : DataManager (DbCache Nat) (MulSearch Nat)) (load : Nat) (charData : Option Nat)
    : Prop :=
  s.shared.loads.tasks[load]?.map LoadTask.phase = some (.installed charData)

def Delivers (s : DataManager (DbCache Nat) (MulSearch Nat)) (load : Nat) (charData : Option Nat)
    : Prop :=
  ∀ n call, s.shared.loads.calls[n]? = some call → call.load = some load
    → ∀ i ∈ s.shared.loads.invoked, i.call = n → i.charData = charData

/--
How a load is answered that had read the queries of `task` before its `setData` call: `s₂` is the
state after the call and `s` is any later one.
-/
structure Answered (s₂ s : DataManager (DbCache Nat) (MulSearch Nat)) (load : Nat) (task : LoadTask)
    : Prop where
  -- when a query fails, the node is released and the callers get `null`
  failed : (∃ query ∈ task.queries, query.outcome ≠ .success)
    → s₂.Installed load none ∧ s.Delivers load none
      ∧ ∀ node, s₂.dataCache.hashFind task.charId ≠ some (some node)
  -- otherwise they get the rows of all modules
  loaded : (∀ query ∈ task.queries, query.outcome = .success)
    → ∃ d, s₂.Installed load (some d) ∧ s.Delivers load (some d)
      ∧ ∀ action ∈ CharData.entries, ∃ query ∈ task.queries, query.action = action
        ∧ (s₂.shared.objs d).getModuleData action = some query.rows

variable [SqlServer] {maxSize maxClean maxNum cleanSize : Int} {db : Database} {t : Spec}
  {s₀ : DataManager (DbCache Nat) (MulSearch Nat)} {as as' : List Action}

structure ReadsInv (t : Spec) : Prop extends LoadsInv t where
  refs : Refs t
  reads : Reads t

theorem readsInv_initial : ReadsInv (.initial db) := ⟨loadsInv_initial, refs_initial, reads_initial⟩

theorem Step.readsInv {t' : Spec} {a : Action} (V : ReadsInv t) (hstep : Step maxSize maxClean t a t')
    : ReadsInv t' :=
  ⟨hstep.loadsInv V.toLoadsInv, hstep.refs V.refs, hstep.reads V.reads V.refs V.inv⟩

theorem readsInv_run {ok : Spec → Action → Prop}
    (hrun : Run (Step maxSize maxClean) ok (.initial db) as t)
    : ReadsInv t :=
  hrun.invariant ReadsInv readsInv_initial fun _ _ _ V _ hstep => hstep.readsInv V

omit [SqlServer] in
theorem delivers_of_handsOn (hR : Refines maxSize maxClean s t) (L : LoadsInv t)
    (H : HandsOn t load charData)
    : s.Delivers load charData := by
  unfold Delivers
  rw [hR.2.2]
  rintro n call hcall hload i hi rfl
  obtain ⟨call', hcall', hload'⟩ := L.results.call i hi
  obtain rfl := Option.some.inj (hcall.symm.trans hcall')
  exact H.invoked i hi (hload'.symm.trans hload)

/--
The calls of a load of a player that the cache did not hold are answered as they should if and only
if one of its queries has thrown something else than an `SQLException`, or all have succeeded.
-/
theorem answered_iff (hinit : init maxNum cleanSize db = some (true, s₀))
    (hrun : Run (stepOf step) anyLabel s₀ as s₁) (htask : s₁.shared.loads.tasks[load]? = some task)
    (hheld : task.held = false) (hset : s₁.step (.setData load) = some s₂)
    (hrun' : Run (stepOf step) anyLabel s₂ as' s)
    : Answered s₂ s load task
        ↔ (∃ query ∈ task.queries, query.outcome = .exception)
          ∨ ∀ query ∈ task.queries, query.outcome = .success := by
  obtain ⟨maxSize, t₁, hspec, hR₁⟩ :=
    exists_spec_run anyLabel (fun _ _ _ _ _ _ => trivial) hinit hrun
  obtain ⟨t₂, hset', hR₂⟩ := simulates maxSize cleanSize _ _ _ _ hR₁ trivial hset
  obtain ⟨t, hspec', hR⟩ := hrun'.simulate (simulates maxSize cleanSize)
    (fun _ _ _ _ _ => trivial) hR₂
  have V₁ := readsInv_run hspec
  have htask₁ : t₁.shared.loads.tasks[load]? = some task := by
    rw [← hR₁.2.2]
    exact htask
  obtain ⟨charData, hloaded, hinstalled, hheld₂, hobjs, H₂⟩ :=
    handsOn_setData hset' V₁.inv htask₁ (V₁.reads.pending load task htask₁ hheld)
  have V₂ := hset'.readsInv V₁
  have hinstalled : s₂.Installed load charData := by
    unfold Installed
    rw [hR₂.2.2]
    exact hinstalled
  have hdelivers : s.Delivers load charData := by
    obtain ⟨V, H⟩ := hspec'.invariant (fun t => ReadsInv t ∧ HandsOn t load charData) ⟨V₂, H₂⟩
      fun _ _ _ ⟨V, H⟩ _ hstep => ⟨hstep.readsInv V, hstep.handsOn H⟩
    exact delivers_of_handsOn hR V.toLoadsInv H
  unfold Loads.loaded at hloaded
  split at hloaded
  case h_1 hphase =>
    -- no query has ended the load
    obtain rfl := Option.some.inj hloaded
    obtain ⟨hactions, hqueries, -⟩ := V₁.reads.loading load task [] htask₁ hphase
    constructor
    . intro A
      refine .inr ?_
      by_contra hfailed
      obtain ⟨hnone, -⟩ := A.failed (by simpa using hfailed)
      unfold Installed at hnone hinstalled
      rw [hinstalled] at hnone
      simp at hnone
    . rintro (⟨query, hquery, hexception⟩ | hsuccess)
      . exact absurd hexception (hqueries query hquery).1
      . refine ⟨fun ⟨query, hquery, hne⟩ => absurd (hsuccess query hquery) hne, fun _ => ?_⟩
        refine ⟨load, hinstalled, hdelivers, ?_⟩
        intro action haction
        obtain ⟨query, hquery, rfl⟩ : ∃ query ∈ task.queries, query.action = action := by
          rw [← hactions, List.append_nil] at haction
          simpa using haction
        refine ⟨query, hquery, rfl, ?_⟩
        have hrows : query.taken = query.rows := by
          unfold Query.taken
          rw [hsuccess query hquery]
        rw [hR₂.2.2, hobjs, CharData.getModuleData_eq haction, (hqueries query hquery).2,
          DbRecord.view_map_ofData, hrows]
  case h_2 hphase =>
    obtain rfl := Option.some.inj hloaded
    obtain ⟨query, hquery, hexception⟩ := V₁.reads.failed load task htask₁ hphase
    refine iff_of_true ⟨fun _ => ⟨hinstalled, hdelivers, ?_⟩, ?_⟩ (.inl ⟨query, hquery, hexception⟩)
    . intro node hnode
      exact hheld₂.mp ((DbCache.hashFind_held hR₂.1 hnode).mp rfl) rfl
    . intro hsuccess
      rw [hsuccess query hquery] at hexception
      contradiction
  case h_3 => contradiction

theorem exists_load {check : LoadTask → DataManager (DbCache Nat) (MulSearch Nat) → Bool}
    (h : (do
      let s₁ ← (init maxNum cleanSize db).bind fun p => if p.1 then as.foldlM step p.2 else none
      let task ← s₁.shared.loads.tasks[load]?
      let s₂ ← s₁.step (.setData load)
      let _ ← as'.foldlM step s₂
      return !task.held && check task s₂) = some true)
    : ∃ s₀ s₁ s₂ s task, init maxNum cleanSize db = some (true, s₀)
        ∧ Run (stepOf step) anyLabel s₀ as s₁ ∧ s₁.shared.loads.tasks[load]? = some task
        ∧ task.held = false ∧ s₁.step (.setData load) = some s₂
        ∧ Run (stepOf step) anyLabel s₂ as' s ∧ check task s₂ = true := by
  simp only [Option.bind_eq_bind, Option.bind_eq_some_iff] at h
  obtain ⟨s₁, ⟨⟨ok, s₀⟩, hinit, hs₁⟩, task, htask, s₂, hset, s, hs, hcheck⟩ := h
  simp only [Option.pure_def, Option.some.injEq, Bool.and_eq_true, Bool.not_eq_true'] at hcheck
  cases ok with
  | false => simp at hs₁
  | true =>
    exact ⟨s₀, s₁, s₂, s, task, hinit, .of_foldlM hs₁, htask, hcheck.1, hset, .of_foldlM hs,
      hcheck.2⟩

end runs

def readPlayer (heroes : QueryOutcome) : List Action :=
  [.loadChar 7 true, .loadModule 0 .success, .loadModule 0 heroes, .loadModule 0 .success,
    .loadModule 0 .success]

def hasData (task : LoadTask) : Bool :=
  match task.phase with
  | .installed (some _) => true
  | _ => false

theorem answered_counterexample
    : ¬ ∀ [DataUtil] [SqlServer] (maxNum cleanSize : Int) (db : Database)
        (s₀ s₁ s₂ s : DataManager (DbCache Nat) (MulSearch Nat)) (as as' : List Action) (load : Nat)
        (task : LoadTask),
        init maxNum cleanSize db = some (true, s₀) → Run (stepOf step) anyLabel s₀ as s₁ →
        s₁.shared.loads.tasks[load]? = some task → task.held = false →
        s₁.step (.setData load) = some s₂ → Run (stepOf step) anyLabel s₂ as' s →
        Answered s₂ s load task := by
  intro h
  let _ : DataUtil := CommonModule.rowDigest
  let _ : SqlServer := CommonModule.numericServer
  obtain ⟨s₀, s₁, s₂, s, task, hinit, hrun, htask, hheld, hset, hrun', hcheck⟩ :=
    @exists_load _ 0 _ 0 1 (fun _ => [CommonModule.levelRow 1]) (readPlayer (.sqlException 0)) []
      (fun task s₂ => task.queries.any (·.outcome = .sqlException 0)
        && s₂.shared.loads.tasks.all hasData) (by decide +kernel)
  obtain ⟨hquery, hinstalled⟩ := Bool.and_eq_true_iff.mp hcheck
  obtain ⟨query, hquery, houtcome⟩ := List.any_eq_true.mp hquery
  obtain ⟨hnone, -⟩ := (h 0 1 _ s₀ s₁ s₂ s _ _ 0 task hinit hrun htask hheld hset hrun').failed
    ⟨query, hquery, by simp_all⟩
  obtain ⟨task₂, htask₂, hphase⟩ := Option.map_eq_some_iff.mp hnone
  have hsome := List.all_eq_true.mp hinstalled task₂ (List.mem_of_getElem? htask₂)
  simp [hasData, hphase] at hsome

theorem answered_iff_success
    : letI := CommonModule.rowDigest
      letI := CommonModule.numericServer
      ∃ s₀ s₁ s₂ s task, init 0 1 (fun _ => [CommonModule.levelRow 1]) = some (true, s₀)
        ∧ Run (stepOf step) anyLabel s₀ (readPlayer .success) s₁
        ∧ s₁.shared.loads.tasks[0]? = some task ∧ task.held = false
        ∧ s₁.step (.setData 0) = some s₂
        ∧ Run (stepOf step) anyLabel s₂ [.startCallbacks 0, .callback] s
        ∧ (Answered s₂ s 0 task ↔ (∃ query ∈ task.queries, query.outcome = .exception)
          ∨ ∀ query ∈ task.queries, query.outcome = .success) := by
  let _ : DataUtil := CommonModule.rowDigest
  let _ : SqlServer := CommonModule.numericServer
  obtain ⟨s₀, s₁, s₂, s, task, hinit, hrun, htask, hheld, hset, hrun', -⟩ :=
    @exists_load _ 0 _ 0 1 (fun _ => [CommonModule.levelRow 1]) (readPlayer .success)
      [.startCallbacks 0, .callback] (fun _ _ => true) (by decide +kernel)
  exact ⟨s₀, s₁, s₂, s, task, hinit, hrun, htask, hheld, hset, hrun',
    answered_iff hinit hrun htask hheld hset hrun'⟩

end DataManager

end WzGame
