import WzGame.Database.Batches

/-!
This module contains when a batch of `DBUtil` is atomic: it commits all of its statements, or throws and commits
none of them.
-/

namespace WzGame
namespace Batch

variable {ν : Type}

def outcome (steps : List (Step ν)) : Except Thrown Unit :=
  match (course steps).1 with
  | none => .ok ()
  | some thrown => .error thrown

def statements (steps : List (Step ν)) : List (Statement ν) := steps.filterMap (·.statement)

def Follows (code : Jdbc ν Unit) (steps : List (Step ν)) : Prop :=
  ∀ conn : Connection ν, conn.autoCommit = false →
    code conn = (outcome steps,
      { conn with
        pending := conn.pending ++ (course steps).2
        executed := conn.executed ++ (course steps).2 })

def deletePartSteps (env : Environment ν) (table : String) (primarykey excludes : Option (List String))
    (deletelist : Option (List (Option (Row ν)))) : List (Step ν) :=
  match deletelist, primarykey with
  | some deletelist, some primarykey =>
    if 0 < primarykey.length then deleteSteps env table primarykey excludes 0 deletelist else []
  | _, _ => []

def transactionSteps (env : Environment ν) (body : List (Step ν)) : List (Step ν) :=
  ⟨env.fault .getConnection, none⟩ :: ⟨env.fault .setAutoCommit, none⟩
    :: (body ++ [⟨env.fault .commit, none⟩])

def batchInsertOrUpdateSteps (env : Environment ν) (table : String) (primarykey : Option (List String))
    (datalist : Option (List (Option (Row ν)))) (excludes : Option (List String)) : List (Step ν) :=
  match checkRows datalist with
  | .error thrown => [⟨some ⟨thrown, false⟩, none⟩]
  | .ok rows =>
    if rows.length = 0 then [] else transactionSteps env (saveSteps env table primarykey excludes 0 rows)

def batchDeleteSteps (env : Environment ν) (table : String) (primarykey excludes : Option (List String))
    (deletelist : Option (List (Option (Row ν)))) : List (Step ν) :=
  transactionSteps env (deletePartSteps env table primarykey excludes deletelist)

def batchDeleteAndSaveSteps (env : Environment ν) (table : String) (primarykey : Option (List String))
    (datalist : Option (List (Option (Row ν)))) (excludes : Option (List String))
    (deletelist : Option (List (Option (Row ν)))) : List (Step ν) :=
  match checkRows datalist with
  | .error thrown => [⟨some ⟨thrown, false⟩, none⟩]
  | .ok rows =>
    transactionSteps env
      (deletePartSteps env table primarykey excludes deletelist ++ saveSteps env table primarykey excludes 0 rows)

-- it returns and everything is committed, or it throws and nothing is
def Atomic (steps : List (Step ν)) (batch : Except Thrown Unit × Connection ν) : Prop :=
  batch.1 = .ok () ∧ batch.2.committed = statements steps
    ∨ ∃ thrown, batch.1 = .error thrown ∧ batch.2.committed = []

-- where a step is the first one to fail, with an unchecked exception, no statement has been executed
def Safe (steps : List (Step ν)) : Prop :=
  ∀ (before : List (Step ν)) (step : Step ν) (after : List (Step ν)) (fault : Fault),
    steps = before ++ step :: after →
    (∀ earlier ∈ before, earlier.fault = none) →
    step.fault = some fault →
    fault.thrown ≠ .sqlException →
    statements before = [] ∧ (fault.executed → step.statement = none)

theorem course_nil : course ([] : List (Step ν)) = (none, []) := rfl

theorem course_append (xs ys : List (Step ν))
    : course (xs ++ ys)
        = match (course xs).1 with
          | none => ((course ys).1, (course xs).2 ++ (course ys).2)
          | some thrown => (some thrown, (course xs).2) := by
  induction xs with
  | nil => rfl
  | cons step xs ih =>
    rw [List.cons_append, course, course]
    cases hfault : step.fault with
    | some fault => rfl
    | none =>
      simp only [ih]
      cases (course xs).1 with
      | none => simp only [List.append_assoc]
      | some thrown => rfl

theorem outcome_append (xs ys : List (Step ν))
    : outcome (xs ++ ys)
        = match (course xs).1 with
          | none => outcome ys
          | some thrown => .error thrown := by
  rw [outcome, course_append]
  cases (course xs).1 with
  | none => rfl
  | some thrown => rfl

theorem course_cases (steps : List (Step ν))
    : course steps = (none, statements steps)
        ∨ ∃ before step after fault, steps = before ++ step :: after
            ∧ (∀ earlier ∈ before, earlier.fault = none) ∧ step.fault = some fault := by
  induction steps with
  | nil => exact .inl rfl
  | cons step steps ih =>
    cases hfault : step.fault with
    | some fault => exact .inr ⟨[], step, steps, fault, rfl, by simp, hfault⟩
    | none =>
      rcases ih with hall | ⟨before, step', after, fault, rfl, hbefore, hstep'⟩
      . left
        rw [course, hfault, hall]
        cases hstatement : step.statement <;> simp [statements, hstatement]
      . exact .inr ⟨step :: before, step', after, fault, rfl, by simpa [hfault] using hbefore, hstep'⟩

theorem course_fault {before after : List (Step ν)} {step : Step ν} {fault : Fault}
    (hbefore : ∀ earlier ∈ before, earlier.fault = none) (hstep : step.fault = some fault)
    : course (before ++ step :: after)
        = (some fault.thrown, statements before ++ if fault.executed then step.statement.toList else []) := by
  induction before with
  | nil => simp [course, hstep, statements]
  | cons earlier before ih =>
    obtain ⟨hearlier, hrest⟩ := List.forall_mem_cons.mp hbefore
    rw [List.cons_append, course, hearlier, ih hrest]
    cases hstatement : earlier.statement <;> simp [statements, hstatement]

theorem follows_pure : Follows (pure () : Jdbc ν Unit) [] := by
  intro conn _
  rw [course_nil, List.append_nil, List.append_nil]
  rfl

theorem bind_apply {α β : Type} (x : Jdbc ν α) (f : α → Jdbc ν β) (conn : Connection ν)
    : (x >>= f) conn
        = match x conn with
          | (.ok a, conn) => f a conn
          | (.error thrown, conn) => (.error thrown, conn) := by
  simp only [bind, ExceptT.bind, ExceptT.mk, StateT.bind, ExceptT.bindCont]
  cases x conn with
  | mk result conn => cases result <;> rfl

theorem follows_bind {x y : Jdbc ν Unit} {xs ys : List (Step ν)} (hx : Follows x xs) (hy : Follows y ys)
    : Follows (x >>= fun _ => y) (xs ++ ys) := by
  intro conn hconn
  rw [bind_apply, hx conn hconn, outcome_append, course_append, outcome]
  cases (course xs).1 with
  | none =>
    simp only [← List.append_assoc]
    exact hy _ hconn
  | some thrown => rfl

theorem follows_call (env : Environment ν) (place : Place)
    : Follows (Jdbc.call env place id) [⟨env.fault place, none⟩] := by
  intro conn _
  rw [Jdbc.call, outcome, course]
  cases env.fault place with
  | none => simp [course_nil]
  | some fault => simp

theorem follows_execute (env : Environment ν) (place : Place) (statement : Statement ν)
    : Follows (Jdbc.execute env place statement) [⟨env.fault place, some statement⟩] := by
  intro conn hconn
  rw [Jdbc.execute, outcome, course]
  cases env.fault place with
  | none => simp [Connection.execute, course_nil, hconn]
  | some fault =>
    cases hexecuted : fault.executed with
    | false => simp [hexecuted]
    | true => simp [Connection.execute, hexecuted, hconn]

theorem follows_throw (thrown : Thrown) (steps : List (Step ν))
    : Follows (throw thrown : Jdbc ν Unit) (⟨some ⟨thrown, false⟩, none⟩ :: steps) := by
  intro conn _
  rw [outcome, course]
  simp only [Bool.false_eq_true, if_false, List.append_nil]
  rfl

theorem follows_deleteRows (env : Environment ν) (table : String) (primarykey : List String)
    (excludes : Option (List String)) (idx : Nat) (deletelist : List (Option (Row ν)))
    : Follows (deleteRows env table primarykey excludes idx deletelist)
        (deleteSteps env table primarykey excludes idx deletelist) := by
  induction deletelist generalizing idx with
  | nil => exact follows_pure
  | cons data rest ih =>
    cases data with
    | none => exact follows_throw .uncheckedException _
    | some data =>
      rw [deleteRows, deleteSteps]
      split
      . exact follows_bind (follows_execute env _ _) (ih (idx + 1))
      . exact follows_bind follows_pure (ih (idx + 1))

theorem follows_saveRows (env : Environment ν) (table : String) (primarykey excludes : Option (List String))
    (idx : Nat) (datalist : List (Row ν))
    : Follows (saveRows env table primarykey excludes idx datalist)
        (saveSteps env table primarykey excludes idx datalist) := by
  induction datalist generalizing idx with
  | nil => exact follows_pure
  | cons data rest ih =>
    rw [saveRows, saveSteps, exists', bind_assoc]
    simp only [pure_bind]
    show Follows _ ([⟨env.fault (.exists' idx), none⟩] ++ (_ ++ _))
    refine follows_bind (follows_call env _) ?_
    rw [saveStatement]
    split
    . exact follows_bind (follows_execute env _ _) (ih (idx + 1))
    . cases DBUtil.insertInto table data excludes with
      | none => exact follows_bind follows_pure (ih (idx + 1))
      | some statement => exact follows_bind (follows_execute env _ _) (ih (idx + 1))

theorem follows_deletePart (env : Environment ν) (table : String) (primarykey excludes : Option (List String))
    (deletelist : Option (List (Option (Row ν))))
    : Follows (deletePart env table primarykey excludes deletelist)
        (deletePartSteps env table primarykey excludes deletelist) := by
  cases deletelist with
  | none => exact follows_pure
  | some deletelist =>
    cases primarykey with
    | none => exact follows_pure
    | some primarykey =>
      rw [deletePart, deletePartSteps]
      split
      . exact follows_deleteRows env table primarykey excludes 0 deletelist
      . exact follows_pure

def closed (steps : List (Step ν)) : Except Thrown Unit × Connection ν :=
  (outcome steps,
    ⟨true, [], if (course steps).1 = some .sqlException then [] else (course steps).2, (course steps).2⟩)

theorem transaction_eq (env : Environment ν) {body : Jdbc ν Unit} {steps : List (Step ν)}
    (hbody : Follows body steps)
    : transaction env body = closed (transactionSteps env steps) := by
  rw [transaction, closed, transactionSteps, outcome, course]
  cases env.fault .getConnection with
  | some fault => simp [Connection.pooled]
  | none =>
    rw [course]
    simp only [bind_apply, Jdbc.call]
    cases env.fault .setAutoCommit with
    | some fault =>
      obtain ⟨thrown, executed⟩ := fault
      cases thrown <;> simp [Connection.pooled, Connection.setAutoCommit, Connection.commit, Connection.rollback]
    | none =>
      have hrun := hbody ⟨false, [], [], []⟩ rfl
      simp only [Connection.pooled, Connection.setAutoCommit, Bool.false_eq_true, if_false, hrun, course_append]
      cases hcourse : (course steps).1 with
      | some thrown =>
        cases thrown <;> simp [outcome, hcourse, Connection.commit, Connection.rollback]
      | none =>
        rw [course]
        cases env.fault .commit with
        | none => simp [outcome, hcourse, Connection.commit, course_nil]
        | some fault =>
          obtain ⟨thrown, executed⟩ := fault
          cases thrown <;> simp [outcome, hcourse, Connection.commit, Connection.rollback]

theorem batchInsertOrUpdate_eq (env : Environment ν) (table : String) (primarykey : Option (List String))
    (datalist : Option (List (Option (Row ν)))) (excludes : Option (List String))
    : batchInsertOrUpdate env table primarykey datalist excludes
        = closed (batchInsertOrUpdateSteps env table primarykey datalist excludes) := by
  rw [batchInsertOrUpdate, batchInsertOrUpdateSteps]
  cases hrows : checkRows datalist with
  | error thrown => simp [closed, outcome, course, Connection.pooled]
  | ok rows =>
    simp only []
    split
    . simp [closed, outcome, course, Connection.pooled]
    . exact transaction_eq env (follows_saveRows env table primarykey excludes 0 rows)

theorem batchDelete_eq (env : Environment ν) (table : String) (primarykey excludes : Option (List String))
    (deletelist : Option (List (Option (Row ν))))
    : batchDelete env table primarykey excludes deletelist
        = closed (batchDeleteSteps env table primarykey excludes deletelist) :=
  transaction_eq env (follows_deletePart env table primarykey excludes deletelist)

theorem batchDeleteAndSave_eq (env : Environment ν) (table : String) (primarykey : Option (List String))
    (datalist : Option (List (Option (Row ν)))) (excludes : Option (List String))
    (deletelist : Option (List (Option (Row ν))))
    : batchDeleteAndSave env table primarykey datalist excludes deletelist
        = closed (batchDeleteAndSaveSteps env table primarykey datalist excludes deletelist) := by
  rw [batchDeleteAndSave, batchDeleteAndSaveSteps]
  cases hrows : checkRows datalist with
  | error thrown => simp [closed, outcome, course, Connection.pooled]
  | ok rows =>
    exact transaction_eq env (follows_bind (follows_deletePart env table primarykey excludes deletelist)
      (follows_saveRows env table primarykey excludes 0 rows))

theorem closed_atomic_iff (steps : List (Step ν)) : Atomic steps (closed steps) ↔ Safe steps := by
  rcases course_cases steps with hall | ⟨before, step, after, fault, rfl, hbefore, hstep⟩
  . have hatomic : Atomic steps (closed steps) := by
      left
      simp [closed, outcome, hall]
    refine iff_of_true hatomic ?_
    intro before step after fault heq hbefore hstep _
    rw [heq, course_fault hbefore hstep] at hall
    simp at hall
  . have hcourse := @course_fault ν before after step fault hbefore hstep
    constructor
    . rintro (⟨hok, -⟩ | ⟨thrown, -, hcommitted⟩) before' step' after' fault' heq hbefore' hstep' hthrown
      . simp [closed, outcome, hcourse] at hok
      . rw [heq] at hcommitted
        simp only [closed, course_fault hbefore' hstep', Option.some.injEq, hthrown, if_false,
          List.append_eq_nil_iff] at hcommitted
        refine ⟨hcommitted.1, fun hexecuted => ?_⟩
        simpa [hexecuted] using hcommitted.2
    . intro hsafe
      refine .inr ⟨fault.thrown, by simp [closed, outcome, hcourse], ?_⟩
      by_cases hthrown : fault.thrown = .sqlException
      . simp [closed, hcourse, hthrown]
      . obtain ⟨hnone, hstatement⟩ := hsafe before step after fault rfl hbefore hstep hthrown
        cases hexecuted : fault.executed with
        | false => simp [closed, hcourse, hthrown, hnone, hexecuted]
        | true => simp [closed, hcourse, hthrown, hnone, hexecuted, hstatement hexecuted]

/-- A batch is atomic exactly if no unchecked exception is thrown when a statement has been executed. -/
theorem atomic_iff (env : Environment ν) (table : String) (primarykey : Option (List String))
    (datalist : Option (List (Option (Row ν)))) (excludes : Option (List String))
    (deletelist : Option (List (Option (Row ν))))
    : (Atomic (batchInsertOrUpdateSteps env table primarykey datalist excludes)
          (batchInsertOrUpdate env table primarykey datalist excludes)
        ↔ Safe (batchInsertOrUpdateSteps env table primarykey datalist excludes))
      ∧ (Atomic (batchDeleteSteps env table primarykey excludes deletelist)
          (batchDelete env table primarykey excludes deletelist)
        ↔ Safe (batchDeleteSteps env table primarykey excludes deletelist))
      ∧ (Atomic (batchDeleteAndSaveSteps env table primarykey datalist excludes deletelist)
          (batchDeleteAndSave env table primarykey datalist excludes deletelist)
        ↔ Safe (batchDeleteAndSaveSteps env table primarykey datalist excludes deletelist)) := by
  rw [batchInsertOrUpdate_eq, batchDelete_eq, batchDeleteAndSave_eq]
  exact ⟨closed_atomic_iff _, closed_atomic_iff _, closed_atomic_iff _⟩

def quiet : Environment ν := ⟨fun _ => none, fun _ _ => true⟩

def firstRow : Row Nat := ColumnMap.empty.put "id" (.scalar 1)

theorem atomic_counterexample
    : ¬ ∀ (env : Environment Nat) (table : String) (primarykey excludes : Option (List String))
        (deletelist : Option (List (Option (Row Nat)))),
        Atomic (batchDeleteSteps env table primarykey excludes deletelist)
          (batchDelete env table primarykey excludes deletelist) := by
  intro hevery
  rcases hevery quiet "items" (some ["id"]) none (some [some firstRow, none])
    with ⟨hok, -⟩ | ⟨thrown, -, hcommitted⟩
  . contradiction
  . contradiction

end Batch
end WzGame
