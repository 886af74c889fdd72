import Mathlib.Data.List.Induction
import Mathlib.Logic.Function.Basic

/-!
This module contains runs of a labelled transition system: which states they reach, invariants of
all of them, and simulations that carry a run of one system over to another one.
-/

namespace Runs

variable {σ τ α : Type}

/--
`Run Step ok s₀ as s`: taking the labels `as` one after another leads from `s₀` to `s`, and every
label meets `ok` in the state it is taken in.
-/
inductive Run (Step : σ → α → σ → Prop) (ok : σ → α → Prop) (s₀ : σ) : List α → σ → Prop where
  | start : Run Step ok s₀ [] s₀
  | next {as : List α} {s s' : σ} {a : α} :
      Run Step ok s₀ as s → ok s a → Step s a s' → Run Step ok s₀ (as ++ [a]) s'

def anyLabel (_ : σ) (_ : α) : Prop := True

def stepOf (step : σ → α → Option σ) (s : σ) (a : α) (s' : σ) : Prop := step s a = some s'

theorem Run.invariant {Step : σ → α → σ → Prop} {ok : σ → α → Prop} {s₀ s : σ} {as : List α}
    (I : σ → Prop) (hstart : I s₀)
    (hnext : ∀ s a s', I s → ok s a → Step s a s' → I s') (hrun : Run Step ok s₀ as s)
    : I s := by
  induction hrun with
  | start => exact hstart
  | next _ hok hstep ih => exact hnext _ _ _ ih hok hstep

theorem Run.weaken {Step : σ → α → σ → Prop} {ok ok' : σ → α → Prop} {s₀ s : σ} {as : List α}
    (hok : ∀ s a, ok s a → ok' s a) (hrun : Run Step ok s₀ as s)
    : Run Step ok' s₀ as s := by
  induction hrun with
  | start => exact .start
  | next _ h hstep ih => exact .next ih (hok _ _ h) hstep

theorem Run.label {Step : σ → α → σ → Prop} {ok : σ → α → Prop} {P : α → Prop} {s₀ s : σ}
    {as : List α} (hrun : Run Step ok s₀ as s) (hP : ∀ a ∈ as, P a)
    : Run Step (fun _ a => P a) s₀ as s := by
  induction hrun with
  | start => exact .start
  | @next as s s' a _ _ hstep ih =>
    exact .next (ih fun a' ha' => hP a' (List.mem_append_left _ ha')) (hP a (by simp)) hstep

theorem run_nil_iff {Step : σ → α → σ → Prop} {ok : σ → α → Prop} {s₀ s : σ}
    : Run Step ok s₀ [] s ↔ s = s₀ := by
  constructor
  . generalize has : ([] : List α) = as
    intro hrun
    cases hrun with
    | start => rfl
    | next => simp at has
  . rintro rfl
    exact .start

theorem run_concat_iff {Step : σ → α → σ → Prop} {ok : σ → α → Prop} {s₀ s' : σ} {as : List α}
    {a : α}
    : Run Step ok s₀ (as ++ [a]) s' ↔ ∃ s, Run Step ok s₀ as s ∧ ok s a ∧ Step s a s' := by
  constructor
  . generalize has : as ++ [a] = bs
    intro hrun
    cases hrun with
    | start => simp at has
    | next hrun hok hstep =>
      obtain ⟨rfl, heq⟩ := List.append_inj' has rfl
      obtain rfl := List.singleton_inj.mp heq
      exact ⟨_, hrun, hok, hstep⟩
  . rintro ⟨s, hrun, hok, hstep⟩
    exact .next hrun hok hstep

theorem Run.imp {Step : σ → α → σ → Prop} {ok ok' : σ → α → Prop} {s₀ s : σ} {as : List α}
    (I : σ → Prop) (hstart : I s₀) (hnext : ∀ s a s', I s → ok s a → Step s a s' → I s')
    (himp : ∀ s a s', I s → ok s a → Step s a s' → ok' s a) (hrun : Run Step ok s₀ as s)
    : Run Step ok' s₀ as s := by
  induction hrun with
  | start => exact .start
  | next hrun h hstep ih => exact .next ih (himp _ _ _ (hrun.invariant I hstart hnext) h hstep) hstep

theorem Run.congr {Step : σ → α → σ → Prop} {ok ok' : σ → α → Prop} {s₀ s : σ} {as : List α}
    (I : σ → Prop) (hstart : I s₀) (hnext : ∀ s a s', I s → Step s a s' → I s')
    (hok : ∀ s a, I s → (ok s a ↔ ok' s a))
    : Run Step ok s₀ as s ↔ Run Step ok' s₀ as s := by
  constructor
  . exact Run.imp I hstart (fun s a s' hs _ => hnext s a s' hs) fun s a _ hs h _ => (hok s a hs).mp h
  . exact Run.imp I hstart (fun s a s' hs _ => hnext s a s' hs) fun s a _ hs h _ => (hok s a hs).mpr h

theorem holds_iff {Step : σ → α → σ → Prop} {ok : σ → α → Prop} {s₀ s : σ} {as : List α} (I P : σ → Prop)
    (hstart : I s₀ ∧ P s₀) (hI : ∀ s a s', I s → P s → ok s a → Step s a s' → I s')
    (hok : ∀ s a s', I s → P s → Step s a s' → (P s' ↔ ok s a))
    : Run Step (fun s _ => P s) s₀ as s ∧ P s ↔ Run Step ok s₀ as s := by
  have hnext : ∀ s a s', I s ∧ P s → ok s a → Step s a s' → I s' ∧ P s' := fun s a s' hs ha hstep =>
    ⟨hI s a s' hs.1 hs.2 ha hstep, (hok s a s' hs.1 hs.2 hstep).mpr ha⟩
  constructor
  . rintro ⟨hrun, hlast⟩
    induction hrun with
    | start => exact .start
    | next _ hP hstep ih =>
      have hbefore := ih hP
      obtain ⟨hI', hP'⟩ := hbefore.invariant (fun s => I s ∧ P s) hstart hnext
      exact .next hbefore ((hok _ _ _ hI' hP' hstep).mp hlast) hstep
  . intro hrun
    have hlast := hrun.invariant (fun s => I s ∧ P s) hstart hnext
    exact ⟨hrun.imp (fun s => I s ∧ P s) hstart hnext fun _ _ _ hs _ _ => hs.2, hlast.2⟩

theorem Run.append {Step : σ → α → σ → Prop} {ok : σ → α → Prop} {s₀ s₁ s₂ : σ} {as bs : List α}
    (hfst : Run Step ok s₀ as s₁) (hsnd : Run Step ok s₁ bs s₂)
    : Run Step ok s₀ (as ++ bs) s₂ := by
  induction hsnd with
  | start => simpa using hfst
  | next _ hok hstep ih =>
    rw [← List.append_assoc]
    exact .next ih hok hstep

/--
`R` simulates the first system by the second one: a step out of related states whose label meets
`ok` is answered by a step under the same label into related states.
-/
def Simulates (Step : σ → α → σ → Prop) (ok : σ → α → Prop) (Step' : τ → α → τ → Prop)
    (R : σ → τ → Prop) : Prop :=
  ∀ s t a s', R s t → ok s a → Step s a s' → ∃ t', Step' t a t' ∧ R s' t'

theorem Run.simulate {Step : σ → α → σ → Prop} {Step' : τ → α → τ → Prop} {R : σ → τ → Prop}
    {ok : σ → α → Prop} {ok' : τ → α → Prop} {s₀ s : σ} {t₀ : τ} {as : List α}
    (hsim : Simulates Step ok Step' R) (hok : ∀ s t a, R s t → ok s a → ok' t a) (hR : R s₀ t₀)
    (hrun : Run Step ok s₀ as s)
    : ∃ t, Run Step' ok' t₀ as t ∧ R s t := by
  induction hrun with
  | start => exact ⟨t₀, .start, hR⟩
  | next _ h hstep ih =>
    obtain ⟨t, hrun', hRt⟩ := ih
    obtain ⟨t', hstep', hRt'⟩ := hsim _ _ _ _ hRt h hstep
    exact ⟨t', .next hrun' (hok _ _ _ hRt h) hstep', hRt'⟩

theorem Run.of_foldlM {step : σ → α → Option σ} {s₀ s : σ} {as : List α}
    (h : as.foldlM step s₀ = some s)
    : Run (stepOf step) anyLabel s₀ as s := by
  induction as using List.reverseRecOn generalizing s with
  | nil =>
    obtain rfl : s₀ = s := by simpa using h
    exact .start
  | append_singleton as a ih =>
    rw [List.foldlM_append] at h
    obtain ⟨s₁, hs₁, hlast⟩ := Option.bind_eq_some_iff.mp h
    refine .next (ih hs₁) trivial ?_
    simpa [stepOf] using hlast

theorem Run.of_guarded {step : σ → α → Option σ} {ok : σ → α → Bool} {s₀ s : σ} {as : List α}
    (h : as.foldlM (fun s a => if ok s a then step s a else none) s₀ = some s)
    : Run (stepOf step) (fun s a => ok s a = true) s₀ as s := by
  have hrun := Run.of_foldlM h
  clear h
  induction hrun with
  | start => exact .start
  | next _ _ hstep ih =>
    simp only [stepOf] at hstep
    split at hstep
    . next hok => exact .next ih hok hstep
    . contradiction

theorem Run.exists_of_foldlM {step : σ → α → Option σ} {P : σ → Prop} [DecidablePred P] {s₀ : σ}
    {as : List α} (h : (as.foldlM step s₀).any (fun s => P s) = true)
    : ∃ s, Run (stepOf step) anyLabel s₀ as s ∧ P s := by
  obtain ⟨s, hs, hP⟩ := (Option.any_eq_true _ _).mp h
  exact ⟨s, Run.of_foldlM hs, of_decide_eq_true hP⟩

theorem Run.exists_of_guarded {step : σ → α → Option σ} {ok : σ → α → Bool} {P : σ → Prop}
    [DecidablePred P] {s₀ : σ} {as : List α}
    (h : (as.foldlM (fun s a => if ok s a then step s a else none) s₀).any (fun s => P s) = true)
    : ∃ s, Run (stepOf step) (fun s a => ok s a = true) s₀ as s ∧ P s := by
  obtain ⟨s, hs, hP⟩ := (Option.any_eq_true _ _).mp h
  exact ⟨s, Run.of_guarded hs, of_decide_eq_true hP⟩

theorem Run.exists_of_decide {step : σ → α → Option σ} {ok : σ → α → Prop}
    [∀ s a, Decidable (ok s a)] {P : σ → Prop} [DecidablePred P] {s₀ : σ} {as : List α}
    (h : (as.foldlM (fun s a => if decide (ok s a) then step s a else none) s₀).any (fun s => P s)
      = true)
    : ∃ s, Run (stepOf step) ok s₀ as s ∧ P s := by
  obtain ⟨s, hrun, hP⟩ := Run.exists_of_guarded h
  exact ⟨s, hrun.weaken fun s a h => of_decide_eq_true h, hP⟩

end Runs
