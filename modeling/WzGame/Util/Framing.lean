import Mathlib.Data.List.Infix

/-!
This module contains streams that are made up of frames and arrive in chunks: how a part of such a
stream is cut into whole frames and the beginning of the next one, and how a receiver that keeps that
beginning gets every frame.
-/

namespace Framing

variable {φ β σ : Type} {frame : φ → List β} {fs done rest : List φ} {r s : List β}

def Incomplete (frame : φ → List β) (r : List β) : List φ → Prop
  | [] => r = []
  | f :: _ => r <+: frame f ∧ r.length < (frame f).length

theorem incomplete_nil (hframe : ∀ f ∈ fs, frame f ≠ []) : Incomplete frame [] fs := by
  cases fs with
  | nil => rfl
  | cons f fs => exact ⟨List.nil_prefix, List.length_pos_iff.mpr (hframe f (by simp))⟩

theorem exists_cut (h : s <+: fs.flatMap frame)
    : ∃ done rest r, fs = done ++ rest ∧ s = done.flatMap frame ++ r ∧ Incomplete frame r rest := by
  induction fs generalizing s with
  | nil => exact ⟨[], [], [], rfl, by simpa using h, rfl⟩
  | cons f fs ih =>
    rw [List.flatMap_cons] at h
    by_cases hlength : s.length < (frame f).length
    . exact ⟨[], f :: fs, s, rfl, rfl,
        List.prefix_of_prefix_length_le h (List.prefix_append _ _) (by omega), hlength⟩
    . obtain ⟨s', rfl⟩ := List.prefix_of_prefix_length_le (List.prefix_append _ _) h (by omega)
      obtain ⟨done, rest, r, rfl, rfl, hr⟩ := ih ((List.prefix_append_right_inj _).mp h)
      exact ⟨f :: done, rest, r, rfl, by simp, hr⟩

theorem eq_nil_of_flatMap (hframe : ∀ f ∈ fs, frame f ≠ []) (h : fs.flatMap frame = []) : fs = [] := by
  cases fs with
  | nil => rfl
  | cons f fs =>
    rw [List.flatMap_cons, List.append_eq_nil_iff] at h
    exact absurd h.1 (hframe f (by simp))

theorem prefix_of_flatMap {past : List φ} (hframe : ∀ f ∈ fs, frame f ≠ []) (hdone : done <+: fs)
    (hpast : past <+: fs) (h : done.flatMap frame <+: past.flatMap frame)
    : done <+: past := by
  rcases List.prefix_or_prefix_of_prefix hdone hpast with hle | ⟨more, rfl⟩
  . exact hle
  . have hlength := h.length_le
    rw [List.flatMap_append, List.length_append] at hlength
    have hnil : more = [] := by
      apply eq_nil_of_flatMap fun f hf => hframe f (hdone.subset (by simp [hf]))
      exact List.length_eq_zero_iff.mp (by omega)
    rw [hnil, List.append_nil]

theorem prefix_of_incomplete {past more : List φ} (hr : Incomplete frame r rest)
    (hfs : past ++ more = done ++ rest) (h : done.flatMap frame ++ r = past.flatMap frame ++ s)
    : past <+: done := by
  have hdone : done <+: past ++ more := hfs ▸ List.prefix_append _ _
  rcases List.prefix_or_prefix_of_prefix (List.prefix_append past more) hdone with hle | ⟨left, rfl⟩
  . exact hle
  . rw [List.append_assoc, List.append_right_inj] at hfs
    rw [List.flatMap_append, List.append_assoc, List.append_right_inj] at h
    subst hfs h
    cases left with
    | nil => rw [List.append_nil]
    | cons f left =>
      obtain ⟨-, hlt⟩ := hr
      rw [List.flatMap_cons, List.length_append, List.length_append] at hlt
      omega

theorem eq_of_incomplete (hr : Incomplete frame r rest)
    (h : (done ++ rest).flatMap frame = done.flatMap frame ++ r)
    : rest = [] ∧ r = [] := by
  rw [List.flatMap_append, List.append_right_inj] at h
  cases rest with
  | nil => exact ⟨rfl, hr⟩
  | cons f rest =>
    obtain ⟨-, hlt⟩ := hr
    have hlength := congrArg List.length h
    rw [List.flatMap_cons, List.length_append] at hlength
    omega

theorem reassemble {feed : σ → List β → σ} {At : List φ → List β → σ → Prop} {s₀ : σ}
    (hfeed : ∀ done r s chunk done' rest' r', At done r s → Incomplete frame r (done' ++ rest')
      → r ++ chunk = done'.flatMap frame ++ r' → Incomplete frame r' rest'
      → fs = done ++ done' ++ rest' → At (done ++ done') r' (feed s chunk))
    (hstart : At [] [] s₀) (hframe : ∀ f ∈ fs, frame f ≠ []) {chunks : List (List β)}
    (h : chunks.flatten <+: fs.flatMap frame)
    : ∃ done rest r, fs = done ++ rest ∧ chunks.flatten = done.flatMap frame ++ r
        ∧ Incomplete frame r rest ∧ At done r (chunks.foldl feed s₀) := by
  induction chunks using List.reverseRecOn with
  | nil => exact ⟨[], fs, [], rfl, rfl, incomplete_nil hframe, hstart⟩
  | append_singleton chunks chunk ih =>
    rw [List.flatten_concat] at h ⊢
    obtain ⟨done, rest, r, rfl, hflatten, hr, hat⟩ := ih ((List.prefix_append _ _).trans h)
    rw [hflatten, List.flatMap_append, List.append_assoc] at h
    obtain ⟨done', rest', r', rfl, hcut, hr'⟩ := exists_cut ((List.prefix_append_right_inj _).mp h)
    refine ⟨done ++ done', rest', r', by simp, ?_, hr', ?_⟩
    . rw [hflatten, List.append_assoc, hcut]
      simp
    . rw [List.foldl_append]
      exact hfeed done r _ chunk done' rest' r' hat hr hcut hr' (by simp)

theorem reassemble_all {feed : σ → List β → σ} {At : List φ → List β → σ → Prop} {s₀ : σ}
    (hfeed : ∀ done r s chunk done' rest' r', At done r s → Incomplete frame r (done' ++ rest')
      → r ++ chunk = done'.flatMap frame ++ r' → Incomplete frame r' rest'
      → fs = done ++ done' ++ rest' → At (done ++ done') r' (feed s chunk))
    (hstart : At [] [] s₀) (hframe : ∀ f ∈ fs, frame f ≠ []) {chunks : List (List β)}
    (h : chunks.flatten = fs.flatMap frame)
    : At fs [] (chunks.foldl feed s₀) := by
  have hbegin : chunks.flatten <+: fs.flatMap frame := h ▸ List.prefix_rfl
  obtain ⟨done, rest, r, rfl, hflatten, hr, hat⟩ := reassemble hfeed hstart hframe hbegin
  obtain ⟨rfl, rfl⟩ := eq_of_incomplete hr (h.symm.trans hflatten)
  simpa using hat

end Framing
