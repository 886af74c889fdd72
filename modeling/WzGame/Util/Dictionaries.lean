import WzGame.Util.KeyedList

/-!
This module contains dictionaries that only take new keys, and loops over computations that leave their state behind
when they throw.
-/

@[ext]
structure Dictionary (κ ν : Type) where
  entries : List (κ × ν)
  nodup : (entries.map Prod.fst).Nodup

namespace Dictionary

variable {κ ν : Type}

def empty : Dictionary κ ν := ⟨[], List.nodup_nil⟩

theorem nodup_concat {entries : List (κ × ν)} {key : κ} {value : ν} (h : (entries.map Prod.fst).Nodup)
    (hnew : key ∉ entries.map Prod.fst)
    : ((entries ++ [(key, value)]).map Prod.fst).Nodup := by
  rw [List.map_append, List.map_singleton, List.nodup_append]
  refine ⟨h, List.nodup_singleton key, ?_⟩
  intro k hk k' hk' heq
  obtain rfl := List.mem_singleton.mp hk'
  exact hnew (heq ▸ hk)

theorem nodup_filterMap {α : Type} {key : α → κ} {values : List α} {f : α → Option ν}
    (h : (values.map key).Nodup)
    : ((values.filterMap fun a => (f a).map (Prod.mk (key a))).map Prod.fst).Nodup := by
  induction values with
  | nil => exact List.nodup_nil
  | cons a values ih =>
    rw [List.map_cons, List.nodup_cons] at h
    rw [List.filterMap_cons]
    cases f a with
    | none => exact ih h.2
    | some value =>
      refine List.nodup_cons.mpr ⟨fun hmem => h.1 ?_, ih h.2⟩
      obtain ⟨x, hx, hkey⟩ := List.mem_map.mp hmem
      obtain ⟨b, hb, hentry⟩ := List.mem_filterMap.mp hx
      obtain ⟨value', -, rfl⟩ := Option.map_eq_some_iff.mp hentry
      replace hkey : key b = key a := hkey
      rw [← hkey]
      exact List.mem_map_of_mem hb

variable [DecidableEq κ]

def get? (d : Dictionary κ ν) (key : κ) : Option ν := d.entries.lookup key

def containsKey (d : Dictionary κ ν) (key : κ) : Bool := (d.get? key).isSome

-- `none` is an exception: the key is there already.
def add (d : Dictionary κ ν) (key : κ) (value : ν) : Option (Dictionary κ ν) :=
  if h : key ∈ d.entries.map Prod.fst then
    none
  else
    some ⟨d.entries ++ [(key, value)], nodup_concat d.nodup h⟩

-- the same as an exception that leaves the dictionary behind
def addEntry (d : Dictionary κ ν) (x : κ × ν) : Except (Dictionary κ ν) (Dictionary κ ν) :=
  (d.add x.1 x.2).elim (.error d) .ok

def addAll (d : Dictionary κ ν) (xs : List (κ × ν)) : Except (Dictionary κ ν) (Dictionary κ ν) := xs.foldlM addEntry d

variable {d : Dictionary κ ν} {key : κ} {value : ν} {xs : List (κ × ν)}

theorem get?_eq_some : d.get? key = some value ↔ (key, value) ∈ d.entries := KeyedList.lookup_eq_some d.nodup

theorem get?_of_front {d' : Dictionary κ ν} (h : d.entries <+: d'.entries) (hget : d.get? key = some value)
    : d'.get? key = some value :=
  get?_eq_some.mpr (h.subset (get?_eq_some.mp hget))

theorem entries_of_add {d' : Dictionary κ ν} (h : d.add key value = some d')
    : d'.entries = d.entries ++ [(key, value)] := by
  unfold add at h
  split_ifs at h
  obtain rfl := Option.some.inj h
  rfl

theorem addAll_of_nodup (h : ((d.entries ++ xs).map Prod.fst).Nodup) : d.addAll xs = .ok ⟨d.entries ++ xs, h⟩ := by
  induction xs generalizing d with
  | nil =>
    obtain ⟨entries, hnodup⟩ := d
    simp only [List.append_nil]
    rfl
  | cons x xs ih =>
    have hnew : x.1 ∉ d.entries.map Prod.fst := by
      intro hmem
      rw [List.map_append, List.map_cons, List.nodup_append] at h
      exact h.2.2 _ hmem _ List.mem_cons_self rfl
    have hsplit : d.entries ++ x :: xs = d.entries ++ [x] ++ xs := List.append_cons ..
    have hadd : d.add x.1 x.2 = some ⟨d.entries ++ [x], nodup_concat d.nodup hnew⟩ := dif_neg hnew
    simp only [hsplit] at h ⊢
    rw [addAll, List.foldlM_cons, addEntry, hadd]
    exact ih h

theorem addAll_ne_ok {d' : Dictionary κ ν} (hkey : key ∈ d.entries.map Prod.fst) (hx : key ∈ xs.map Prod.fst)
    : d.addAll xs ≠ .ok d' := by
  induction xs generalizing d with
  | nil => contradiction
  | cons x xs ih =>
    rw [addAll, List.foldlM_cons, addEntry, add]
    split_ifs with hmem
    . nofun
    . rcases List.mem_cons.mp hx with rfl | hx
      . contradiction
      . refine ih ?_ hx
        rw [List.map_append]
        exact List.mem_append_left _ hkey

section tables

variable {α : Type} {key : α → κ} {values : List α} {f : α → Option ν} {a : α}

theorem lookup_filterMap (h : (values.map key).Nodup) (ha : a ∈ values)
    : (values.filterMap fun a => (f a).map (Prod.mk (key a))).lookup (key a) = f a := by
  apply Option.ext
  intro value
  rw [KeyedList.lookup_eq_some (nodup_filterMap h), List.mem_filterMap]
  constructor
  . rintro ⟨b, hb, hentry⟩
    obtain ⟨value', hvalue, hsame⟩ := Option.map_eq_some_iff.mp hentry
    obtain ⟨hkey, rfl⟩ := Prod.mk.inj hsame
    rw [← List.inj_on_of_nodup_map h hb ha hkey]
    exact hvalue
  . intro hvalue
    exact ⟨a, ha, Option.map_eq_some_iff.mpr ⟨value, hvalue, rfl⟩⟩

theorem lookup_map {g : α → ν} (k : κ)
    : (values.map fun a => (key a, g a)).lookup k = (values.find? fun a => key a = k).map g := by
  induction values with
  | nil => rfl
  | cons a values ih =>
    rw [List.map_cons, List.lookup_cons, List.find?_cons]
    by_cases hkey : key a = k
    . simp [hkey]
    . have hne : (k == key a) = false := beq_eq_false_iff_ne.mpr (Ne.symm hkey)
      simp only [hne, hkey, decide_false]
      exact ih

end tables

end Dictionary

namespace Except

variable {σ τ α β : Type}

def onState (f : σ → τ) : Except σ σ → Except τ τ
  | .ok s => .ok (f s)
  | .error s => .error (f s)

theorem foldlM_onState (step : σ → α → Except σ σ) (step' : τ → β → Except τ τ) (f : σ → τ) (g : β → α)
    (h : ∀ s b, step' (f s) b = onState f (step s (g b))) (bs : List β) (s : σ)
    : bs.foldlM step' (f s) = onState f ((bs.map g).foldlM step s) := by
  induction bs generalizing s with
  | nil => rfl
  | cons b bs ih =>
    rw [List.foldlM_cons, h, List.map_cons, List.foldlM_cons]
    cases step s (g b) with
    | error s' => rfl
    | ok s' => exact ih s'

theorem foldlM_idempotent {step : σ → Except σ σ} {s : σ} (s' : σ) (h : step s = .ok s') (h' : step s' = .ok s')
    {bs : List β} (hbs : bs ≠ [])
    : bs.foldlM (fun s _ => step s) s = .ok s' := by
  have hrest : ∀ bs : List β, bs.foldlM (fun s _ => step s) s' = .ok s' := by
    intro bs
    induction bs with
    | nil => rfl
    | cons b bs ih =>
      rw [List.foldlM_cons, h']
      exact ih
  cases bs with
  | nil => contradiction
  | cons b bs =>
    rw [List.foldlM_cons, h]
    exact hrest bs

end Except
