import WzGame.Util.KeyedList
import WzGame.Util.SubstitutionRuns

/-!
This module contains the templates of the class `MiscUtil`, of which each text is the list of its characters.
-/

namespace WzGame

namespace MiscUtil

open Substitutions

/-- All occurrences of the target are replaced, where `CASE_INSENSITIVE` without `UNICODE_CASE` folds the letters of
ASCII. An empty target occurs at each place. -/
def replaceIgnoreCase (source target replacement : List Char) : List Char :=
  if target = [] then
    source.flatMap (fun c => replacement ++ [c]) ++ replacement
  else
    replaceAll Char.toLower target replacement 0 source

-- A `Map<String, String>` with its entries in the order of the `keySet`. A `null` is `none`.
structure Params where
  entries : List (Option (List Char) × Option (List Char))
  distinct : (entries.map Prod.fst).Nodup

def Params.keySet (params : Params) : List (Option (List Char)) := params.entries.map Prod.fst

def Params.get (params : Params) (key : Option (List Char)) : Option (List Char) :=
  (params.entries.find? fun entry => entry.1 = key).bind Prod.snd

def mark (key : List Char) : List Char := ['#', '\x7b'] ++ key ++ ['\x7d']

def replaceKey (params : Params) (text : List Char) (key : Option (List Char)) : List Char :=
  match key with
  | none => text
  | some key =>
    match params.get (some key) with
    | none => text
    | some value => replaceIgnoreCase text (mark key) value

def replaceTemplate (text : Option (List Char)) (params : Option Params) : Option (List Char) :=
  match text, params with
  | some text, some params =>
    if params.entries.isEmpty then some text else some (params.keySet.foldl (replaceKey params) text)
  | text, _ => text

-- the mark and the value of an entry without a `null`
def activeEntry : Option (List Char) × Option (List Char) → Option (Entry Char)
  | (some key, some value) => some (mark key, value)
  | _ => none

def active (params : Params) : List (Entry Char) := params.entries.filterMap activeEntry

def Substituted (text : List Char) (params : Params) : Prop :=
  ∃ result, replaceTemplate (some text) (some params) = some result
    ∧ Simultaneous Char.toLower (active params) text result

/-- The same for a map and for the first ones of its entries with any last value, so that no entry puts right what
another one has done. -/
def SubstitutedThroughout (text : List Char) (params : Params) : Prop :=
  Substituted text params ∧ ∀ (part : Params) done key value rest value',
    params.entries = done ++ (some key, some value) :: rest → part.entries = done ++ [(some key, some value')] →
      Substituted text part

section Loop

variable {params : Params}

theorem mark_ne_nil (key : List Char) : mark key ≠ [] := List.cons_ne_nil _ _

theorem mark_injective {key key' : List Char} (h : mark key = mark key') : key = key' :=
  List.append_cancel_left (List.append_cancel_right h)

theorem get_of_mem {entry : Option (List Char) × Option (List Char)} (hentry : entry ∈ params.entries)
    : params.get entry.1 = entry.2 := by
  rw [Params.get, KeyedList.find?_key params.distinct hentry]
  rfl

theorem replaceKey_eq {entry : Option (List Char) × Option (List Char)} (hentry : entry ∈ params.entries)
    (text : List Char) : replaceKey params text entry.1 = run Char.toLower (activeEntry entry).toList text := by
  have hget := get_of_mem hentry
  obtain ⟨_ | key, value⟩ := entry
  . cases value <;> rfl
  . rw [replaceKey, hget]
    cases value with
    | none => rfl
    | some value =>
      dsimp only
      rw [replaceIgnoreCase, if_neg (mark_ne_nil key)]
      rfl

theorem foldl_replaceKey {entries : List (Option (List Char) × Option (List Char))}
    (hentries : ∀ entry ∈ entries, entry ∈ params.entries) (text : List Char)
    : (entries.map Prod.fst).foldl (replaceKey params) text
        = run Char.toLower (entries.filterMap activeEntry) text := by
  induction entries generalizing text with
  | nil => rfl
  | cons entry entries ih =>
    obtain ⟨hentry, hentries⟩ := List.forall_mem_cons.mp hentries
    rw [List.map_cons, List.foldl_cons, replaceKey_eq hentry, ih hentries]
    cases hactive : activeEntry entry with
    | none => rw [List.filterMap_cons_none hactive]; rfl
    | some active => rw [List.filterMap_cons_some hactive]; rfl

theorem replaceTemplate_eq (text : List Char) (params : Params)
    : replaceTemplate (some text) (some params) = some (run Char.toLower (active params) text) := by
  rw [replaceTemplate, Params.keySet, foldl_replaceKey fun entry hentry => hentry]
  split
  . next hempty => rw [active, List.isEmpty_iff.mp hempty]; rfl
  . rfl

theorem substituted_iff {text : List Char}
    : Substituted text params
        ↔ Simultaneous Char.toLower (active params) text (run Char.toLower (active params) text) := by
  simp [Substituted, replaceTemplate_eq]

theorem activeEntry_eq_some {entry : Option (List Char) × Option (List Char)} {active : Entry Char}
    (h : activeEntry entry = some active)
    : ∃ key, entry = (some key, some active.2) ∧ active.1 = mark key := by
  obtain ⟨_ | key, _ | value⟩ := entry
  . contradiction
  . contradiction
  . contradiction
  . obtain rfl := Option.some.inj h
    exact ⟨key, rfl, rfl⟩

theorem nil_notMem_marks (params : Params) : [] ∉ (active params).map (·.1) := by
  intro h
  obtain ⟨entry, hentry, hnil⟩ := List.mem_map.mp h
  obtain ⟨_, -, hactive⟩ := List.mem_filterMap.mp hentry
  obtain ⟨key, -, hkey⟩ := activeEntry_eq_some hactive
  exact mark_ne_nil key (hkey.symm.trans hnil)

theorem nodup_marks (params : Params) : ((active params).map (·.1)).Nodup := by
  have hentries := params.distinct
  rw [List.Nodup, List.pairwise_map] at hentries ⊢
  rw [active, List.pairwise_filterMap]
  refine hentries.imp ?_
  intro entry entry' hne active hactive active' hactive' hsame
  obtain ⟨key, rfl, hkey⟩ := activeEntry_eq_some hactive
  obtain ⟨key', rfl, hkey'⟩ := activeEntry_eq_some hactive'
  have hkeys := mark_injective (hkey.symm.trans (hsame.trans hkey'))
  exact hne (congrArg some hkeys)

end Loop

section Template

variable {text : List Char} {params : Params}

def Params.upTo (params : Params) (done : List (Option (List Char) × Option (List Char))) {key value : List Char}
    {rest : List (Option (List Char) × Option (List Char))}
    (hentries : params.entries = done ++ (some key, some value) :: rest) (value' : List Char) : Params where
  entries := done ++ [(some key, some value')]
  distinct := by
    have hdistinct := params.distinct
    rw [hentries, List.map_append, List.map_cons, List.append_cons, List.nodup_append] at hdistinct
    rw [List.map_append]
    exact hdistinct.left

theorem substitutedThroughout_iff_throughout
    : SubstitutedThroughout text params ↔ Throughout Char.toLower (active params) text := by
  rw [SubstitutedThroughout, Throughout, substituted_iff]
  refine and_congr_right fun _ => ?_
  constructor
  . intro h done mark' value rest hactive value'
    obtain ⟨front, back, hentries, rfl, hback⟩ := List.filterMap_eq_append_iff.mp hactive
    obtain ⟨between, entry, behind, rfl, hbetween, hentry, -⟩ := List.filterMap_eq_cons_iff.mp hback
    obtain ⟨key, rfl, hkey⟩ := activeEntry_eq_some hentry
    rw [← List.append_assoc] at hentries
    have hpart := substituted_iff.mp (h (params.upTo _ hentries value') _ key value behind value' hentries rfl)
    have hactivePart : active (params.upTo _ hentries value') = front.filterMap activeEntry ++ [(mark', value')] := by
      rw [active, Params.upTo, List.filterMap_append, List.filterMap_append, List.filterMap_eq_nil_iff.mpr hbetween,
        List.append_nil, show mark' = mark key from hkey]
      rfl
    rwa [hactivePart] at hpart
  . intro h part done key value rest value' hentries hpart
    have hactive : active params = done.filterMap activeEntry ++ (mark key, value) :: rest.filterMap activeEntry := by
      rw [active, hentries, List.filterMap_append]
      rfl
    have hactivePart : active part = done.filterMap activeEntry ++ [(mark key, value')] := by
      rw [active, hpart, List.filterMap_append]
      rfl
    rw [substituted_iff, hactivePart]
    exact h _ _ _ _ hactive value'

/-- On all texts and maps. -/
theorem substitutedThroughout_iff (text : List Char) (params : Params)
    : SubstitutedThroughout text params ↔ Undisturbed Char.toLower (active params) text := by
  have hchars : Nontrivial Char := ⟨'a', 'b', by decide⟩
  rw [substitutedThroughout_iff_throughout]
  exact throughout_iff (nil_notMem_marks params) (nodup_marks params)

theorem substituted_of_active {entry : Entry Char} (hactive : active params = [entry])
    (hapart : Apart Char.toLower [entry.1] text) : Substituted text params := by
  have hmark : entry.1 ≠ [] := by
    have hnil := nil_notMem_marks params
    rw [hactive] at hnil
    exact fun hempty => hnil (by simp [hempty])
  rw [substituted_iff, hactive]
  exact simultaneous_singleton hmark entry.2 hapart

theorem Substituted.perm {params' : Params} (hperm : params.entries.Perm params'.entries)
    (h : Substituted text params) (h' : Substituted text params')
    : replaceTemplate (some text) (some params) = replaceTemplate (some text) (some params') := by
  have hmoved := (substituted_iff.mp h).perm (hperm.filterMap activeEntry) (nodup_marks params)
  have hfirst := hmoved.shown_scan (nil_notMem_marks params')
  have hsecond := (substituted_iff.mp h').shown_scan (nil_notMem_marks params')
  rw [replaceTemplate_eq, replaceTemplate_eq, ← hfirst, ← hsecond]

theorem substituted_counterexample
    : ¬ Substituted "#{a}".toList
        ⟨[(some "a".toList, some "#{b}".toList), (some "b".toList, some "x".toList)], by decide⟩ := by
  rintro ⟨result, hresult, hsimultaneous⟩
  have hinserted := hsimultaneous.shown_scan (nil_notMem_marks _)
  have hreplaced : result = "x".toList := by
    rw [replaceTemplate_eq] at hresult
    exact (Option.some.inj hresult).symm.trans (by decide)
  rw [hreplaced] at hinserted
  revert hinserted
  decide

end Template

end MiscUtil

end WzGame
