import WzGame.Util.NextChain

/-!
This module contains hash tables whose buckets are singly linked lists through a field of the nodes:
finding a node by its key, putting one in front of its bucket and taking one out of it.
-/

namespace HashPorts

open NextChain

variable {α : Type}

/--
The list of the bucket `b` starts at `port b` and holds the live nodes that `slot` sends to `b`.
-/
structure Buckets (next : α → Option α) (port : Nat → Option α) (slot : α → Option Nat)
    (live : α → Prop) (bucket : Nat → List α) : Prop where
  chain : ∀ b, Chain next (port b) (bucket b)
  mem : ∀ b r, r ∈ bucket b ↔ live r ∧ slot r = some b
  nodup : ∀ b, (bucket b).Nodup

namespace Buckets

variable {next : α → Option α} {port : Nat → Option α} {slot : α → Option Nat} {live : α → Prop}
  {bucket : Nat → List α} {q : α → Bool} {r : α} {b fuel : Nat}

theorem empty : Buckets next (fun _ => none) slot (fun _ => False) fun _ => [] where
  chain := by simp
  mem := by simp
  nodup := by simp

theorem congr {next' : α → Option α} {slot' : α → Option Nat} {live' : α → Prop}
    (B : Buckets next port slot live bucket) (hlive : ∀ r, live' r ↔ live r)
    (hsame : ∀ r, live r → next' r = next r ∧ slot' r = slot r)
    : Buckets next' port slot' live' bucket where
  chain := by
    intro b
    apply chain_congr (B.chain b)
    intro r hr
    exact (hsame r ((B.mem b r).mp hr).1).1
  mem := by
    intro b r
    rw [B.mem, hlive]
    constructor
    . rintro ⟨hr, hslot⟩
      exact ⟨hr, by rwa [(hsame r hr).2]⟩
    . rintro ⟨hr, hslot⟩
      exact ⟨hr, by rwa [(hsame r hr).2] at hslot⟩
  nodup := B.nodup

theorem walk_cases (B : Buckets next port slot live bucket) (hfuel : (bucket b).length ≤ fuel)
    : (walk next q fuel (port b) = some none ∧ ∀ r, live r → slot r = some b → q r = false)
        ∨ ∃ r, live r ∧ slot r = some b ∧ q r = true ∧ walk next q fuel (port b) = some (some r) := by
  rw [walk_eq (B.chain b) hfuel]
  cases hres : (bucket b).find? q with
  | none =>
    left
    refine ⟨rfl, ?_⟩
    intro r hr hslot
    have := List.find?_eq_none.mp hres r ((B.mem b r).mpr ⟨hr, hslot⟩)
    simpa using this
  | some r =>
    right
    obtain ⟨hr, hslot⟩ := (B.mem b r).mp (List.mem_of_find?_eq_some hres)
    exact ⟨r, hr, hslot, List.find?_some hres, rfl⟩

theorem stopBefore_absent (B : Buckets next port slot live bucket)
    (hfuel : (bucket b).length ≤ fuel) (hnone : ∀ r, live r → slot r = some b → q r = false)
    {a : α} (ha : port b = some a)
    : q a = false ∧ ∃ last, stopBefore next q fuel a = some last ∧ next last = none := by
  have hchain := B.chain b
  have hq : ∀ r ∈ bucket b, q r = false := by
    intro r hr
    obtain ⟨hlive, hslot⟩ := (B.mem b r).mp hr
    exact hnone r hlive hslot
  cases hbucket : bucket b with
  | nil =>
    rw [hbucket, chain_nil, ha] at hchain
    contradiction
  | cons a' as =>
    rw [hbucket] at hchain hfuel hq
    obtain ⟨ha', hrest⟩ := hchain
    obtain rfl : a = a' := by simpa [ha] using ha'
    refine ⟨hq a (by simp), _, stopBefore_last hrest (fun r hr => hq r (by simp [hr])) hfuel, ?_⟩
    obtain ⟨front, last, hfront⟩ := List.eq_nil_or_concat (a :: as) |>.resolve_left (by simp)
    have hlast : (a :: as).getLast (by simp) = last := by simp [hfront]
    rw [hlast]
    have hchain : Chain next (some a) (front ++ last :: []) := by
      rw [← List.concat_eq_append, ← hfront]
      exact ⟨rfl, hrest⟩
    simpa using chain_next hchain

section update

variable [DecidableEq α]

theorem push (B : Buckets next port slot live bucket) (hr : ¬ live r) (hslot : slot r = some b)
    : Buckets (Function.update next r (port b)) (Function.update port b (some r)) slot
        (fun r' => live r' ∨ r' = r) (Function.update bucket b (r :: bucket b)) := by
  have hnotin : ∀ b', r ∉ bucket b' := fun b' hmem => hr ((B.mem b' r).mp hmem).1
  constructor
  case chain =>
    intro b'
    by_cases hbb : b' = b
    . subst hbb
      rw [Function.update_self, Function.update_self]
      exact chain_push (B.chain b') (hnotin b')
    . rw [Function.update_of_ne hbb, Function.update_of_ne hbb]
      exact chain_update (B.chain b') (hnotin b')
  case mem =>
    intro b' r'
    by_cases hbb : b' = b
    . subst hbb
      rw [Function.update_self, List.mem_cons, B.mem]
      constructor
      . rintro (rfl | ⟨hlive, hslot'⟩)
        . exact ⟨.inr rfl, hslot⟩
        . exact ⟨.inl hlive, hslot'⟩
      . rintro ⟨hlive | rfl, hslot'⟩
        . exact .inr ⟨hlive, hslot'⟩
        . exact .inl rfl
    . rw [Function.update_of_ne hbb, B.mem]
      constructor
      . rintro ⟨hlive, hslot'⟩
        exact ⟨.inl hlive, hslot'⟩
      . rintro ⟨hlive | rfl, hslot'⟩
        . exact ⟨hlive, hslot'⟩
        . rw [hslot] at hslot'
          exact absurd (Option.some.inj hslot').symm hbb
  case nodup =>
    intro b'
    by_cases hbb : b' = b
    . subst hbb
      rw [Function.update_self]
      exact List.nodup_cons.mpr ⟨hnotin b', B.nodup b'⟩
    . rw [Function.update_of_ne hbb]
      exact B.nodup b'

theorem erase {next' : α → Option α} {p : Option α} (B : Buckets next port slot live bucket)
    (hslot : slot r = some b) (hchain : Chain next' p ((bucket b).erase r))
    (hnext : ∀ r', r' ∉ bucket b → next' r' = next r')
    : Buckets next' (Function.update port b p) slot (fun r' => live r' ∧ r' ≠ r)
        (Function.update bucket b ((bucket b).erase r)) := by
  constructor
  case chain =>
    intro b'
    by_cases hbb : b' = b
    . subst hbb
      rw [Function.update_self, Function.update_self]
      exact hchain
    . rw [Function.update_of_ne hbb, Function.update_of_ne hbb]
      apply chain_congr (B.chain b')
      intro r' hr'
      apply hnext
      intro hin
      have hb' := ((B.mem b' r').mp hr').2
      rw [((B.mem b r').mp hin).2] at hb'
      exact hbb (Option.some.inj hb').symm
  case mem =>
    intro b' r'
    by_cases hbb : b' = b
    . subst hbb
      rw [Function.update_self, (B.nodup b').mem_erase_iff, B.mem]
      tauto
    . rw [Function.update_of_ne hbb, B.mem]
      constructor
      . rintro ⟨hlive, hslot'⟩
        refine ⟨⟨hlive, ?_⟩, hslot'⟩
        rintro rfl
        rw [hslot] at hslot'
        exact hbb (Option.some.inj hslot').symm
      . rintro ⟨⟨hlive, -⟩, hslot'⟩
        exact ⟨hlive, hslot'⟩
  case nodup =>
    intro b'
    by_cases hbb : b' = b
    . subst hbb
      rw [Function.update_self]
      exact (B.nodup b').erase r
    . rw [Function.update_of_ne hbb]
      exact B.nodup b'

theorem delete_cases (B : Buckets next port slot live bucket) (hr : live r)
    (hslot : slot r = some b) (hfuel : (bucket b).length ≤ fuel) (hq : q r = true)
    (honly : ∀ r', live r' → slot r' = some b → q r' = true → r' = r)
    : port b = some r
          ∧ Buckets (Function.update next r none) (Function.update port b (next r)) slot
            (fun r' => live r' ∧ r' ≠ r) (Function.update bucket b ((bucket b).erase r))
        ∨ ∃ a last, port b = some a ∧ q a = false ∧ stopBefore next q fuel a = some last
          ∧ next last = some r ∧ last ≠ r
          ∧ Buckets (Function.update (Function.update next last (next r)) r none) port slot
            (fun r' => live r' ∧ r' ≠ r) (Function.update bucket b ((bucket b).erase r)) := by
  have hmem : r ∈ bucket b := (B.mem b r).mpr ⟨hr, hslot⟩
  have hfalse : ∀ r' ∈ bucket b, r' ≠ r → q r' = false := by
    intro r' hr' hne
    obtain ⟨hlive, hslot'⟩ := (B.mem b r').mp hr'
    by_contra hc
    exact hne (honly r' hlive hslot' (by simpa using hc))
  have hchain := B.chain b
  have hnodup := B.nodup b
  cases hbucket : bucket b with
  | nil => simp [hbucket] at hmem
  | cons a as =>
    rw [hbucket] at hchain hmem hnodup hfalse hfuel
    obtain ⟨hport, hrest⟩ := hchain
    by_cases har : a = r
    . subst har
      refine .inl ⟨hport, ?_⟩
      rw [← hbucket]
      apply B.erase hslot
      . rw [hbucket, List.erase_cons_head]
        exact chain_update hrest (List.nodup_cons.mp hnodup).1
      . intro r' hr'
        apply Function.update_of_ne
        rintro rfl
        exact hr' (by simp [hbucket])
    . right
      obtain ⟨xs, ys, rfl⟩ := List.append_of_mem ((List.mem_cons.mp hmem).resolve_left (Ne.symm har))
      have hrxs : r ∉ xs := by
        intro hx
        exact (List.nodup_append.mp (List.nodup_cons.mp hnodup).2).2.2 r hx r (by simp) rfl
      have hxs : ∀ x ∈ xs, q x = false := by
        intro x hx
        apply hfalse x (by simp [hx])
        rintro rfl
        exact hrxs hx
      obtain ⟨front, last, hfront⟩ := List.eq_nil_or_concat (a :: xs) |>.resolve_left (by simp)
      have hlen : xs.length < fuel := by
        simp at hfuel
        omega
      have hstop := stopBefore_found hrest hxs hq hlen
      have hlast : (a :: xs).getLast (by simp) = last := by simp [hfront]
      rw [hlast] at hstop
      have hlastne : last ≠ r := by
        have : last ∈ a :: xs := by simp [hfront]
        rintro rfl
        rcases List.mem_cons.mp this with h | h
        . exact har h.symm
        . exact hrxs h
      have hcons : a :: (xs ++ r :: ys) = front ++ last :: r :: ys := by
        rw [← List.cons_append, hfront]
        simp
      have hchain : Chain next (some a) (front ++ last :: r :: ys) := by
        rw [← hcons]
        exact ⟨rfl, hrest⟩
      have hnextlast : next last = some r := by
        have := chain_head? (chain_next hchain)
        simpa using this
      refine ⟨a, last, hport, hfalse a (by simp) har, hstop, hnextlast, hlastne, ?_⟩
      have herase : (bucket b).erase r = front ++ last :: ys := by
        have hnot : r ∉ front ++ [last] := by
          rw [← List.concat_eq_append, ← hfront]
          simp only [List.mem_cons, not_or]
          exact ⟨Ne.symm har, hrxs⟩
        rw [hbucket, hcons, show front ++ last :: r :: ys = (front ++ [last]) ++ r :: ys by simp,
          List.erase_append_right _ hnot]
        simp
      have hport' : Function.update port b (port b) = port := Function.update_eq_self b port
      rw [← hport', ← hbucket]
      apply B.erase hslot
      . rw [herase, hport]
        apply chain_delete hchain
        rw [← hcons]
        exact hnodup
      . intro r' hr'
        have hne : r' ≠ r ∧ r' ≠ last := by
          rw [hbucket, hcons] at hr'
          simp at hr'
          tauto
        simp [hne]

end update

end Buckets

end HashPorts
