import WzGame.Util.Netty
import Mathlib.Data.List.Forall2

/-!
This module contains decoders that take a message from the front of the bytes with every call, and throw where there is
none.
-/

namespace Netty

variable {σ α : Type}

structure Takes (decode : Channel σ α → Channel σ α × Bool) (parse : List UInt8 → Option (α × List UInt8))
    : Prop where
  reads : Reads decode
  shorter : ∀ {bytes m rest}, parse bytes = some (m, rest) → rest.length < bytes.length
  takes : ∀ {c m rest}, parse c.input = some (m, rest) → (decode c).2 = false ∧ (decode c).1.input = rest
    ∧ (decode c).1.out = c.out ++ [m] ∧ (decode c).1.threw = c.threw
  throws : ∀ {c}, parse c.input = none → (decode c).2 = true

inductive Parses (parse : List UInt8 → Option (α × List UInt8)) : List UInt8 → List α → Prop where
  | nil : Parses parse [] []
  | cons {bytes rest : List UInt8} {m : α} {ms : List α} (hm : parse bytes = some (m, rest))
      (hms : Parses parse rest ms)
    : Parses parse bytes (m :: ms)

-- no read of a chunk ends with an exception
def Quiet (decode : Channel σ α → Channel σ α × Bool) (c : Channel σ α) (chunks : List (List UInt8)) : Prop :=
  ∀ done, done <+: chunks → (done.foldl (channelRead decode) c).threw = false

variable {decode : Channel σ α → Channel σ α × Bool} {parse : List UInt8 → Option (α × List UInt8)} {c : Channel σ α}
  {ms : List α}

theorem Takes.decodeAll_next {m : α} {rest : List UInt8} (T : Takes decode parse)
    (hm : parse c.input = some (m, rest))
    : decodeAll decode c = decodeAll decode (decode c).1 := by
  obtain ⟨hthrew, hinput, -, -⟩ := T.takes hm
  have hshorter := T.shorter hm
  apply Netty.decodeAll_next T.reads hthrew
  rw [hinput]
  omega

theorem Takes.decodeAll_parses (T : Takes decode parse) (hthrew : c.threw = false) (hms : Parses parse c.input ms)
    : (decodeAll decode c).input = [] ∧ (decodeAll decode c).out = c.out ++ ms
        ∧ (decodeAll decode c).threw = false := by
  generalize hinput : c.input = input at hms
  induction hms generalizing c with
  | nil =>
    rw [decodeAll_nil hinput, List.append_nil]
    exact ⟨hinput, rfl, hthrew⟩
  | @cons bytes rest m ms hm _ ih =>
    rw [← hinput] at hm
    obtain ⟨-, hinput', hout', hthrew'⟩ := T.takes hm
    obtain ⟨hnil, hout, hquiet⟩ := ih (hthrew'.trans hthrew) hinput'
    rw [T.decodeAll_next hm]
    refine ⟨hnil, ?_, hquiet⟩
    rw [hout, hout', List.append_assoc, List.singleton_append]

theorem Takes.parses_of_decodeAll (T : Takes decode parse) (hquiet : (decodeAll decode c).threw = false)
    : ∃ ms, Parses parse c.input ms := by
  generalize hlength : c.input.length = length
  induction length using Nat.strongRecOn generalizing c with
  | _ length ih =>
    by_cases hnil : c.input = []
    . exact ⟨[], hnil ▸ .nil⟩
    . cases hm : parse c.input with
      | none =>
        rw [decodeAll_threw hnil (T.throws hm)] at hquiet
        contradiction
      | some found =>
        obtain ⟨m, rest⟩ := found
        obtain ⟨-, hinput, -, -⟩ := T.takes hm
        rw [T.decodeAll_next hm] at hquiet
        obtain ⟨ms, hms⟩ := ih rest.length (hlength ▸ T.shorter hm) hquiet (by rw [hinput])
        exact ⟨m :: ms, .cons hm (hinput ▸ hms)⟩

theorem quiet_cons {chunk : List UInt8} {chunks : List (List UInt8)}
    : Quiet decode c (chunk :: chunks) ↔ c.threw = false ∧ Quiet decode (channelRead decode c chunk) chunks := by
  constructor
  . intro h
    refine ⟨h [] List.nil_prefix, fun done hdone => ?_⟩
    exact h (chunk :: done) (List.cons_prefix_cons.mpr ⟨rfl, hdone⟩)
  . rintro ⟨hthrew, h⟩ done hdone
    cases done with
    | nil => exact hthrew
    | cons chunk' done =>
      obtain ⟨rfl, hdone'⟩ := List.cons_prefix_cons.mp hdone
      exact h done hdone'

theorem Takes.channelRead_parses (T : Takes decode parse) (hinput : c.input = []) {chunk : List UInt8}
    (hms : Parses parse chunk ms)
    : (channelRead decode c chunk).input = [] ∧ (channelRead decode c chunk).out = c.out ++ ms
        ∧ (channelRead decode c chunk).threw = false := by
  rw [channelRead_eq]
  apply T.decodeAll_parses rfl
  rwa [hinput]

theorem Takes.run_parses (T : Takes decode parse) (hinput : c.input = []) (hthrew : c.threw = false)
    {chunks : List (List UInt8)} {mss : List (List α)} (hmss : List.Forall₂ (Parses parse) chunks mss)
    : Quiet decode c chunks ∧ (chunks.foldl (channelRead decode) c).out = c.out ++ mss.flatten := by
  induction hmss generalizing c with
  | nil =>
    refine ⟨fun done hdone => ?_, by simp⟩
    rw [List.prefix_nil.mp hdone]
    exact hthrew
  | @cons chunk ms chunks mss hms _ ih =>
    obtain ⟨hinput', hout, hthrew'⟩ := T.channelRead_parses hinput hms
    obtain ⟨hquiet, hout'⟩ := ih hinput' hthrew'
    refine ⟨quiet_cons.mpr ⟨hthrew, hquiet⟩, ?_⟩
    rw [List.foldl_cons, hout', hout, List.flatten_cons, List.append_assoc]

theorem Takes.exists_parses_of_quiet (T : Takes decode parse) (hinput : c.input = []) {chunks : List (List UInt8)}
    (hquiet : Quiet decode c chunks)
    : ∃ mss, List.Forall₂ (Parses parse) chunks mss := by
  induction chunks generalizing c with
  | nil => exact ⟨[], .nil⟩
  | cons chunk chunks ih =>
    obtain ⟨-, hquiet'⟩ := quiet_cons.mp hquiet
    have hthrew : (channelRead decode c chunk).threw = false := hquiet' [] List.nil_prefix
    rw [channelRead_eq] at hthrew
    obtain ⟨ms, hms⟩ := T.parses_of_decodeAll hthrew
    replace hms : Parses parse (c.input ++ chunk) ms := hms
    rw [hinput, List.nil_append] at hms
    obtain ⟨hinput', -, -⟩ := T.channelRead_parses hinput hms
    obtain ⟨mss, hmss⟩ := ih hinput' hquiet'
    exact ⟨ms :: mss, .cons hms hmss⟩

end Netty
