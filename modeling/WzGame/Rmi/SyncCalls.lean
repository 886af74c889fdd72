import WzGame.Util.Runs

/-!
This module contains the synchronous calls of the remote method invocation: a call waits for its response
in a field that all calls share.
-/

namespace WzGame

open Runs

namespace Rmi

-- the permits of the semaphore, and the result; `none` is `null`
structure SyncResponse (ρ : Type) where
  permits : Nat
  result : Option ρ
deriving DecidableEq

inductive Call (ρ : Type) where
  | created (session : Nat)
  | written
  | waiting (object : Nat)
  | woken
  | returned (result : Option ρ)
deriving DecidableEq

def Call.isReturned {ρ : Type} : Call ρ → Bool
  | .returned _ => true
  | _ => false

/--
The shared field and the objects that it has been set to, of which each call creates one; the calls; for
each session the requests that the peer has not answered and its answers that have not arrived; and what
each request has been answered with.
-/
structure SyncCalls (ρ : Type) where
  response : Option Nat
  objects : Nat → SyncResponse ρ
  calls : List (Call ρ)
  requests : Nat → List Nat
  replies : Nat → List (Nat × ρ)
  answered : List (Nat × ρ)

inductive SyncAction (ρ : Type) where
  | create (session : Nat)
  | write (call : Nat)
  | blockUntilRelease (call : Nat)
  | acquire (call : Nat)
  | getResult (call : Nat)
  | answer (session : Nat) (result : ρ)
  | response (session : Nat)

namespace SyncCalls

variable {ρ : Type}

def start : SyncCalls ρ := ⟨none, fun _ => ⟨0, none⟩, [], fun _ => [], fun _ => [], []⟩

def setResult (object : SyncResponse ρ) (result : ρ) : SyncResponse ρ :=
  ⟨object.permits + 1, some result⟩

def setCall (s : SyncCalls ρ) (call : Nat) (c : Call ρ) : SyncCalls ρ :=
  { s with calls := s.calls.set call c }

def step (s : SyncCalls ρ) : SyncAction ρ → Option (SyncCalls ρ)
  | .create session =>
    some { s with
      response := some s.calls.length
      objects := Function.update s.objects s.calls.length ⟨0, none⟩
      calls := s.calls ++ [.created session] }
  | .write call =>
    match s.calls[call]? with
    | some (.created session) => some { s.setCall call .written with
        requests := Function.update s.requests session (s.requests session ++ [call]) }
    | _ => none
  | .blockUntilRelease call =>
    match s.calls[call]?, s.response with
    | some .written, some object => some (s.setCall call (.waiting object))
    | _, _ => none
  | .acquire call =>
    match s.calls[call]? with
    | some (.waiting object) =>
      if 0 < (s.objects object).permits then
        some { s.setCall call .woken with
          objects := Function.update s.objects object
            { s.objects object with permits := (s.objects object).permits - 1 } }
      else
        none
    | _ => none
  | .getResult call =>
    match s.calls[call]?, s.response with
    -- the field is read again, and may have been set by another call
    | some .woken, some object => some (s.setCall call (.returned (s.objects object).result))
    | _, _ => none
  | .answer session result =>
    match s.requests session with
    | call :: requests => some { s with
        requests := Function.update s.requests session requests
        replies := Function.update s.replies session (s.replies session ++ [(call, result)])
        answered := s.answered ++ [(call, result)] }
    | [] => none
  | .response session =>
    match s.replies session, s.response with
    | (_, result) :: replies, some object => some { s with
        replies := Function.update s.replies session replies
        objects := Function.update s.objects object (setResult (s.objects object) result) }
    | _, _ => none

/--
A call that has returned has got what its own request was answered with, and a call that waits has been
released when no request and no answer is under way any more.
-/
structure Matched (s : SyncCalls ρ) : Prop where
  returned : ∀ (call : Nat) result, s.calls[call]? = some (.returned result)
    → ∃ answer, result = some answer ∧ (call, answer) ∈ s.answered
  released : ∀ (call object : Nat), s.calls[call]? = some (.waiting object)
    → (∀ session, s.requests session = [] ∧ s.replies session = [])
    → 0 < (s.objects object).permits

def oneAtATime (s : SyncCalls ρ) : SyncAction ρ → Bool
  | .create _ => s.calls.all Call.isReturned
  | _ => true

def OneAtATime (s : SyncCalls ρ) (a : SyncAction ρ) : Prop := s.oneAtATime a = true

variable {s s' : SyncCalls ρ} {a : SyncAction ρ} {n session : Nat} {c : Call ρ} {calls : List (Call ρ)}

def Quiet (s : SyncCalls ρ) : Prop := ∀ session, s.requests session = [] ∧ s.replies session = []

inductive UnderWay (s : SyncCalls ρ) (n session : Nat) : Prop where
  | requested (hrequests : s.requests = Function.update (fun _ => []) session [n])
      (hreplies : s.replies = fun _ => []) (hobject : (s.objects n).permits = 0)
  | replied (answer : ρ) (hrequests : s.requests = fun _ => [])
      (hreplies : s.replies = Function.update (fun _ => []) session [(n, answer)])
      (hanswered : (n, answer) ∈ s.answered) (hobject : (s.objects n).permits = 0)
  | received (answer : ρ) (hquiet : s.Quiet) (hanswered : (n, answer) ∈ s.answered)
      (hobject : s.objects n = ⟨1, some answer⟩)

def Stage (s : SyncCalls ρ) (n : Nat) : Call ρ → Prop
  | .created _ => s.Quiet ∧ (s.objects n).permits = 0
  | .written => ∃ session, s.UnderWay n session
  | .waiting object => object = n ∧ ∃ session, s.UnderWay n session
  | .woken => s.Quiet ∧ ∃ answer, (s.objects n).result = some answer ∧ (n, answer) ∈ s.answered
  | .returned _ => s.Quiet

structure Inv (s : SyncCalls ρ) : Prop where
  returned : ∀ (call : Nat) result, s.calls[call]? = some (.returned result)
    → ∃ answer, result = some answer ∧ (call, answer) ∈ s.answered
  quiet : s.calls = [] → s.Quiet
  last : ∀ calls c, s.calls = calls ++ [c]
    → calls.all Call.isReturned = true ∧ s.response = some calls.length ∧ s.Stage calls.length c

theorem inv_start : (start : SyncCalls ρ).Inv where
  returned := nofun
  quiet := fun _ _ => ⟨rfl, rfl⟩
  last := by simp [start]

theorem Inv.eq_append (I : s.Inv) (h : s.calls[n]? = some c) (hc : c.isReturned = false)
    : ∃ calls, s.calls = calls ++ [c] ∧ calls.length = n ∧ calls.all Call.isReturned = true
        ∧ s.response = some n ∧ s.Stage n c := by
  rcases List.eq_nil_or_concat s.calls with hnil | ⟨calls, last, hcalls⟩
  . rw [hnil] at h
    contradiction
  . rw [List.concat_eq_append] at hcalls
    obtain ⟨hall, hresponse, hstage⟩ := I.last calls last hcalls
    have hlt : n < s.calls.length := (List.getElem?_eq_some_iff.mp h).1
    rw [hcalls, List.length_append, List.length_singleton] at hlt
    by_cases hn : n = calls.length
    . subst hn
      rw [hcalls, List.getElem?_concat_length] at h
      obtain rfl := Option.some.inj h
      exact ⟨calls, hcalls, rfl, hall, hresponse, hstage⟩
    . rw [hcalls, List.getElem?_append_left (by omega)] at h
      have hreturned := List.all_eq_true.mp hall c (List.mem_of_getElem? h)
      rw [hc] at hreturned
      contradiction

theorem inv_of_last (hall : calls.all Call.isReturned = true) (hcalls : s.calls = calls ++ [c])
    (hresponse : s.response = some calls.length) (hstage : s.Stage calls.length c)
    (hold : ∀ (call : Nat) result, calls[call]? = some (.returned result)
      → ∃ answer, result = some answer ∧ (call, answer) ∈ s.answered)
    (hnew : ∀ result, c = .returned result
      → ∃ answer, result = some answer ∧ (calls.length, answer) ∈ s.answered)
    : s.Inv where
  returned := by
    intro call result h
    have hlt : call < s.calls.length := (List.getElem?_eq_some_iff.mp h).1
    rw [hcalls, List.length_append, List.length_singleton] at hlt
    rw [hcalls] at h
    by_cases hcall : call = calls.length
    . subst hcall
      rw [List.getElem?_concat_length] at h
      exact hnew result (Option.some.inj h)
    . rw [List.getElem?_append_left (by omega)] at h
      exact hold call result h
  quiet := by
    intro hnil
    rw [hcalls] at hnil
    simp at hnil
  last := by
    intro calls' c' hcalls'
    obtain ⟨rfl, heq⟩ := List.append_inj' (hcalls.symm.trans hcalls') rfl
    obtain rfl := List.singleton_inj.mp heq
    exact ⟨hall, hresponse, hstage⟩

theorem Inv.hold (I : s.Inv) (hcalls : s.calls = calls ++ [c]) (call : Nat) (result : Option ρ)
    (h : calls[call]? = some (.returned result))
    : ∃ answer, result = some answer ∧ (call, answer) ∈ s.answered := by
  have hlt : call < calls.length := (List.getElem?_eq_some_iff.mp h).1
  refine I.returned call result ?_
  rwa [hcalls, List.getElem?_append_left hlt]

theorem set_last (hcalls : s.calls = calls ++ [c]) (c' : Call ρ)
    : s.calls.set calls.length c' = calls ++ [c'] := by
  simp [hcalls]

theorem Quiet.requests_eq (Q : s.Quiet) : s.requests = fun _ => [] := funext fun session => (Q session).1

theorem Quiet.replies_eq (Q : s.Quiet) : s.replies = fun _ => [] := funext fun session => (Q session).2

theorem UnderWay.congr (U : s.UnderWay n session) (hrequests : s'.requests = s.requests)
    (hreplies : s'.replies = s.replies) (hobjects : s'.objects = s.objects)
    (hanswered : s'.answered = s.answered) : s'.UnderWay n session := by
  cases s'
  cases s
  subst hrequests hreplies hobjects hanswered
  cases U with
  | requested h1 h2 h3 => exact .requested h1 h2 h3
  | replied answer h1 h2 h3 h4 => exact .replied answer h1 h2 h3 h4
  | received answer h1 h2 h3 => exact .received answer h1 h2 h3

theorem eq_of_update {α : Type} {x : α} {xs ys : List α} {session' : Nat}
    (h : Function.update (fun _ => []) session' ys session = x :: xs) : session = session' ∧ ys = x :: xs := by
  by_cases hsession : session = session'
  . subst hsession
    rw [Function.update_self] at h
    exact ⟨rfl, h⟩
  . rw [Function.update_of_ne hsession] at h
    contradiction

theorem Inv.underWay (I : s.Inv) (hnot : ¬ s.Quiet)
    : ∃ calls c session, s.calls = calls ++ [c] ∧ calls.all Call.isReturned = true
        ∧ s.response = some calls.length ∧ c.isReturned = false ∧ s.UnderWay calls.length session
        ∧ ∀ s' : SyncCalls ρ, s'.UnderWay calls.length session → s'.Stage calls.length c := by
  rcases List.eq_nil_or_concat s.calls with hnil | ⟨calls, c, hcalls⟩
  . exact absurd (I.quiet hnil) hnot
  . rw [List.concat_eq_append] at hcalls
    obtain ⟨hall, hresponse, hstage⟩ := I.last calls c hcalls
    cases c with
    | created => exact absurd hstage.1 hnot
    | written =>
      obtain ⟨session, hsession⟩ := hstage
      exact ⟨calls, _, session, hcalls, hall, hresponse, rfl, hsession, fun _ h => ⟨session, h⟩⟩
    | waiting =>
      obtain ⟨heq, session, hsession⟩ := hstage
      exact ⟨calls, _, session, hcalls, hall, hresponse, rfl, hsession, fun _ h => ⟨heq, session, h⟩⟩
    | woken => exact absurd hstage.1 hnot
    | returned => exact absurd hstage hnot

theorem not_returned {result : Option ρ} (hc : c.isReturned = false) : c ≠ .returned result := by
  rintro rfl
  contradiction

theorem Inv.quiet_of_all (I : s.Inv) (hall : s.calls.all Call.isReturned = true) : s.Quiet := by
  rcases List.eq_nil_or_concat s.calls with hnil | ⟨calls, c, hcalls⟩
  . exact I.quiet hnil
  . rw [List.concat_eq_append] at hcalls
    have hc : c.isReturned = true := by
      refine List.all_eq_true.mp hall c ?_
      rw [hcalls]
      simp
    obtain ⟨-, -, hstage⟩ := I.last calls c hcalls
    cases c with
    | returned => exact hstage
    | _ => contradiction

theorem Inv.answer (I : s.Inv) {call : Nat} {requests : List Nat} (result : ρ)
    (hrequests : s.requests session = call :: requests)
    : Inv { s with
        requests := Function.update s.requests session requests
        replies := Function.update s.replies session (s.replies session ++ [(call, result)])
        answered := s.answered ++ [(call, result)] } := by
  have hnot : ¬ s.Quiet := by
    intro hquiet
    rw [(hquiet session).1] at hrequests
    contradiction
  obtain ⟨calls, c, session', hcalls, hall, hresponse, hc, hunder, hstage⟩ := I.underWay hnot
  cases hunder with
  | requested hrequests' hreplies hobject =>
    rw [hrequests'] at hrequests
    obtain ⟨rfl, hcons⟩ := eq_of_update hrequests
    obtain ⟨rfl, rfl⟩ := List.cons.inj hcons
    refine inv_of_last hall hcalls hresponse (hstage _ (.replied result ?_ ?_ ?_ hobject)) ?_
      fun _ hreturned => absurd hreturned (not_returned hc)
    . simp [hrequests']
    . simp [hreplies]
    . simp
    . intro call result' hcall
      obtain ⟨answer, heq, hanswered⟩ := I.hold hcalls call result' hcall
      exact ⟨answer, heq, List.mem_append_left _ hanswered⟩
  | replied _ hrequests' =>
    rw [hrequests'] at hrequests
    contradiction
  | received _ hquiet => exact absurd hquiet hnot

theorem Inv.receive (I : s.Inv) {call object : Nat} {result : ρ} {replies : List (Nat × ρ)}
    (hreplies : s.replies session = (call, result) :: replies) (hobject : s.response = some object)
    : Inv { s with
        replies := Function.update s.replies session replies
        objects := Function.update s.objects object (setResult (s.objects object) result) } := by
  have hnot : ¬ s.Quiet := by
    intro hquiet
    rw [(hquiet session).2] at hreplies
    contradiction
  obtain ⟨calls, c, session', hcalls, hall, hresponse, hc, hunder, hstage⟩ := I.underWay hnot
  rw [hobject] at hresponse
  obtain rfl := Option.some.inj hresponse
  cases hunder with
  | requested _ hreplies' =>
    rw [hreplies'] at hreplies
    contradiction
  | replied answer hrequests hreplies' hanswered hpermits =>
    rw [hreplies'] at hreplies
    obtain ⟨rfl, hcons⟩ := eq_of_update hreplies
    obtain ⟨heq, rfl⟩ := List.cons.inj hcons
    obtain ⟨rfl, rfl⟩ := Prod.mk.inj heq
    refine inv_of_last hall hcalls hobject (hstage _ (.received answer ?_ hanswered ?_)) (I.hold hcalls)
      fun _ hreturned => absurd hreturned (not_returned hc)
    . intro session'
      simp [hrequests, hreplies', Function.update_idem]
    . simp [setResult, hpermits]
  | received _ hquiet => exact absurd hquiet hnot

theorem Inv.step (I : s.Inv) (hok : s.OneAtATime a) (h : s.step a = some s') : s'.Inv := by
  cases a with
  | create session =>
    obtain rfl := Option.some.inj h
    exact inv_of_last hok rfl rfl ⟨I.quiet_of_all hok, by simp⟩ I.returned nofun
  | write call =>
    simp only [SyncCalls.step] at h
    split at h
    . next session hcall =>
      obtain rfl := Option.some.inj h
      obtain ⟨calls, hcalls, rfl, hall, hresponse, hquiet, hobject⟩ := I.eq_append hcall rfl
      refine inv_of_last (c := .written) hall (set_last hcalls _) hresponse ⟨session, .requested ?_ ?_ hobject⟩
        (I.hold hcalls) nofun
      . simp [hquiet.requests_eq]
      . exact hquiet.replies_eq
    . contradiction
  | blockUntilRelease call =>
    simp only [SyncCalls.step] at h
    split at h
    . next object hcall hobject =>
      obtain rfl := Option.some.inj h
      obtain ⟨calls, hcalls, rfl, hall, hresponse, session, hunder⟩ := I.eq_append hcall rfl
      rw [hobject] at hresponse
      obtain rfl := Option.some.inj hresponse
      exact inv_of_last hall (set_last hcalls _) hobject ⟨rfl, session, hunder.congr rfl rfl rfl rfl⟩
        (I.hold hcalls) nofun
    . contradiction
  | acquire call =>
    simp only [SyncCalls.step] at h
    split at h
    . next object hcall =>
      split at h
      . next hpermits =>
        obtain rfl := Option.some.inj h
        obtain ⟨calls, hcalls, rfl, hall, hresponse, rfl, session, hunder⟩ := I.eq_append hcall rfl
        cases hunder with
        | requested _ _ hobject => omega
        | replied _ _ _ _ hobject => omega
        | received answer hquiet hanswered hobject =>
          refine inv_of_last (c := .woken) hall (set_last hcalls _) hresponse
            ⟨hquiet, answer, ?_, hanswered⟩ (I.hold hcalls) nofun
          simp [hobject]
      . contradiction
    . contradiction
  | getResult call =>
    simp only [SyncCalls.step] at h
    split at h
    . next object hcall hobject =>
      obtain rfl := Option.some.inj h
      obtain ⟨calls, hcalls, rfl, hall, hresponse, hquiet, answer, hresult, hanswered⟩ :=
        I.eq_append hcall rfl
      rw [hobject] at hresponse
      obtain rfl := Option.some.inj hresponse
      refine inv_of_last hall (set_last hcalls _) hobject hquiet (I.hold hcalls) ?_
      rintro result ⟨⟩
      exact ⟨answer, hresult, hanswered⟩
    . contradiction
  | answer session result =>
    simp only [SyncCalls.step] at h
    split at h
    . next hrequests =>
      obtain rfl := Option.some.inj h
      exact I.answer result hrequests
    . contradiction
  | response session =>
    simp only [SyncCalls.step] at h
    split at h
    . next hreplies hobject =>
      obtain rfl := Option.some.inj h
      exact I.receive hreplies hobject
    . contradiction

theorem Inv.matched (I : s.Inv) : s.Matched where
  returned := I.returned
  released := by
    intro call object hcall hquiet
    obtain ⟨calls, hcalls, rfl, hall, hresponse, rfl, session, hunder⟩ := I.eq_append hcall rfl
    cases hunder with
    | requested hrequests =>
      have hnil := (hquiet session).1
      simp [hrequests] at hnil
    | replied _ _ hreplies =>
      have hnil := (hquiet session).2
      simp [hreplies] at hnil
    | received answer _ _ hobject =>
      rw [hobject]
      exact Nat.one_pos

/-- Calls that begin one after another return what their own requests are answered with, and none hangs. -/
theorem matched_of_run {as : List (SyncAction ρ)} (hrun : Run (stepOf step) OneAtATime start as s)
    : s.Matched :=
  (hrun.invariant Inv inv_start fun _ _ _ I hok hstep => I.step hok hstep).matched

def calledInTurn : List (SyncAction Nat) :=
  [.create 1, .write 0, .answer 1 7, .blockUntilRelease 0, .response 1, .acquire 0, .getResult 0,
    .create 2, .write 1, .blockUntilRelease 1, .answer 2 8, .response 2, .acquire 1, .getResult 1]

theorem matched_of_run_calledInTurn
    : ∃ s, Run (stepOf step) OneAtATime start calledInTurn s
        ∧ s.calls = [.returned (some 7), .returned (some 8)] ∧ s.Matched := by
  obtain ⟨s, hrun, hcalls⟩ : ∃ s, Run (stepOf step) OneAtATime start calledInTurn s
      ∧ s.calls = [.returned (some 7), .returned (some 8)] := Run.exists_of_guarded (by decide)
  exact ⟨s, hrun, hcalls, matched_of_run hrun⟩

def sharedObject : List (SyncAction Nat) :=
  [.create 1, .create 1, .write 0, .write 1, .blockUntilRelease 0, .blockUntilRelease 1, .answer 1 7,
    .answer 1 8, .response 1, .response 1, .acquire 0, .getResult 0]

def overwrittenField : List (SyncAction Nat) :=
  [.create 1, .write 0, .blockUntilRelease 0, .create 1, .write 1, .blockUntilRelease 1, .answer 1 7,
    .answer 1 8, .response 1, .response 1, .acquire 1, .getResult 1]

theorem matched_counterexample
    : (∃ s, Run (stepOf step) anyLabel start sharedObject s ∧ s.answered = [(0, 7), (1, 8)]
        ∧ s.calls = [.returned (some 8), .waiting 1] ∧ ¬ s.Matched)
      ∧ ∃ s, Run (stepOf step) anyLabel start overwrittenField s
        ∧ s.calls = [.waiting 0, .returned (some 8)] ∧ (s.objects 0).permits = 0
        ∧ s.requests 1 = [] ∧ s.replies 1 = [] := by
  constructor
  . obtain ⟨s, hrun, hanswered, hcalls⟩ : ∃ s, Run (stepOf step) anyLabel start sharedObject s
        ∧ s.answered = [(0, 7), (1, 8)] ∧ s.calls = [.returned (some 8), .waiting 1] :=
      Run.exists_of_foldlM (by decide)
    refine ⟨s, hrun, hanswered, hcalls, fun M => ?_⟩
    obtain ⟨answer, hresult, hmem⟩ := M.returned 0 (some 8) (by simp [hcalls])
    obtain rfl := Option.some.inj hresult
    rw [hanswered] at hmem
    simp at hmem
  . exact Run.exists_of_foldlM (by decide)

end SyncCalls

end Rmi

end WzGame
