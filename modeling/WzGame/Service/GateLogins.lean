import WzGame.Service.GateHandlers
import WzGame.Util.Runs

/-!
This module contains when the result of a login reaches the connection that has asked for it, however
the event loops of the gate interleave.
-/

namespace WzGame.Gate

open Runs

def State.Asked (s : State) (request ctx : Nat) : Prop :=
  ∃ userId, s.requests[request]? = some (ctx, userId)

/--
A connection is made valid by the results of its own requests only, and it gets the answer to each
of them unless it is closed or the answer is just being registered.
-/
structure Delivered (s : State) : Prop where
  own : ∀ outcome ∈ s.validated, s.Asked outcome.request outcome.ctx
  answer : ∀ request id ctx, (request, id) ∈ s.accepted → s.Asked request ctx →
    (s.channels ctx).isOpen = true →
      ⟨ctx, request, id⟩ ∈ s.written ∨ ∃ agent, s.link = .registering agent request id

/--
The condition of a step: the connection of the request whose result is handled is the last one that
has been registered for its user, or else it is closed and none has been registered.
-/
def Correlated (s : State) : Action → Prop
  | .actionLoginResult request _ =>
    ∀ ctx userId, s.requests[request]? = some (ctx, userId) →
      match s.userMap userId with
      | some agent => (s.agents agent).ctx = ctx
      | none => (s.channels ctx).isOpen = false
  | _ => True

variable {s s' : State} {ctx request agent : Nat} {userId : Int32} {id : Int64} {a : Action}
  {actions : List Action}

structure Quiet (s s' : State) : Prop where
  requests : s.requests <+: s'.requests
  answered : s.answered ⊆ s'.answered
  sent : ∀ request ∈ s'.answered, request ∈ s.answered ∨ request < s'.requests.length
  created : s.created ≤ s'.created
  ctx : ∀ agent < s.created, (s'.agents agent).ctx = (s.agents agent).ctx
  user : ∀ userId agent, s'.userMap userId = some agent →
    s.userMap userId = some agent ∨ agent < s'.created
  isOpen : ∀ ctx, (s'.channels ctx).isOpen = true → (s.channels ctx).isOpen = true
  accepted : s'.accepted = s.accepted
  validated : s'.validated = s.validated
  written : s'.written = s.written
  registering : ∀ agent request id, s'.link = .registering agent request id ↔
    s.link = .registering agent request id

theorem Quiet.refl : Quiet s s :=
  ⟨List.prefix_rfl, List.Subset.refl _, fun _ => .inl, Nat.le_refl _, fun _ _ => rfl,
    fun _ _ => .inl, fun _ h => h, rfl, rfl, rfl, fun _ _ _ => .rfl⟩

theorem quiet_setChannel {channel : Channel}
    (hopen : channel.isOpen = true → (s.channels ctx).isOpen = true)
    : Quiet s (s.setChannel ctx channel) := by
  refine { Quiet.refl with isOpen := ?_ }
  intro ctx' h
  rw [State.setChannel_channels] at h
  split at h
  case isTrue heq => exact heq ▸ hopen h
  case isFalse => exact h

theorem quiet_setLoop {loop : Loop} : Quiet s (s.setLoop ctx loop) :=
  quiet_setChannel fun h => h

theorem sendRequest_quiet (hstep : sendRequest s ctx userId = some s') : Quiet s s' := by
  unfold sendRequest at hstep
  split at hstep
  case h_2 => cases hstep
  case h_1 =>
    cases hstep
    exact { @quiet_setLoop s ctx (.sent userId) with
      requests := List.prefix_append _ _
      sent := fun _ => .inl }

theorem registerUserAgent_quiet (hstep : registerUserAgent s ctx = some s') : Quiet s s' := by
  unfold registerUserAgent at hstep
  split at hstep
  case h_2 => cases hstep
  case h_1 =>
    cases hstep
    have Q : Quiet s (s.setLoop ctx (.registered s.created)) := quiet_setLoop
    refine { Q with created := Nat.le_succ _, ctx := ?_, user := ?_ }
    . intro agent h
      exact congrArg CocoAgent.ctx (Function.update_of_ne (Nat.ne_of_lt h) _ _)
    . intro userId' agent h
      simp only [Function.update_apply] at h
      split at h
      case isTrue =>
        obtain rfl := Option.some.inj h
        exact .inr (Nat.lt_succ_self _)
      case isFalse => exact .inl h

theorem setAttribute_quiet (hstep : setAttribute s ctx = some s') : Quiet s s' := by
  unfold setAttribute at hstep
  split at hstep
  case h_2 => cases hstep
  case h_1 hchannel =>
    cases hstep
    exact quiet_setChannel fun h => by simpa [hchannel] using h

theorem close_quiet (hstep : close s ctx = some s') : Quiet s s' := by
  cases hstep
  exact quiet_setChannel nofun

theorem channelInactive_quiet (hstep : channelInactive s ctx = some s') : Quiet s s' := by
  unfold channelInactive at hstep
  split at hstep
  case h_1 =>
    cases hstep
    exact quiet_setLoop
  case h_2 =>
    cases hstep
    exact quiet_setLoop
  case h_3 => cases hstep

theorem removeAgent_quiet (hstep : removeAgent s ctx = some s') : Quiet s s' := by
  unfold removeAgent at hstep
  split at hstep
  case h_2 => cases hstep
  case h_1 =>
    cases hstep
    exact { @quiet_setLoop s ctx .inactive with }

theorem refuse_quiet (hstep : refuse s request = some s') : Quiet s s' := by
  unfold refuse at hstep
  split at hstep
  case isFalse => cases hstep
  case isTrue hpending =>
    cases hstep
    refine { Quiet.refl with answered := List.subset_append_left _ _, sent := ?_ }
    intro request' h
    rcases List.mem_append.mp h with h | h
    . exact .inl h
    . exact .inr (List.mem_singleton.mp h ▸ hpending.1)

theorem kickAgent_quiet (hstep : kickAgent s id = some s') : Quiet s s' := by
  unfold kickAgent at hstep
  split at hstep
  case h_1 =>
    cases hstep
    exact .refl
  case h_2 hlink _ =>
    cases hstep
    exact { Quiet.refl with registering := by simp [hlink] }
  case h_3 => cases hstep

theorem closeAgent_quiet (hstep : closeAgent s = some s') : Quiet s s' := by
  unfold closeAgent at hstep
  split at hstep
  case h_2 => cases hstep
  case h_1 agent hlink =>
    cases hstep
    have Q := @quiet_setChannel s (s.agents agent).ctx
      ⟨none, false, (s.channels (s.agents agent).ctx).loop⟩ nofun
    exact { Q with registering := by simp [hlink] }

theorem step_quiet (hstep : step s a = some s')
    : Quiet s s' ∨ (∃ request id, a = .actionLoginResult request id) ∨ a = .registerAgent := by
  cases a with
  | sendRequest ctx userId => exact .inl (sendRequest_quiet hstep)
  | registerUserAgent ctx => exact .inl (registerUserAgent_quiet hstep)
  | setAttribute ctx => exact .inl (setAttribute_quiet hstep)
  | close ctx => exact .inl (close_quiet hstep)
  | channelInactive ctx => exact .inl (channelInactive_quiet hstep)
  | removeAgent ctx => exact .inl (removeAgent_quiet hstep)
  | refuse request => exact .inl (refuse_quiet hstep)
  | actionLoginResult request id => exact .inr (.inl ⟨request, id, rfl⟩)
  | registerAgent => exact .inr (.inr rfl)
  | kickAgent id => exact .inl (kickAgent_quiet hstep)
  | closeAgent => exact .inl (closeAgent_quiet hstep)

structure Answered (s : State) : Prop where
  user : ∀ userId agent, s.userMap userId = some agent → agent < s.created
  sent : ∀ request ∈ s.answered, request < s.requests.length
  accepted : ∀ request id, (request, id) ∈ s.accepted → request ∈ s.answered
  written : ∀ outcome ∈ s.written, outcome.request ∈ s.answered
  registering : ∀ agent request id, s.link = .registering agent request id →
    agent < s.created ∧ request ∈ s.answered

theorem answered_start : Answered start := by
  constructor <;> simp [start]

theorem Answered.quiet (A : Answered s) (Q : Quiet s s') : Answered s' := by
  constructor
  . intro userId agent h
    rcases Q.user userId agent h with h | h
    . exact Nat.lt_of_lt_of_le (A.user userId agent h) Q.created
    . exact h
  . intro request h
    rcases Q.sent request h with h | h
    . exact Nat.lt_of_lt_of_le (A.sent request h) Q.requests.length_le
    . exact h
  . intro request id h
    rw [Q.accepted] at h
    exact Q.answered (A.accepted request id h)
  . intro outcome h
    rw [Q.written] at h
    exact Q.answered (A.written outcome h)
  . intro agent request id h
    obtain ⟨hlt, hanswered⟩ := A.registering agent request id ((Q.registering agent request id).mp h)
    exact ⟨Nat.lt_of_lt_of_le hlt Q.created, Q.answered hanswered⟩

theorem actionLoginResult_cases (hstep : actionLoginResult s request id = some s')
    : ∃ ctx userId, s.link = .idle ∧ s.requests[request]? = some (ctx, userId)
      ∧ request ∉ s.answered
      ∧ (s.userMap userId = none
          ∧ s' = { s with
              answered := s.answered ++ [request]
              accepted := s.accepted ++ [(request, id)] }
        ∨ ∃ agent, s.userMap userId = some agent
          ∧ s' = { s with
              answered := s.answered ++ [request]
              accepted := s.accepted ++ [(request, id)]
              agents :=
                Function.update s.agents agent { s.agents agent with valid := true, playerId := id }
              validated := s.validated ++ [⟨(s.agents agent).ctx, request, id⟩]
              link := .registering agent request id }) := by
  unfold actionLoginResult at hstep
  split at hstep
  case h_2 => cases hstep
  case h_1 ctx userId hlink hrequest =>
    split at hstep
    case isTrue => cases hstep
    case isFalse hanswered =>
      refine ⟨ctx, userId, hlink, hrequest, hanswered, ?_⟩
      cases huser : s.userMap userId with
      | none =>
        simp only [huser] at hstep
        cases hstep
        exact .inl ⟨rfl, rfl⟩
      | some agent =>
        simp only [huser] at hstep
        cases hstep
        exact .inr ⟨agent, rfl, rfl⟩

theorem Answered.actionLoginResult (A : Answered s)
    (hstep : actionLoginResult s request id = some s')
    : Answered s' := by
  obtain ⟨ctx, userId, hlink, hrequest, -, hcases⟩ := actionLoginResult_cases hstep
  have hsent : ∀ request' ∈ s.answered ++ [request], request' < s.requests.length := by
    intro request' h
    rcases List.mem_append.mp h with h | h
    . exact A.sent request' h
    . obtain rfl := List.mem_singleton.mp h
      exact (List.getElem?_eq_some_iff.mp hrequest).1
  have haccepted : ∀ request' id', (request', id') ∈ s.accepted ++ [(request, id)] →
      request' ∈ s.answered ++ [request] := by
    intro request' id' h
    rcases List.mem_append.mp h with h | h
    . exact List.mem_append_left _ (A.accepted request' id' h)
    . cases List.mem_singleton.mp h
      exact List.mem_append_right _ (List.mem_singleton_self _)
  have hwritten : ∀ outcome ∈ s.written, outcome.request ∈ s.answered ++ [request] :=
    fun outcome h => List.mem_append_left _ (A.written outcome h)
  rcases hcases with ⟨-, rfl⟩ | ⟨agent, huser, rfl⟩
  . refine ⟨A.user, hsent, haccepted, hwritten, ?_⟩
    intro _ _ _ h
    simp [hlink] at h
  . refine ⟨A.user, hsent, haccepted, hwritten, ?_⟩
    rintro _ _ _ ⟨⟩
    exact ⟨A.user userId agent huser, List.mem_append_right _ (List.mem_singleton_self _)⟩

theorem registerAgent_cases (hstep : registerAgent s = some s')
    : ∃ agent request id, s.link = .registering agent request id
      ∧ s'.requests = s.requests ∧ s'.answered = s.answered ∧ s'.created = s.created
      ∧ s'.agents = s.agents ∧ s'.userMap = s.userMap ∧ s'.channels = s.channels
      ∧ s'.accepted = s.accepted ∧ s'.validated = s.validated ∧ s'.link = .idle
      ∧ s'.written = s.written ++ [⟨(s.agents agent).ctx, request, id⟩] := by
  unfold registerAgent at hstep
  split at hstep
  case h_2 => cases hstep
  case h_1 agent request id hlink =>
    cases hstep
    exact ⟨agent, request, id, hlink, rfl, rfl, rfl, rfl, rfl, rfl, rfl, rfl, rfl, rfl⟩

theorem Answered.registerAgent (A : Answered s) (hstep : registerAgent s = some s')
    : Answered s' := by
  obtain ⟨agent, request, id, hregistering, hrequests, hanswered, hcreated, -, huser, -, haccepted,
    -, hlink, hwritten⟩ := registerAgent_cases hstep
  constructor
  . simpa only [huser, hcreated] using A.user
  . simpa only [hanswered, hrequests] using A.sent
  . simpa only [haccepted, hanswered] using A.accepted
  . intro outcome h
    rw [hwritten] at h
    rw [hanswered]
    rcases List.mem_append.mp h with h | h
    . exact A.written outcome h
    . cases List.mem_singleton.mp h
      exact (A.registering agent request id hregistering).2
  . intro _ _ _ h
    simp [hlink] at h

theorem Answered.step (A : Answered s) (hstep : step s a = some s') : Answered s' := by
  rcases step_quiet hstep with Q | ⟨request, id, rfl⟩ | rfl
  . exact A.quiet Q
  . exact A.actionLoginResult hstep
  . exact A.registerAgent hstep

structure Tracked (s : State) : Prop where
  delivered : Delivered s
  registering : ∀ agent request id, s.link = .registering agent request id →
    s.Asked request (s.agents agent).ctx

theorem tracked_start : Tracked start := by
  refine ⟨⟨?_, ?_⟩, ?_⟩ <;> simp [start]

theorem Quiet.asked (Q : Quiet s s') (h : s.Asked request ctx) : s'.Asked request ctx := by
  obtain ⟨userId, hrequest⟩ := h
  obtain ⟨requests, hrequests⟩ := Q.requests
  refine ⟨userId, ?_⟩
  rw [← hrequests, List.getElem?_append_left (List.getElem?_eq_some_iff.mp hrequest).1]
  exact hrequest

theorem Quiet.asked_of (Q : Quiet s s') (A : Answered s) (hanswered : request ∈ s.answered)
    (h : s'.Asked request ctx)
    : s.Asked request ctx := by
  obtain ⟨userId, hrequest⟩ := h
  obtain ⟨requests, hrequests⟩ := Q.requests
  refine ⟨userId, ?_⟩
  rwa [← hrequests, List.getElem?_append_left (A.sent request hanswered)] at hrequest

theorem Tracked.quiet (T : Tracked s) (A : Answered s) (Q : Quiet s s') : Tracked s' := by
  refine ⟨⟨?_, ?_⟩, ?_⟩
  . intro outcome h
    rw [Q.validated] at h
    exact Q.asked (T.delivered.own outcome h)
  . intro request id ctx haccepted hasked hopen
    rw [Q.accepted] at haccepted
    have hasked := Q.asked_of A (A.accepted request id haccepted) hasked
    rw [Q.written]
    rcases T.delivered.answer request id ctx haccepted hasked (Q.isOpen ctx hopen) with h | ⟨agent, h⟩
    . exact .inl h
    . exact .inr ⟨agent, (Q.registering agent request id).mpr h⟩
  . intro agent request id h
    have h := (Q.registering agent request id).mp h
    rw [Q.ctx agent (A.registering agent request id h).1]
    exact Q.asked (T.registering agent request id h)

theorem Tracked.actionLoginResult (T : Tracked s)
    (hok : Correlated s (.actionLoginResult request id))
    (hstep : actionLoginResult s request id = some s')
    : Tracked s' := by
  obtain ⟨ctx, userId, hlink, hrequest, -, hcases⟩ := actionLoginResult_cases hstep
  have hok := hok ctx userId hrequest
  -- The answers to earlier results have been written: the link is idle.
  have hearlier : ∀ request id ctx, (request, id) ∈ s.accepted → s.Asked request ctx →
      (s.channels ctx).isOpen = true → ⟨ctx, request, id⟩ ∈ s.written := by
    intro request id ctx haccepted hasked hopen
    rcases T.delivered.answer request id ctx haccepted hasked hopen with h | ⟨agent, h⟩
    . exact h
    . simp [hlink] at h
  rcases hcases with ⟨huser, rfl⟩ | ⟨agent, huser, rfl⟩
  . simp only [huser] at hok
    refine ⟨⟨T.delivered.own, ?_⟩, T.registering⟩
    rintro request' id' ctx' haccepted ⟨userId', hasked⟩ hopen
    rcases List.mem_append.mp haccepted with h | h
    . exact .inl (hearlier request' id' ctx' h ⟨userId', hasked⟩ hopen)
    . cases List.mem_singleton.mp h
      cases hrequest.symm.trans hasked
      simp [hok] at hopen
  . simp only [huser] at hok
    subst hok
    refine ⟨⟨?_, ?_⟩, ?_⟩
    . intro outcome h
      rcases List.mem_append.mp h with h | h
      . exact T.delivered.own outcome h
      . cases List.mem_singleton.mp h
        exact ⟨userId, hrequest⟩
    . intro request' id' ctx' haccepted hasked hopen
      rcases List.mem_append.mp haccepted with h | h
      . exact .inl (hearlier request' id' ctx' h hasked hopen)
      . cases List.mem_singleton.mp h
        exact .inr ⟨agent, rfl⟩
    . rintro _ _ _ ⟨⟩
      simp only [Function.update_self]
      exact ⟨userId, hrequest⟩

theorem Tracked.registerAgent (T : Tracked s) (hstep : registerAgent s = some s') : Tracked s' := by
  obtain ⟨agent, request, id, hregistering, hrequests, -, -, hagents, -, hchannels, haccepted,
    hvalidated, hlink, hwritten⟩ := registerAgent_cases hstep
  have hasked : ∀ request ctx, s'.Asked request ctx ↔ s.Asked request ctx := by
    intro request ctx
    unfold State.Asked
    rw [hrequests]
  refine ⟨⟨?_, ?_⟩, ?_⟩
  . intro outcome h
    rw [hvalidated] at h
    exact (hasked _ _).mpr (T.delivered.own outcome h)
  . intro request' id' ctx' h hasked' hopen
    rw [haccepted] at h
    rw [hchannels] at hopen
    have hasked' := (hasked _ _).mp hasked'
    rw [hwritten]
    left
    rcases T.delivered.answer request' id' ctx' h hasked' hopen with h | ⟨agent', h⟩
    . exact List.mem_append_left _ h
    . cases hregistering.symm.trans h
      obtain ⟨userId, hrequest⟩ := T.registering agent request id hregistering
      obtain ⟨userId', hrequest'⟩ := hasked'
      cases hrequest.symm.trans hrequest'
      exact List.mem_append_right _ (List.mem_singleton_self _)
  . intro _ _ _ h
    simp [hlink] at h

theorem Tracked.step (T : Tracked s) (A : Answered s) (hok : Correlated s a)
    (hstep : step s a = some s')
    : Tracked s' := by
  rcases step_quiet hstep with Q | ⟨request, id, rfl⟩ | rfl
  . exact T.quiet A Q
  . exact T.actionLoginResult hok hstep
  . exact T.registerAgent hstep

theorem correlated_of_delivered (A : Answered s) (hstep : Gate.step s a = some s')
    (D : Delivered s')
    : Correlated s a := by
  cases a with
  | actionLoginResult request id =>
    obtain ⟨ctx, userId, hlink, hrequest, hanswered, hcases⟩ := actionLoginResult_cases hstep
    intro ctx' userId' hrequest'
    cases hrequest.symm.trans hrequest'
    rcases hcases with ⟨huser, rfl⟩ | ⟨agent, huser, rfl⟩
    . simp only [huser]
      by_contra hopen
      have hopen : (s.channels ctx).isOpen = true := by simpa using hopen
      rcases D.answer request id ctx (List.mem_append_right _ (List.mem_singleton_self _))
        ⟨userId, hrequest⟩ hopen with h | ⟨agent, h⟩
      . exact hanswered (A.written _ h)
      . simp [hlink] at h
    . simp only [huser]
      obtain ⟨userId', h⟩ := D.own ⟨(s.agents agent).ctx, request, id⟩
        (List.mem_append_right _ (List.mem_singleton_self _))
      cases hrequest.symm.trans h
      rfl
  | _ => trivial

/--
In all states of a run the results have reached the connections that asked for them if and only if
each of them is correlated when it is handled.
-/
theorem delivered_run_iff
    : Run (stepOf step) (fun s a => ∀ s', step s a = some s' → Delivered s') start actions s
        ↔ Run (stepOf step) Correlated start actions s := by
  constructor
  . refine Run.imp Answered answered_start ?_ ?_
    . intro s a s' A _ hstep
      exact A.step hstep
    . intro s a s' A hdelivered hstep
      exact correlated_of_delivered A hstep (hdelivered s' hstep)
  . refine Run.imp (fun s => Answered s ∧ Tracked s) ⟨answered_start, tracked_start⟩ ?_ ?_
    . intro s a s' ⟨A, T⟩ hok hstep
      exact ⟨A.step hstep, T.step A hok hstep⟩
    . intro s a _ ⟨A, T⟩ hok _ s' hstep
      exact (T.step A hok hstep).delivered

theorem delivered_counterexample
    : ¬ ∀ actions s, Run (stepOf step) anyLabel start actions s → Delivered s := by
  intro h
  have hdelivered := h [.sendRequest 0 5, .registerUserAgent 0, .sendRequest 1 5,
    .registerUserAgent 1, .actionLoginResult 0 7] _ (Run.of_foldlM rfl)
  obtain ⟨userId, hasked⟩ := hdelivered.own ⟨1, 0, 7⟩ (List.mem_singleton_self _)
  cases hasked

end WzGame.Gate
