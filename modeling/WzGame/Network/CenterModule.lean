import WzGame.Util.MapObject
import WzGame.Util.Runs

/-!
This module contains how the center hands out login tokens and checks them, and when a token admits
nobody but its owner.
-/

namespace WzGame

open Runs

-- `String.split` at one character: the empty parts at the end are dropped.
def MapObject.split (sep : Char) (cs : List Char) : List (List Char) :=
  if sep ∈ cs then
    ((cs.splitOn sep).reverse.dropWhile (· = [])).reverse
  else
    [cs]

namespace CenterModule

structure LoginInfo where
  userId : Int

structure PBLoginReq where
  userId : Int
  token : String

abbrev TokenMap := String → Option LoginInfo

/--
The user and the token that a request to dispatch a gate names, when the center comes to store them:
there is a gate, and nothing throws before.
-/
def dispatched (gate : Option (String × Int)) (request : List String) : Option (Int × String) := do
  let _ ← gate
  let strs := MapObject.split ':' (← request.head?).toList
  let userId ← MapObject.parseInt (← strs[0]?)
  return (userId, .ofList (← strs[1]?))

def actionDispatchGate (gate : Option (String × Int)) (request : List String) (tokenMap : TokenMap)
    : TokenMap × Option (List String) :=
  match gate, dispatched gate request with
  | some (gateIp, gatePort), some (userId, token) =>
    (Function.update tokenMap token (some ⟨userId⟩), some [gateIp ++ ":" ++ toString gatePort])
  | _, _ => (tokenMap, none)

def actionValidLogin (logic : Bool) (request : Option PBLoginReq) (tokenMap : TokenMap)
    : Option PBLoginReq := do
  let request ← request
  let _ ← tokenMap request.token
  if logic then some request else none

inductive Msg where
  | dispatchGate (gate : Option (String × Int)) (request : List String)
  | login (logic : Bool) (request : Option PBLoginReq)

structure State where
  tokenMap : TokenMap
  stored : List (Int × String)

def start : State := ⟨fun _ => none, []⟩

def step (s : State) : Msg → Option State
  | .dispatchGate gate request =>
    some ⟨(actionDispatchGate gate request s.tokenMap).1,
      s.stored ++ (dispatched gate request).toList⟩
  | .login _ _ => some s

def forwarded (s : State) : Msg → Option PBLoginReq
  | .dispatchGate _ _ => none
  | .login logic request => actionValidLogin logic request s.tokenMap

def Owned (s : State) (msg : Msg) : Prop :=
  ∀ req, forwarded s msg = some req → (req.userId, req.token) ∈ s.stored

def Honest (s : State) (msg : Msg) : Prop :=
  ∀ req, msg = .login true (some req) → (∃ userId, (userId, req.token) ∈ s.stored) →
    (req.userId, req.token) ∈ s.stored

def Recorded (s : State) : Prop :=
  ∀ token, s.tokenMap token ≠ none ↔ ∃ userId, (userId, token) ∈ s.stored

variable {s s' : State} {msg : Msg} {msgs : List Msg}

theorem recorded_start : Recorded start := by
  intro token
  simp [start]

theorem Recorded.step (R : Recorded s) (h : step s msg = some s') : Recorded s' := by
  cases msg with
  | login _ _ =>
    obtain rfl := Option.some.inj h
    exact R
  | dispatchGate gate request =>
    obtain rfl := Option.some.inj h
    intro token
    cases hdispatched : dispatched gate request with
    | none =>
      have hmap : (actionDispatchGate gate request s.tokenMap).1 = s.tokenMap := by
        simp [actionDispatchGate, hdispatched]
      simpa [hmap] using R token
    | some p =>
      obtain ⟨userId, token'⟩ := p
      obtain ⟨gateIp, gatePort, rfl⟩ : ∃ gateIp gatePort, gate = some (gateIp, gatePort) := by
        cases gate with
        | none => simp [dispatched] at hdispatched
        | some gate => exact ⟨gate.1, gate.2, rfl⟩
      have hmap : (actionDispatchGate (some (gateIp, gatePort)) request s.tokenMap).1
          = Function.update s.tokenMap token' (some ⟨userId⟩) := by
        simp [actionDispatchGate, hdispatched]
      have R := R token
      simp only [hmap, Option.toList_some, List.mem_append, List.mem_singleton, Prod.mk.injEq]
      by_cases htoken : token = token'
      . subst htoken
        simp only [Function.update_self]
        constructor
        . intro _
          exact ⟨userId, .inr ⟨rfl, trivial⟩⟩
        . intro _
          simp
      . simpa [Function.update_of_ne htoken, htoken] using R

theorem owned_iff_honest (R : Recorded s) : Owned s msg ↔ Honest s msg := by
  cases msg with
  | dispatchGate gate request => simp [Owned, Honest, forwarded]
  | login logic request =>
    cases request with
    | none => simp [Owned, Honest, forwarded, actionValidLogin]
    | some req =>
      cases logic with
      | false => simp [Owned, Honest, forwarded, actionValidLogin]
      | true =>
        have R := R req.token
        have hforwarded : ∀ req', forwarded s (.login true (some req)) = some req'
            ↔ (∃ userId, (userId, req.token) ∈ s.stored) ∧ req = req' := by
          intro req'
          rw [← R]
          cases h : s.tokenMap req.token <;> simp [forwarded, actionValidLogin, h]
        unfold Owned Honest
        simp only [hforwarded, Msg.login.injEq, Option.some.injEq, true_and]
        constructor
        . rintro h _ rfl hstored
          exact h req ⟨hstored, rfl⟩
        . rintro h _ ⟨hstored, rfl⟩
          exact h req rfl hstored

/--
In a run of the center every request that is forwarded presents a token of its own user if and only
if every request with a token that was stored does.
-/
theorem owned_run_iff
    : Run (stepOf step) Owned start msgs s ↔ Run (stepOf step) Honest start msgs s :=
  Run.congr Recorded recorded_start (fun _ _ _ R h => R.step h) fun _ _ R => owned_iff_honest R

theorem owned_counterexample
    : ¬ ∀ msgs s, Run (stepOf step) anyLabel start msgs s →
        Run (stepOf step) Owned start msgs s := by
  intro h
  let dispatch : Msg := .dispatchGate (some ("10.0.0.1", 9091)) ["5:c4ca"]
  let login : Msg := .login true (some ⟨6, "c4ca"⟩)
  have hrun := h ([dispatch] ++ [login]) _ (Run.of_foldlM rfl)
  obtain ⟨s, hfst, howned, -⟩ := run_concat_iff.mp hrun
  rw [← List.nil_append [dispatch]] at hfst
  obtain ⟨_, hnil, -, hstep⟩ := run_concat_iff.mp hfst
  obtain rfl := run_nil_iff.mp hnil
  obtain rfl := Option.some.inj hstep
  have hstored := howned ⟨6, "c4ca"⟩ rfl
  revert hstored
  decide

end CenterModule

end WzGame
