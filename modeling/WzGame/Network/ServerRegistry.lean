import WzGame.Network.CenterSessions
import WzGame.Util.Runs

/-!
This module contains the servers and the runs of the center that they register themselves at.
-/

namespace WzGame

open Runs

namespace ServerRegistry

inductive Event where
  | registered (id : AppId) (dynamicId : Int32) (number : Nat)
  | removed (number : Nat)
deriving DecidableEq

/--
The start times of all runs of the center so far, the server at the other end of each session of this
run, the requests to this run and the answers of all runs that are under way, and the events of this run.
-/
structure State where
  center : Center
  startTimes : List Int64
  servers : Nat → NetClient
  owners : List Nat
  requests : List (Nat × List String)
  answers : List (Nat × List String)
  events : List Event

abbrev StartTime := { time : Int64 // time ≠ 0 }

inductive Action where
  | connect (server : Nat) (remoteAddress : Option String)
  | register (number : Nat) (req : List String)
  | answer (server : Nat) (req : List String)
  | remove (number : Nat)
  | restart (startTime : StartTime)

def start (config : Nat → AppId × List String) (startTime : StartTime) : State where
  center := .start startTime
  startTimes := [startTime]
  servers := fun server => .create (config server).1 (config server).2
  owners := []
  requests := []
  answers := []
  events := []

def connect (s : State) (server : Nat) (remoteAddress : Option String) : State :=
  { s with
    center := s.center.channelActive remoteAddress
    owners := s.owners ++ [server]
    requests := s.requests ++ [(s.owners.length, (s.servers server).sessionCreated)] }

def register (s : State) (number : Nat) (req : List String) : State :=
  let (center, answer) := s.center.actionRegisterServer number req
  let s := { s with center, requests := s.requests.erase (number, req) }
  match answer, center.sessions[number]? with
  | some answer, some session =>
    { s with
      answers := s.answers ++ [(s.owners.getD number 0, answer)]
      events := s.events ++ (session.appId.map (Event.registered · session.serverId number)).toList }
  | _, _ => s

def step (order : Iteration) (s : State) : Action → Option State
  | .connect server remoteAddress => some (connect s server remoteAddress)
  | .register number req => if (number, req) ∈ s.requests then some (register s number req) else none
  | .answer server req =>
    if (server, req) ∈ s.answers then
      ((s.servers server).onResult req).map fun client =>
        { s with
          servers := Function.update s.servers server client
          answers := s.answers.erase (server, req) }
    else
      none
  | .remove number => some { s with
      center := s.center.removeServerSession order number
      events := s.events ++ [.removed number] }
  | .restart startTime =>
    if startTime.val ∈ s.startTimes then
      none
    else
      some { s with
        center := .start startTime
        startTimes := startTime.val :: s.startTimes
        owners := []
        requests := []
        events := [] }

def Holds (s : State) (id : AppId) (dynamicId : Int32) (server : Nat) : Prop :=
  (∃ number, .registered id dynamicId number ∈ s.events ∧ s.owners[number]? = some server)
    ∨ (s.servers server).appId = id ∧ (s.servers server).appDynamicId = dynamicId
      ∧ (s.servers server).connectServerStartTime = s.center.startTime

def Latest (events : List Event) (id : AppId) (dynamicId : Int32) (number : Nat) : Prop :=
  ∃ before after, events = before ++ .registered id dynamicId number :: after
    ∧ (∀ x, .registered id dynamicId x ∉ after) ∧ .removed number ∉ after

/--
If at most 2^32 identifiers have been generated for an application, no two of its servers have held the
same one. The session under an identifier is the latest one, and to remove another one leaves it there.
-/
structure Consistent (order : Iteration) (s : State) : Prop where
  unique : ∀ id dynamicId server server', s.center.manager.idGenMap id ≤ 2 ^ 32
    → Holds s id dynamicId server → Holds s id dynamicId server' → server = server'
  latest : ∀ id dynamicId number, s.center.manager.getServerSession id dynamicId = some number
    ↔ Latest s.events id dynamicId number
  replaced : ∀ id dynamicId number x, s.center.manager.getServerSession id dynamicId = some number
    → x ≠ number
    → (s.center.removeServerSession order x).manager.getServerSession id dynamicId = some number

theorem latest_append {events : List Event} {e : Event} {id : AppId} {dynamicId : Int32} {number : Nat}
    : Latest (events ++ [e]) id dynamicId number
        ↔ e = .registered id dynamicId number
          ∨ Latest events id dynamicId number ∧ (∀ x, e ≠ .registered id dynamicId x)
            ∧ e ≠ .removed number := by
  constructor
  . rintro ⟨before, after, heq, hafter, hremoved⟩
    rcases List.eq_nil_or_concat after with rfl | ⟨after, e', rfl⟩
    . obtain ⟨-, hlast⟩ := List.append_inj' heq rfl
      exact .inl (List.singleton_inj.mp hlast)
    . rw [List.concat_eq_append] at heq hafter hremoved
      rw [← List.cons_append, ← List.append_assoc] at heq
      obtain ⟨rfl, hlast⟩ := List.append_inj' heq rfl
      obtain rfl := List.singleton_inj.mp hlast
      simp only [List.mem_append, List.mem_singleton, not_or] at hafter hremoved
      exact .inr ⟨⟨before, after, rfl, fun x => (hafter x).1, hremoved.1⟩,
        fun x => Ne.symm (hafter x).2, Ne.symm hremoved.2⟩
  . rintro (rfl | ⟨⟨before, after, rfl, hafter, hremoved⟩, hne, hne'⟩)
    . exact ⟨events, [], rfl, nofun, nofun⟩
    . refine ⟨before, after ++ [e], by simp, ?_, ?_⟩
      . intro x
        simp [hafter x, Ne.symm (hne x)]
      . simp [hremoved, Ne.symm hne']

def Given (gen : AppId → Nat → Nat) (m : ServerManager) (id : AppId) (dynamicId : Int32)
    (server : Nat) : Prop :=
  ∃ k < m.idGenMap id, dynamicId = ServerManager.dynamicIdAt k ∧ gen id k = server

structure Inv (gen : AppId → Nat → Nat) (s : State) : Prop where
  manager : s.center.manager.WellFormed
  time : s.center.startTime ∈ s.startTimes
  nonzero : 0 ∉ s.startTimes
  owners : s.owners.length = s.center.sessions.length
  events : ∀ id dynamicId number, .registered id dynamicId number ∈ s.events
    → s.center.appId number = some id
      ∧ ∃ server, s.owners[number]? = some server ∧ Given gen s.center.manager id dynamicId server
  once : ∀ id dynamicId id' dynamicId' number, .registered id dynamicId number ∈ s.events
    → .registered id' dynamicId' number ∈ s.events → id = id' ∧ dynamicId = dynamicId'
  known : ∀ server, (s.servers server).connectServerStartTime = 0
    ∨ (s.servers server).connectServerStartTime ∈ s.startTimes
  servers : ∀ server, (s.servers server).connectServerStartTime = s.center.startTime
    → Given gen s.center.manager (s.servers server).appId (s.servers server).appDynamicId server
  requests : ∀ number req, (number, req) ∈ s.requests
    → ∃ (server : Nat) (client : NetClient), s.owners[number]? = some server
      ∧ req = client.sessionCreated
      ∧ client.appId = (s.servers server).appId
      ∧ (client.connectServerStartTime = s.center.startTime
        → Given gen s.center.manager client.appId client.appDynamicId server)
      ∧ ∀ id dynamicId, .registered id dynamicId number ∉ s.events
  distinct : (s.requests.map Prod.fst).Nodup
  answers : ∀ server req, (server, req) ∈ s.answers
    → ∃ dynamicId time, req = NetClient.answer dynamicId time ∧ time ∈ s.startTimes
      ∧ (time = s.center.startTime
        → Given gen s.center.manager (s.servers server).appId dynamicId server)
  latest : ∀ id dynamicId number, (dynamicId, number) ∈ s.center.manager.sessionMap id
    ↔ Latest s.events id dynamicId number

variable {order : Iteration} {gen : AppId → Nat → Nat} {s s' : State}
  {config : Nat → AppId × List String} {startTime : StartTime} {m : ServerManager} {id : AppId}
  {dynamicId : Int32} {number server : Nat} {req : List String}

theorem Latest.mem {events : List Event} (h : Latest events id dynamicId number)
    : .registered id dynamicId number ∈ events := by
  obtain ⟨before, after, rfl, -, -⟩ := h
  simp

theorem not_latest_nil : ¬ Latest [] id dynamicId number := fun h => nomatch h.mem

theorem inv_start : Inv gen (start config startTime) where
  manager := fun _ => List.nodup_nil
  time := List.mem_singleton_self _
  nonzero := by simpa [start] using startTime.property.symm
  owners := rfl
  events := nofun
  once := nofun
  known := fun _ => .inl rfl
  servers := fun _ h => absurd h.symm startTime.property
  requests := nofun
  distinct := List.nodup_nil
  answers := nofun
  latest := by
    intro id dynamicId number
    constructor
    . nofun
    . exact fun h => absurd h not_latest_nil

theorem Inv.connect (I : Inv gen s) {remoteAddress : Option String}
    : Inv gen (connect s server remoteAddress) := by
  have hlt {x : Nat} {v : Nat} (h : s.owners[x]? = some v) : x < s.owners.length :=
    (List.getElem?_eq_some_iff.mp h).1
  have hkeeps {x v : Nat} (h : s.owners[x]? = some v) : (s.owners ++ [server])[x]? = some v := by
    rw [List.getElem?_append_left (hlt h), h]
  exact { I with
    owners := by
      show (s.owners ++ [server]).length = (s.center.sessions ++ [_]).length
      simp [I.owners]
    events := by
      intro id dynamicId x hx
      obtain ⟨happ, v, hv, hgiven⟩ := I.events id dynamicId x hx
      refine ⟨?_, v, hkeeps hv, hgiven⟩
      have hx' : x < s.center.sessions.length := I.owners ▸ hlt hv
      show ((s.center.sessions ++ [_])[x]?).bind ServerSession.appId = some id
      rw [List.getElem?_append_left hx']
      exact happ
    requests := by
      intro x req hx
      rcases List.mem_append.mp hx with hold | hnew
      . obtain ⟨v, client, hv, hrest⟩ := I.requests x req hold
        exact ⟨v, client, hkeeps hv, hrest⟩
      . obtain ⟨rfl, rfl⟩ := Prod.mk.inj (List.mem_singleton.mp hnew)
        refine ⟨server, s.servers server, List.getElem?_concat_length, rfl, rfl, I.servers server,
          ?_⟩
        intro id dynamicId hregistered
        obtain ⟨-, v, hv, -⟩ := I.events id dynamicId _ hregistered
        exact Nat.lt_irrefl _ (hlt hv)
    distinct := by
      show ((s.requests ++ [_]).map Prod.fst).Nodup
      rw [List.map_append, List.nodup_append]
      refine ⟨I.distinct, by simp, ?_⟩
      rintro _ hx _ hy rfl
      obtain ⟨⟨x, req⟩, hmem, rfl⟩ := List.mem_map.mp hx
      obtain ⟨v, -, hv, -⟩ := I.requests x req hmem
      have hlast : x = s.owners.length := by simpa using hy
      have hx' := hlt hv
      omega }

def assign (gen : AppId → Nat → Nat) (m : ServerManager) (id : AppId) (server : Nat)
    : AppId → Nat → Nat :=
  Function.update gen id (Function.update (gen id) (m.idGenMap id) server)

theorem Given.next (h : Given gen m id dynamicId server) {id' : AppId} {server' : Nat}
    : Given (assign gen m id' server') (m.geneAppDynamicId id').1 id dynamicId server := by
  obtain ⟨k, hk, hid, hserver⟩ := h
  refine ⟨k, ?_, hid, ?_⟩
  . show k < Function.update m.idGenMap id' (m.idGenMap id' + 1) id
    by_cases heq : id = id'
    . subst heq
      rw [Function.update_self]
      omega
    . rwa [Function.update_of_ne heq]
  . unfold assign
    by_cases heq : id = id'
    . subst heq
      rwa [Function.update_self, Function.update_of_ne hk.ne]
    . rwa [Function.update_of_ne heq]

theorem given_next
    : Given (assign gen m id server) (m.geneAppDynamicId id).1 id
      (ServerManager.dynamicIdAt (m.idGenMap id)) server := by
  refine ⟨m.idGenMap id, ?_, rfl, ?_⟩
  . show m.idGenMap id < Function.update m.idGenMap id (m.idGenMap id + 1) id
    rw [Function.update_self]
    exact Nat.lt_succ_self _
  . rw [assign, Function.update_self, Function.update_self]

theorem Inv.fail (I : Inv gen s) {session : ServerSession} (hmem : (number, req) ∈ s.requests)
    : Inv gen { s with
        center := s.center.setSession number session
        requests := s.requests.erase (number, req) } := by
  obtain ⟨-, -, -, -, -, -, hfresh⟩ := I.requests number req hmem
  exact { I with
    owners := I.owners.trans List.length_set.symm
    events := by
      intro id dynamicId x hx
      have hne : x ≠ number := by
        rintro rfl
        exact hfresh id dynamicId hx
      obtain ⟨happ, hserver⟩ := I.events id dynamicId x hx
      exact ⟨(Center.appId_setSession_of_ne hne).trans happ, hserver⟩
    requests := fun x req' hx => I.requests x req' (List.mem_of_mem_erase hx)
    distinct := I.distinct.sublist (List.erase_sublist.map Prod.fst) }

theorem Inv.ne_of_mem_erase (I : Inv gen s) {x : Nat} {req' : List String}
    (hmem : (number, req) ∈ s.requests) (hx : (x, req') ∈ s.requests.erase (number, req))
    : x ≠ number := by
  rintro rfl
  obtain ⟨hne, hx'⟩ := (List.Nodup.mem_erase_iff (List.Nodup.of_map Prod.fst I.distinct)).mp hx
  exact hne (List.inj_on_of_nodup_map I.distinct hx' hmem rfl)

theorem Inv.put (I : Inv gen s) {gen' : AppId → Nat → Nat} {client : NetClient}
    {session : ServerSession} {manager : ServerManager}
    (hmem : (number, client.sessionCreated) ∈ s.requests) (hserver : s.owners[number]? = some server)
    (happ : client.appId = (s.servers server).appId) (hsession : session.appId = some client.appId)
    (hsame : manager.sessionMap = s.center.manager.sessionMap)
    (hgiven : ∀ id dynamicId server, Given gen s.center.manager id dynamicId server
      → Given gen' manager id dynamicId server)
    (hnew : Given gen' manager client.appId session.serverId server)
    (hfresh : ∀ id dynamicId, .registered id dynamicId number ∉ s.events)
    : Inv gen' { s with
        center := { s.center.setSession number session with
          manager := manager.putSession client.appId session.serverId number }
        requests := s.requests.erase (number, client.sessionCreated)
        answers := s.answers ++ [(server, NetClient.answer session.serverId s.center.startTime)]
        events := s.events ++ [.registered client.appId session.serverId number] } where
  manager := by
    apply ServerManager.WellFormed.putSession
    intro id
    rw [hsame]
    exact I.manager id
  time := I.time
  nonzero := I.nonzero
  owners := I.owners.trans List.length_set.symm
  events := by
    intro id dynamicId x hx
    rcases List.mem_append.mp hx with hold | hlast
    . have hne : x ≠ number := by
        rintro rfl
        exact hfresh id dynamicId hold
      obtain ⟨happ', v, hv, hv'⟩ := I.events id dynamicId x hold
      exact ⟨(Center.appId_setSession_of_ne hne).trans happ', v, hv, hgiven _ _ _ hv'⟩
    . cases List.mem_singleton.mp hlast
      have hlt : number < s.center.sessions.length :=
        I.owners ▸ (List.getElem?_eq_some_iff.mp hserver).1
      exact ⟨(Center.appId_setSession hlt).trans hsession, server, hserver, hnew⟩
  once := by
    intro id dynamicId id' dynamicId' x hx hx'
    rcases List.mem_append.mp hx with hold | hlast
    . rcases List.mem_append.mp hx' with hold' | hlast'
      . exact I.once id dynamicId id' dynamicId' x hold hold'
      . cases List.mem_singleton.mp hlast'
        exact absurd hold (hfresh id dynamicId)
    . cases List.mem_singleton.mp hlast
      rcases List.mem_append.mp hx' with hold' | hlast'
      . exact absurd hold' (hfresh id' dynamicId')
      . cases List.mem_singleton.mp hlast'
        exact ⟨rfl, rfl⟩
  known := I.known
  servers := fun v hv => hgiven _ _ _ (I.servers v hv)
  requests := by
    intro x req hx
    have hne := I.ne_of_mem_erase hmem hx
    obtain ⟨v, client', hv, hreq, happ', htime, hfresh'⟩ :=
      I.requests x req (List.mem_of_mem_erase hx)
    refine ⟨v, client', hv, hreq, happ', fun h => hgiven _ _ _ (htime h), fun id dynamicId h => ?_⟩
    rcases List.mem_append.mp h with hold | hlast
    . exact hfresh' id dynamicId hold
    . cases List.mem_singleton.mp hlast
      exact hne rfl
  distinct := I.distinct.sublist (List.erase_sublist.map Prod.fst)
  answers := by
    intro v req hv
    rcases List.mem_append.mp hv with hold | hlast
    . obtain ⟨dynamicId, time, hreq, htime, hv'⟩ := I.answers v req hold
      exact ⟨dynamicId, time, hreq, htime, fun h => hgiven _ _ _ (hv' h)⟩
    . cases List.mem_singleton.mp hlast
      exact ⟨session.serverId, s.center.startTime, rfl, I.time, fun _ => happ ▸ hnew⟩
  latest := by
    intro id dynamicId x
    rw [latest_append, ← I.latest, ServerManager.mem_putSession, hsame]
    simp only [Event.registered.injEq, Prod.mk.injEq, ne_eq, reduceCtorEq, not_false_eq_true, and_true]
    by_cases h : id = client.appId ∧ dynamicId = session.serverId
    . obtain ⟨rfl, rfl⟩ := h
      simp [eq_comm]
    . have hother (y : Nat) : ¬ (client.appId = id ∧ session.serverId = dynamicId ∧ number = y) :=
        fun ⟨hid, hdynamicId, _⟩ => h ⟨hid.symm, hdynamicId.symm⟩
      have hother' : ¬ (id = client.appId ∧ dynamicId = session.serverId ∧ x = number) :=
        fun ⟨hid, hdynamicId, _⟩ => h ⟨hid, hdynamicId⟩
      simp [h, hother, hother']

theorem Inv.register (I : Inv gen s) (hmem : (number, req) ∈ s.requests)
    : ∃ gen, Inv gen (register s number req) := by
  obtain ⟨server, client, hserver, rfl, happ, htime, hfresh⟩ := I.requests number req hmem
  rcases s.center.actionRegisterServer_cases number client.sessionCreated
    with ⟨session, hfail⟩ | ⟨id, session, session', manager, hsession, hid, hregister, hanswer⟩
  . refine ⟨gen, ?_⟩
    rw [ServerRegistry.register, hfail]
    exact I.fail hmem
  . rw [NetClient.getByValue_sessionCreated] at hid
    obtain rfl := Option.some.inj hid
    obtain ⟨hsession', hcases⟩ := NetClient.registerServer_sessionCreated hregister
    have hlt : number < s.center.sessions.length := (List.getElem?_eq_some_iff.mp hsession).1
    have hget : (s.center.setSession number session').sessions[number]? = some session' :=
      List.getElem?_set_self hlt
    have howner : s.owners.getD number 0 = server := by
      rw [List.getD_eq_getElem?_getD, hserver, Option.getD_some]
    simp only [ServerRegistry.register, hanswer, hget, hsession', Option.map_some, Option.toList_some,
      howner]
    rcases hcases with ⟨hsame, hid, rfl⟩ | ⟨-, hid, rfl⟩
    . refine ⟨gen, I.put hmem hserver happ hsession' rfl (fun _ _ _ h => h) ?_ hfresh⟩
      rw [hid]
      exact htime hsame
    . refine ⟨assign gen s.center.manager client.appId server,
        I.put hmem hserver happ hsession' rfl (fun _ _ _ h => h.next) ?_ hfresh⟩
      rw [hid]
      exact given_next

theorem Inv.answer (I : Inv gen s) {client : NetClient} (hmem : (server, req) ∈ s.answers)
    (hclient : (s.servers server).onResult req = some client)
    : Inv gen { s with
        servers := Function.update s.servers server client
        answers := s.answers.erase (server, req) } := by
  obtain ⟨dynamicId, time, rfl, htime, hgiven⟩ := I.answers server req hmem
  rw [NetClient.onResult_answer] at hclient
  obtain rfl := Option.some.inj hclient
  have happ (v : Nat) : (Function.update s.servers server { s.servers server with
      appDynamicId := dynamicId, connectServerStartTime := time } v).appId = (s.servers v).appId := by
    by_cases h : v = server
    . subst h
      rw [Function.update_self]
    . rw [Function.update_of_ne h]
  exact { I with
    known := by
      intro v
      by_cases h : v = server
      . subst h
        simp [htime]
      . simpa [h] using I.known v
    servers := by
      intro v hv
      by_cases h : v = server
      . subst h
        simp only [Function.update_self] at hv ⊢
        exact hgiven hv
      . simp only [Function.update_of_ne h] at hv ⊢
        exact I.servers v hv
    requests := by
      intro x req hx
      obtain ⟨v, client, hv, hreq, happ', hrest⟩ := I.requests x req hx
      exact ⟨v, client, hv, hreq, happ'.trans (happ v).symm, hrest⟩
    answers := by
      intro v req hv
      obtain ⟨dynamicId, time, hreq, htime, hgiven⟩ := I.answers v req (List.mem_of_mem_erase hv)
      refine ⟨dynamicId, time, hreq, htime, fun h => ?_⟩
      show Given gen _ (Function.update s.servers server _ v).appId dynamicId v
      rw [happ v]
      exact hgiven h }

theorem Inv.mem_removeServerSession (I : Inv gen s) {x : Nat}
    : (dynamicId, x) ∈ (s.center.removeServerSession order number).manager.sessionMap id
        ↔ (dynamicId, x) ∈ s.center.manager.sessionMap id ∧ x ≠ number := by
  have hmem {id : AppId} {dynamicId : Int32} {x : Nat}
      (h : (dynamicId, x) ∈ s.center.manager.sessionMap id)
      : .registered id dynamicId x ∈ s.events := ((I.latest id dynamicId x).mp h).mem
  rw [Center.removeServerSession]
  rcases ServerManager.removeServerSession_cases s.center.manager order (s.center.appId number) number
    with ⟨heq, hnone⟩ | ⟨id', dynamicId', -, hremoved, heq⟩
  . simp only [heq, iff_self_and]
    rintro h rfl
    exact hnone id (I.events id dynamicId x (hmem h)).1 _ h rfl
  . simp only [heq, ServerManager.mem_dropSession]
    refine and_congr_right fun h => not_congr ⟨?_, ?_⟩
    . rintro ⟨rfl, rfl⟩
      have hsame := (ServerManager.getServerSession_eq_some I.manager).mpr h
      rw [(ServerManager.getServerSession_eq_some I.manager).mpr hremoved] at hsame
      exact (Option.some.inj hsame).symm
    . rintro rfl
      exact I.once _ _ _ _ x (hmem h) (hmem hremoved)

theorem Inv.remove (I : Inv gen s)
    : Inv gen { s with
        center := s.center.removeServerSession order number
        events := s.events ++ [.removed number] } := by
  have hcount : (s.center.removeServerSession order number).manager.idGenMap
      = s.center.manager.idGenMap := ServerManager.idGenMap_removeServerSession
  have hgiven {id : AppId} {dynamicId : Int32} {server : Nat}
      (h : Given gen s.center.manager id dynamicId server)
      : Given gen (s.center.removeServerSession order number).manager id dynamicId server := by
    rw [Given, hcount]
    exact h
  have hevents {id : AppId} {dynamicId : Int32} {x : Nat}
      (h : .registered id dynamicId x ∈ s.events ++ [.removed number])
      : .registered id dynamicId x ∈ s.events := by
    rcases List.mem_append.mp h with hold | hlast
    . exact hold
    . exact nomatch List.mem_singleton.mp hlast
  exact { I with
    manager := I.manager.removeServerSession
    events := by
      intro id dynamicId x hx
      obtain ⟨happ, v, hv, hv'⟩ := I.events id dynamicId x (hevents hx)
      exact ⟨happ, v, hv, hgiven hv'⟩
    once := fun id dynamicId id' dynamicId' x hx hx' =>
      I.once id dynamicId id' dynamicId' x (hevents hx) (hevents hx')
    servers := fun v hv => hgiven (I.servers v hv)
    requests := by
      intro x req hx
      obtain ⟨v, client, hv, hreq, happ, htime, hfresh⟩ := I.requests x req hx
      exact ⟨v, client, hv, hreq, happ, fun h => hgiven (htime h),
        fun id dynamicId h => hfresh id dynamicId (hevents h)⟩
    answers := by
      intro v req hv
      obtain ⟨dynamicId, time, hreq, htime, hv'⟩ := I.answers v req hv
      exact ⟨dynamicId, time, hreq, htime, fun h => hgiven (hv' h)⟩
    latest := by
      intro id dynamicId x
      rw [latest_append, ← I.latest]
      simp [I.mem_removeServerSession, eq_comm] }

theorem Inv.restart (I : Inv gen s) (hnew : startTime.val ∉ s.startTimes)
    : Inv gen { s with
        center := .start startTime
        startTimes := startTime.val :: s.startTimes
        owners := []
        requests := []
        events := [] } where
  manager := fun _ => List.nodup_nil
  time := List.mem_cons_self
  nonzero := by
    simpa [I.nonzero] using startTime.property.symm
  owners := rfl
  events := nofun
  once := nofun
  known := fun server => (I.known server).imp_right (List.mem_cons_of_mem _)
  servers := by
    intro server h
    have hstart : (s.servers server).connectServerStartTime = startTime.val := h
    rcases I.known server with hzero | hmem
    . exact absurd (hstart.symm.trans hzero) startTime.property
    . exact absurd (hstart ▸ hmem) hnew
  requests := nofun
  distinct := List.nodup_nil
  answers := by
    intro server req h
    obtain ⟨dynamicId, time, hreq, htime, -⟩ := I.answers server req h
    refine ⟨dynamicId, time, hreq, List.mem_cons_of_mem _ htime, fun hsame => ?_⟩
    have hstart : time = startTime.val := hsame
    exact absurd (hstart ▸ htime) hnew
  latest := by
    intro id dynamicId number
    constructor
    . nofun
    . exact fun h => absurd h not_latest_nil

theorem Inv.step (I : Inv gen s) {a : Action} (h : step order s a = some s') : ∃ gen, Inv gen s' := by
  cases a with
  | connect server remoteAddress =>
    obtain rfl := Option.some.inj h
    exact ⟨gen, I.connect⟩
  | register number req =>
    simp only [ServerRegistry.step] at h
    split at h
    . next hmem =>
      obtain rfl := Option.some.inj h
      exact I.register hmem
    . contradiction
  | answer server req =>
    simp only [ServerRegistry.step] at h
    split at h
    . next hmem =>
      obtain ⟨client, hclient, rfl⟩ := Option.map_eq_some_iff.mp h
      exact ⟨gen, I.answer hmem hclient⟩
    . contradiction
  | remove number =>
    obtain rfl := Option.some.inj h
    exact ⟨gen, I.remove⟩
  | restart startTime =>
    simp only [ServerRegistry.step] at h
    split at h
    . contradiction
    . next hnew =>
      obtain rfl := Option.some.inj h
      exact ⟨gen, I.restart hnew⟩

theorem Given.unique {server' : Nat} (h : Given gen m id dynamicId server)
    (h' : Given gen m id dynamicId server') (hfew : m.idGenMap id ≤ 2 ^ 32) : server = server' := by
  obtain ⟨k, hk, rfl, rfl⟩ := h
  obtain ⟨k', hk', heq, rfl⟩ := h'
  rw [ServerManager.dynamicIdAt_inj (by omega) (by omega) heq]

theorem Inv.given (I : Inv gen s) (h : Holds s id dynamicId server)
    : Given gen s.center.manager id dynamicId server := by
  rcases h with ⟨number, hregistered, howner⟩ | ⟨rfl, rfl, htime⟩
  . obtain ⟨-, server', howner', hgiven⟩ := I.events id dynamicId number hregistered
    obtain rfl := Option.some.inj (howner.symm.trans howner')
    exact hgiven
  . exact I.servers server htime

theorem Inv.consistent (I : Inv gen s) : Consistent order s where
  unique := fun _ _ _ _ hfew h h' => (I.given h).unique (I.given h') hfew
  latest := fun id dynamicId number =>
    (ServerManager.getServerSession_eq_some I.manager).trans (I.latest id dynamicId number)
  replaced := by
    intro id dynamicId number x h hne
    have hmem := (ServerManager.getServerSession_eq_some I.manager).mp h
    exact (ServerManager.getServerSession_eq_some I.manager.removeServerSession).mpr
      (ServerManager.mem_removeServerSession_of_ne I.manager hne.symm hmem)

/-- In whatever order servers register, are given their answers and are removed, the map is right. -/
theorem consistent_of_run {as : List Action}
    (hrun : Run (stepOf (step order)) anyLabel (start config startTime) as s)
    : Consistent order s := by
  obtain ⟨gen, I⟩ := hrun.invariant (fun s => ∃ gen, Inv gen s) ⟨fun _ _ => 0, inv_start⟩
    fun s a s' ⟨gen, I⟩ _ hstep => I.step hstep
  exact I.consistent

/--
Two gates register themselves, and the first one again, before its old session is removed; and then the
center is restarted.
-/
def reconnects : List Action :=
  [.connect 0 none, .register 0 ["5", "0", "0", "10.0.0.1", "9091"], .answer 0 ["1", "7"],
    .connect 1 none, .register 1 ["5", "0", "0", "10.0.0.1", "9091"], .connect 0 none,
    .register 2 ["5", "1", "7", "10.0.0.1", "9091"], .remove 0, .restart ⟨8, by decide⟩,
    .connect 0 none, .register 0 ["5", "1", "7", "10.0.0.1", "9091"], .answer 0 ["1", "8"]]

theorem consistent_of_run_reconnects
    : ∃ s, Run (stepOf (step .insertionOrder)) anyLabel
        (start (fun _ => (.gate, ["10.0.0.1", "9091"])) ⟨7, by decide⟩) reconnects s
      ∧ Consistent .insertionOrder s := by
  have hreconnects : ∃ s, Run (stepOf (step .insertionOrder)) anyLabel
        (start (fun _ => (.gate, ["10.0.0.1", "9091"])) ⟨7, by decide⟩) reconnects s
      ∧ True := Run.exists_of_foldlM (by decide)
  obtain ⟨s, hrun, -⟩ := hreconnects
  exact ⟨s, hrun, consistent_of_run hrun⟩

def registerAll (n : Nat) : List Action :=
  (List.range n).flatMap fun server => [.connect server none, .register server ["7", "0", "0"]]

structure Registered (config : Nat → AppId × List String) (startTime : StartTime) (n : Nat)
    (s : State) : Prop where
  servers : s.servers = (start config startTime).servers
  time : s.center.startTime = startTime
  requests : s.requests = []
  owners : s.owners = List.range n
  sessions : s.center.sessions.length = n
  count : s.center.manager.idGenMap .log = n
  events : ∀ server < n, .registered .log (ServerManager.dynamicIdAt server) server ∈ s.events

theorem registerServer_first (m : ServerManager) (number : Nat) (session : ServerSession)
    {time : Int64} (htime : time ≠ 0)
    : m.registerServer time .log number session ["7", "0", "0"]
        = some ((m.geneAppDynamicId .log).1.putSession .log
          (ServerManager.dynamicIdAt (m.idGenMap .log)) number,
          { session with serverId := ServerManager.dynamicIdAt (m.idGenMap .log) }) := by
  have hint : MapObject.parseInt "0".toList = some 0 := by decide
  have hlong : MapObject.parseLong "0".toList = some 0 := by decide
  have hnew : m.dynamicIdFor time .log 0 0 = m.geneAppDynamicId .log := by
    rw [ServerManager.dynamicIdFor, if_neg]
    intro h
    exact htime (Int64.toInt_inj.mp h.symm)
  simp only [ServerManager.registerServer, List.getElem?_cons_succ, List.getElem?_cons_zero,
    Option.bind_eq_bind, Option.bind_some, hint, hlong, ServerManager.setAddress, reduceCtorEq,
    if_false, hnew]
  rfl

theorem Registered.next {n : Nat} (R : Registered (fun _ => (.log, [])) startTime n s)
    (order : Iteration)
    : ∃ s₁ s₂, step order s (.connect n none) = some s₁
        ∧ step order s₁ (.register n ["7", "0", "0"]) = some s₂
        ∧ Registered (fun _ => (.log, [])) startTime (n + 1) s₂ := by
  have hrequests : (ServerRegistry.connect s n none).requests = [(n, ["7", "0", "0"])] := by
    show s.requests ++ [(s.owners.length, (s.servers n).sessionCreated)] = _
    have hreq : (NetClient.create .log []).sessionCreated = ["7", "0", "0"] := by decide
    rw [R.requests, R.owners, List.length_range, R.servers, ← hreq]
    rfl
  have hmem : (n, ["7", "0", "0"]) ∈ (ServerRegistry.connect s n none).requests := by
    rw [hrequests]
    exact List.mem_singleton_self _
  have hsession : (ServerRegistry.connect s n none).center.sessions[n]?
      = some ⟨none, 0, s.center.IDGEN, none, 0⟩ := by
    show (s.center.sessions ++ [_])[n]? = _
    rw [← R.sessions, List.getElem?_concat_length]
  have htime : (ServerRegistry.connect s n none).center.startTime = startTime := R.time
  have hid : ((["7", "0", "0"] : List String)[0]?.bind fun s => MapObject.parseInt s.toList).bind
      AppId.getByValue = some .log := by decide
  refine ⟨_, _, rfl, if_pos hmem, ?_⟩
  have hanswer := registerServer_first (ServerRegistry.connect s n none).center.manager
    n ⟨none, 0, s.center.IDGEN, some .log, 0⟩ startTime.property
  have hget (session : ServerSession)
      : ((ServerRegistry.connect s n none).center.setSession n session).sessions[n]? = some session := by
    apply List.getElem?_set_self
    show n < (s.center.sessions ++ [_]).length
    rw [List.length_append, R.sessions]
    exact Nat.lt_succ_self n
  simp only [ServerRegistry.register, Center.actionRegisterServer, hsession, hid, htime, hanswer, hget,
    Option.map_some, Option.toList_some]
  exact {
    servers := R.servers
    time := R.time
    requests := by
      show (ServerRegistry.connect s n none).requests.erase _ = []
      rw [hrequests, List.erase_cons_head]
    owners := by
      show s.owners ++ [n] = _
      rw [R.owners, List.range_succ]
    sessions := by
      show ((s.center.sessions ++ [_]).set _ _).length = n + 1
      rw [List.length_set, List.length_append, R.sessions]
      rfl
    count := by
      show Function.update s.center.manager.idGenMap .log (s.center.manager.idGenMap .log + 1) .log
        = n + 1
      rw [Function.update_self]
      exact congrArg (· + 1) R.count
    events := by
      intro server hserver
      show _ ∈ s.events ++ [.registered .log (ServerManager.dynamicIdAt
        (s.center.manager.idGenMap .log)) n]
      rw [R.count]
      rcases Nat.eq_or_lt_of_le (Nat.le_of_lt_succ hserver) with rfl | hlt
      . simp
      . exact List.mem_append_left _ (R.events server hlt) }

theorem exists_registered (order : Iteration) (startTime : StartTime) (n : Nat)
    : ∃ s, Run (stepOf (step order)) anyLabel (start (fun _ => (.log, [])) startTime) (registerAll n) s
        ∧ Registered (fun _ => (.log, [])) startTime n s := by
  induction n with
  | zero => exact ⟨_, .start, rfl, rfl, rfl, rfl, rfl, rfl, nofun⟩
  | succ n ih =>
    obtain ⟨s, hrun, R⟩ := ih
    obtain ⟨s₁, s₂, hconnect, hregister, R'⟩ := R.next order
    have hall : registerAll (n + 1)
        = registerAll n ++ [.connect n none] ++ [.register n ["7", "0", "0"]] := by
      rw [registerAll, registerAll, List.range_succ, List.flatMap_append]
      simp
    rw [hall]
    exact ⟨s₂, (hrun.next trivial hconnect).next trivial hregister, R'⟩

theorem consistent_counterexample
    : ∃ s dynamicId, Run (stepOf (step .insertionOrder)) anyLabel
          (start (fun _ => (.log, [])) ⟨1, by decide⟩) (registerAll (2 ^ 32 + 1)) s
        ∧ Holds s .log dynamicId 0 ∧ Holds s .log dynamicId (2 ^ 32) := by
  obtain ⟨s, hrun, R⟩ := exists_registered .insertionOrder ⟨1, by decide⟩ (2 ^ 32 + 1)
  have howner (v : Nat) (hv : v < 2 ^ 32 + 1) : s.owners[v]? = some v := by
    rw [R.owners, List.getElem?_range hv]
  have hsame : ServerManager.dynamicIdAt (2 ^ 32) = ServerManager.dynamicIdAt 0 := by decide
  refine ⟨s, ServerManager.dynamicIdAt 0, hrun,
    .inl ⟨0, R.events 0 (by omega), howner 0 (by omega)⟩,
    .inl ⟨2 ^ 32, ?_, howner (2 ^ 32) (by omega)⟩⟩
  rw [← hsame]
  exact R.events (2 ^ 32) (by omega)

end ServerRegistry

end WzGame
