import WzGame.Database.DBUtil
import WzGame.Network.CenterModule

/-!
This module contains how the login server finds or creates the account of a user and hands out a token for
it, and when the tokens are sound.
-/

namespace WzGame

open Runs

class Md5 where
  md5 : String → String
  md5_repr : ∀ n : Int, md5 n.repr ≠ "" ∧ ':' ∉ (md5 n.repr).toList

theorem MapObject.split_append_cons {sep : Char} {xs ys : List Char} (hxs : sep ∉ xs) (hys : sep ∉ ys)
    (hne : ys ≠ []) : MapObject.split sep (xs ++ sep :: ys) = [xs, ys] := by
  rw [MapObject.split, if_pos (by simp), List.splitOn_append_cons_self, List.splitOn_eq_singleton hxs,
    List.splitOn_eq_singleton hys]
  simp [hne]

theorem MapObject.colon_notMem_repr {n : Int} : ':' ∉ n.repr.toList := by
  have hdigits : ∀ k : Nat, ':' ∉ k.repr.toList := by
    intro k hk
    rw [Nat.repr, String.toList_ofList] at hk
    have hdigit := Nat.isDigit_of_mem_toDigits (by decide) (by decide) hk
    contradiction
  cases n with
  | ofNat k => exact hdigits k
  | negSucc k =>
    intro hk
    rw [Int.repr, String.toList_append] at hk
    rcases List.mem_append.mp hk with hsign | hk
    . contradiction
    . exact hdigits _ hk

namespace LoginHandler

/--
A request for `/fast_login`: its parameters, the time, how the statements end, the key that the server makes
for a row that is inserted, and the gate that the center chooses.
-/
structure FastLogin where
  userName : Option String
  password : Option String
  currentTimeMillis : Int64
  query : QueryOutcome
  insert : InsertOutcome
  key : Int32
  gate : Option (String × Int)

structure Login where
  userName : String
  password : Option String
  seed : Int64
  userId : Int32
  token : String
  accounts : List MapObject

structure State where
  db : Database
  issued : List Login
  tokenMap : CenterModule.TokenMap

section Keys

variable [SqlServer]

/--
The primary key of the table, and that its ids are positive. The case of the name of its column `username`
does not matter in a statement.
-/
structure Keys (accounts : List MapObject) : Prop where
  primary : ∀ row ∈ accounts, ∀ row' ∈ accounts, row.getInt "id" = row'.getInt "id"
    → DBUtil.sqlEq (row.get "userName") (row'.get "userName") = true → row = row'
  positive : ∀ row ∈ accounts, 0 < (row.getInt "id").toInt

theorem Keys.append {accounts : List MapObject} {row : MapObject} (K : Keys accounts)
    (hpositive : 0 < (row.getInt "id").toInt) (hfresh : ∀ row' ∈ accounts, row'.getInt "id" ≠ row.getInt "id")
    : Keys (accounts ++ [row]) where
  primary := by
    intro row₁ hrow₁ row₂ hrow₂ hid hname
    rcases List.mem_append.mp hrow₁ with hold₁ | hnew₁
    . rcases List.mem_append.mp hrow₂ with hold₂ | hnew₂
      . exact K.primary row₁ hold₁ row₂ hold₂ hid hname
      . obtain rfl := List.mem_singleton.mp hnew₂
        exact absurd hid (hfresh row₁ hold₁)
    . obtain rfl := List.mem_singleton.mp hnew₁
      rcases List.mem_append.mp hrow₂ with hold₂ | hnew₂
      . exact absurd hid.symm (hfresh row₂ hold₂)
      . exact (List.mem_singleton.mp hnew₂).symm
  positive := by
    intro row' hrow'
    rcases List.mem_append.mp hrow' with hold | hnew
    . exact K.positive row' hold
    . obtain rfl := List.mem_singleton.mp hnew
      exact hpositive

theorem sqlEq_trans {v w x : Value} (hvw : DBUtil.sqlEq v w = true) (hxw : DBUtil.sqlEq x w = true)
    : DBUtil.sqlEq v x = true := by
  unfold DBUtil.sqlEq at *
  cases hv : SqlServer.columnKey v <;> cases hw : SqlServer.columnKey w <;> cases hx : SqlServer.columnKey x
  all_goals simp_all

theorem sqlEq_self {userName : String} : DBUtil.sqlEq (.string userName) (.string userName) = true := by
  unfold DBUtil.sqlEq
  cases hkey : SqlServer.columnKey (.string userName) with
  | none =>
    have := (SqlServer.columnKey_eq_none _).mp hkey
    contradiction
  | some key => simp

theorem mem_of_loadSingleResult {db : Database} {table col : String} {value : Value} {outcome : QueryOutcome}
    {user : MapObject} (h : DataQueryResult.loadSingleResult db table col value outcome = some (some user))
    : user ∈ db table ∧ DBUtil.sqlEq (user.get col) value = true := by
  simp only [DataQueryResult.loadSingleResult, DataQueryResult.load, Option.bind_eq_bind,
    Option.bind_eq_some_iff] at h
  obtain ⟨list, ⟨result, hresult, heq⟩, hhead⟩ := h
  obtain rfl : result.data = list := Option.some.inj heq
  have hmem := List.mem_of_head? (Option.some.inj hhead)
  have hsublist : result.data ⊆ (db table).filter fun row => DBUtil.sqlEq (row.get col) value := by
    cases outcome with
    | success =>
      obtain rfl := Option.some.inj hresult
      exact List.Subset.refl _
    | sqlException read =>
      obtain rfl := Option.some.inj hresult
      exact List.take_subset _ _
    | exception => contradiction
  exact List.mem_filter.mp (hsublist hmem)

end Keys

def generates (db : Database) (key : Int32) : Bool :=
  0 < key.toInt && (db "accounts").all fun row => row.getInt "id" ≠ key

def State.apart (s : State) (req : FastLogin) (userId : Int32) : Bool :=
  s.issued.all fun l => l.userId = userId || l.seed ≠ req.currentTimeMillis + userId.toInt64

theorem apart_iff {s : State} {req : FastLogin} {userId : Int32} : s.apart req userId = true
    ↔ ∀ l ∈ s.issued, l.userId ≠ userId → l.seed ≠ req.currentTimeMillis + userId.toInt64 := by
  simp only [State.apart, List.all_eq_true, Bool.or_eq_true, decide_eq_true_eq, Decidable.or_iff_not_imp_left]

section Tokens

variable [Md5]

-- `MiscUtil.getMD5`, which prints the exception for `null`.
def getMD5 (source : Option String) : String := source.elim "" Md5.md5

theorem dispatched_eq {gate : Option (String × Int)} {userId : Int32} {n : Int} {p : Int × String}
    (h : CenterModule.dispatched gate [userId.toInt.repr ++ ":" ++ getMD5 (some n.repr)] = some p)
    : p = (userId.toInt, getMD5 (some n.repr)) := by
  obtain ⟨hne, hcolon⟩ := Md5.md5_repr n
  have hnil : (getMD5 (some n.repr)).toList ≠ [] := by
    simpa [getMD5] using hne
  have hsplit : MapObject.split ':' (userId.toInt.repr ++ ":" ++ getMD5 (some n.repr)).toList
      = [userId.toInt.repr.toList, (getMD5 (some n.repr)).toList] := by
    rw [String.toList_append, String.toList_append, List.append_assoc]
    exact MapObject.split_append_cons MapObject.colon_notMem_repr hcolon hnil
  have hparse : MapObject.parseInt userId.toInt.repr.toList = some userId.toInt :=
    MapObject.parseInt_repr ⟨userId.le_toInt, userId.toInt_lt⟩
  simp only [CenterModule.dispatched, Option.bind_eq_bind, List.head?_cons, Option.bind_some, hsplit,
    List.getElem?_cons_zero, List.getElem?_cons_succ, hparse, String.ofList_toList] at h
  obtain ⟨-, -, h⟩ := Option.bind_eq_some_iff.mp h
  exact (Option.some.inj h).symm

theorem getMD5_inj (hmd5 : Function.Injective Md5.md5) {x y : Int64}
    (h : getMD5 (some x.toInt.repr) = getMD5 (some y.toInt.repr)) : x = y := by
  have hrepr : x.toInt.repr = y.toInt.repr := hmd5 h
  have hx := MapObject.parseLong_repr ⟨x.le_toInt, x.toInt_lt⟩
  have hy := MapObject.parseLong_repr ⟨y.le_toInt, y.toInt_lt⟩
  rw [hrepr, hy] at hx
  exact (Int64.toInt_inj.mp (Option.some.inj hx)).symm

def account (userName : String) (password : Option String) (key : Int32) : MapObject :=
  ((MapObject.put ∅ "userName" (.string userName)).put "password" (.string (getMD5 password))).put "id"
    (.int key.toInt)

namespace State

def start (db : Database) : State := ⟨db, [], fun _ => none⟩

def send (s : State) (userName : String) (req : FastLogin) (userId : Int32) : State :=
  let seed := req.currentTimeMillis + userId.toInt64
  let loginToken := getMD5 (some seed.toInt.repr)
  { s with
    issued := s.issued ++ [⟨userName, req.password, seed, userId, loginToken, s.db "accounts"⟩]
    tokenMap := (CenterModule.actionDispatchGate req.gate [userId.toInt.repr ++ ":" ++ loginToken]
      s.tokenMap).1 }

-- the account is inserted; an exception is printed, and then the id is still 0
def create (s : State) (userName : String) (req : FastLogin) : State :=
  match DBUtil.executeInsert s.db "accounts" (account userName req.password req.key) req.insert with
  | (db, false) => { s with db }.send userName req req.key.toInt64.toInt32
  | (db, true) => { s with db }.send userName req 0

def handleFastLogin [SqlServer] (s : State) (req : FastLogin) : Option State :=
  match req.userName with
  | none => some s
  | some userName =>
    if userName = "" then
      some s
    else
      match DataQueryResult.loadSingleResult s.db "accounts" "userName" (.string userName) req.query with
      -- an exception that nobody catches
      | none => some s
      | some (some user) => some (s.send userName req (user.getInt "id"))
      | some none => if generates s.db req.key then some (s.create userName req) else none

end State

def Matches (row : MapObject) (userName : String) (password : Option String) : Prop :=
  row.get "userName" = .string userName ∧ row.get "password" = .string (getMD5 password)

instance {row : MapObject} {userName : String} {password : Option String}
    : Decidable (Matches row userName password) :=
  inferInstanceAs (Decidable (_ ∧ _))

theorem getInt_account {userName : String} {password : Option String} {key : Int32}
    : (account userName password key).getInt "id" = key := by
  simp [account, MapObject.getInt]

theorem matches_account {userName : String} {password : Option String} {key : Int32}
    : Matches (account userName password key) userName password := by
  simp [account, Matches]

/--
Each token has been sent with the id of an account that the user name and the password are right for, tokens
for different users differ, and the center has no token for another user than its own.
-/
structure State.Sound (s : State) : Prop where
  account : ∀ l ∈ s.issued, ∃ row ∈ l.accounts,
    row.getInt "id" = l.userId ∧ Matches row l.userName l.password
  distinct : ∀ l ∈ s.issued, ∀ l' ∈ s.issued, l.userId ≠ l'.userId → l.token ≠ l'.token
  owner : ∀ l ∈ s.issued, ∀ info, s.tokenMap l.token = some info → info.userId = l.userId.toInt

instance {s : State} : Decidable s.Sound :=
  decidable_of_iff
    ((∀ l ∈ s.issued, ∃ row ∈ l.accounts, row.getInt "id" = l.userId ∧ Matches row l.userName l.password)
      ∧ (∀ l ∈ s.issued, ∀ l' ∈ s.issued, l.userId ≠ l'.userId → l.token ≠ l'.token)
      ∧ ∀ l ∈ s.issued, ∀ info ∈ s.tokenMap l.token, info.userId = l.userId.toInt)
    ⟨fun ⟨haccount, hdistinct, howner⟩ => ⟨haccount, hdistinct, howner⟩,
      fun S => ⟨S.account, S.distinct, S.owner⟩⟩

theorem State.Sound.withDb {s : State} {db : Database} (S : s.Sound)
    : ({ s with db } : State).Sound := ⟨S.account, S.distinct, S.owner⟩

theorem State.create_eq (s : State) (userName : String) (req : FastLogin)
    : ∃ db userId, s.create userName req = ({ s with db } : State).send userName req userId
      ∧ ((req.insert = .success ∧ userId = req.key
          ∧ db "accounts" = s.db "accounts" ++ [account userName req.password req.key])
        ∨ (req.insert ≠ .success ∧ userId = 0
          ∧ (db "accounts" = s.db "accounts"
            ∨ db "accounts" = s.db "accounts" ++ [account userName req.password req.key]))) := by
  let rows := s.db "accounts" ++ [account userName req.password req.key]
  cases hinsert : req.insert with
  | success =>
    refine ⟨Function.update s.db "accounts" rows, req.key, ?_, .inl ⟨rfl, rfl, Function.update_self _ _ _⟩⟩
    simp [State.create, DBUtil.executeInsert, hinsert, rows]
  | sqlException stored =>
    cases stored with
    | true =>
      refine ⟨Function.update s.db "accounts" rows, 0, ?_,
        .inr ⟨by simp, rfl, .inr (Function.update_self _ _ _)⟩⟩
      simp [State.create, DBUtil.executeInsert, hinsert, rows]
    | false =>
      refine ⟨s.db, 0, ?_, .inr ⟨by simp, rfl, .inl rfl⟩⟩
      simp [State.create, DBUtil.executeInsert, hinsert]

section Run

variable [SqlServer]

/--
The account that is found is right for the user name and the password, and one that is created is without a
failure; and the token is apart.
-/
def State.meets (s : State) (req : FastLogin) : Bool :=
  match req.userName with
  | none => true
  | some userName =>
    userName = "" || match DataQueryResult.loadSingleResult s.db "accounts" "userName" (.string userName)
        req.query with
    | none => true
    | some (some user) => Matches user userName req.password && s.apart req (user.getInt "id")
    | some none => req.insert = .success && s.apart req req.key

def State.Meets (s : State) (req : FastLogin) : Prop := s.meets req = true

variable {s s' : State} {db : Database} {req : FastLogin} {userName : String} {userId : Int32}

structure State.Inv (s : State) : Prop where
  keys : Keys (s.db "accounts")
  token : ∀ l ∈ s.issued, l.token = getMD5 (some l.seed.toInt.repr)
  stored : ∀ token info, s.tokenMap token = some info
    → ∃ l ∈ s.issued, l.token = token ∧ l.userId.toInt = info.userId

theorem State.Inv.send (I : s.Inv) : (s.send userName req userId).Inv where
  keys := I.keys
  token := by
    intro l hl
    rcases List.mem_append.mp hl with hold | hnew
    . exact I.token l hold
    . obtain rfl := List.mem_singleton.mp hnew
      rfl
  stored := by
    intro token info hinfo
    simp only [State.send, CenterModule.actionDispatchGate] at hinfo
    split at hinfo
    . next gateIp gatePort userId' token' _ hdispatched =>
      obtain ⟨rfl, rfl⟩ := Prod.mk.inj (dispatched_eq hdispatched)
      dsimp only at hinfo
      by_cases htoken : token = getMD5 (some (req.currentTimeMillis + userId.toInt64).toInt.repr)
      . subst htoken
        rw [Function.update_self] at hinfo
        obtain rfl := Option.some.inj hinfo
        exact ⟨_, List.mem_append_right _ (List.mem_singleton.mpr rfl), rfl, rfl⟩
      . rw [Function.update_of_ne htoken] at hinfo
        obtain ⟨l, hl, heq⟩ := I.stored token info hinfo
        exact ⟨l, List.mem_append_left _ hl, heq⟩
    . obtain ⟨l, hl, heq⟩ := I.stored token info hinfo
      exact ⟨l, List.mem_append_left _ hl, heq⟩

theorem State.Inv.owner (I : s.Inv)
    (hdistinct : ∀ l ∈ s.issued, ∀ l' ∈ s.issued, l.userId ≠ l'.userId → l.token ≠ l'.token)
    {l : Login} (hl : l ∈ s.issued) {info : CenterModule.LoginInfo} (hinfo : s.tokenMap l.token = some info)
    : info.userId = l.userId.toInt := by
  obtain ⟨l', hl', htoken, hid⟩ := I.stored l.token info hinfo
  rw [← hid]
  by_contra hne
  exact hdistinct l' hl' l hl (fun heq => hne (by rw [heq])) htoken

theorem State.Inv.sound_send (I : s.Inv) (S : s.Sound) (hmd5 : Function.Injective Md5.md5)
    : (s.send userName req userId).Sound
      ↔ (∃ row ∈ s.db "accounts", row.getInt "id" = userId ∧ Matches row userName req.password)
        ∧ s.apart req userId = true := by
  rw [apart_iff]
  have hlast : ⟨userName, req.password, req.currentTimeMillis + userId.toInt64, userId,
      getMD5 (some (req.currentTimeMillis + userId.toInt64).toInt.repr), s.db "accounts"⟩
      ∈ (s.send userName req userId).issued := List.mem_append_right _ (List.mem_singleton.mpr rfl)
  constructor
  . intro S'
    refine ⟨S'.account _ hlast, fun l hl hne hseed => ?_⟩
    refine S'.distinct l (List.mem_append_left _ hl) _ hlast hne ?_
    rw [I.token l hl, hseed]
  . rintro ⟨haccount, hapart⟩
    have hnew : ∀ l ∈ s.issued, l.userId ≠ userId
        → l.token ≠ getMD5 (some (req.currentTimeMillis + userId.toInt64).toInt.repr) := by
      intro l hl hne htoken
      rw [I.token l hl] at htoken
      exact hapart l hl hne (getMD5_inj hmd5 htoken)
    have hdistinct : ∀ l ∈ (s.send userName req userId).issued, ∀ l' ∈ (s.send userName req userId).issued,
        l.userId ≠ l'.userId → l.token ≠ l'.token := by
      intro l hl l' hl' hne
      rcases List.mem_append.mp hl with hold | hlast
      . rcases List.mem_append.mp hl' with hold' | hlast'
        . exact S.distinct l hold l' hold' hne
        . obtain rfl := List.mem_singleton.mp hlast'
          exact hnew l hold hne
      . obtain rfl := List.mem_singleton.mp hlast
        rcases List.mem_append.mp hl' with hold' | hlast'
        . exact (hnew l' hold' hne.symm).symm
        . obtain rfl := List.mem_singleton.mp hlast'
          exact absurd rfl hne
    refine ⟨?_, hdistinct, fun l hl info hinfo => I.send.owner hdistinct hl hinfo⟩
    intro l hl
    rcases List.mem_append.mp hl with hold | hlast
    . exact S.account l hold
    . obtain rfl := List.mem_singleton.mp hlast
      exact haccount

theorem State.Inv.withDb (I : s.Inv) (K : Keys (db "accounts")) : ({ s with db } : State).Inv :=
  ⟨K, I.token, I.stored⟩

theorem keys_insert {password : Option String} (K : Keys (s.db "accounts")) {key : Int32}
    (h : generates s.db key = true) : Keys (s.db "accounts" ++ [account userName password key]) := by
  simp only [generates, Bool.and_eq_true, decide_eq_true_eq, List.all_eq_true] at h
  refine K.append ?_ ?_
  . rw [getInt_account]
    exact h.1
  . intro row' hrow'
    rw [getInt_account]
    exact h.2 row' hrow'

theorem State.cases (s : State) (req : FastLogin)
    : (s.handleFastLogin req = some s ∧ s.meets req = true)
      ∨ (∃ userName user, user ∈ s.db "accounts"
        ∧ DBUtil.sqlEq (user.get "userName") (.string userName) = true
        ∧ s.handleFastLogin req = some (s.send userName req (user.getInt "id"))
        ∧ (s.meets req = true ↔ Matches user userName req.password ∧ s.apart req (user.getInt "id") = true))
      ∨ ∃ userName, (∀ s', s.handleFastLogin req = some s' → generates s.db req.key = true
          ∧ s' = s.create userName req)
        ∧ (s.meets req = true ↔ req.insert = .success ∧ s.apart req req.key = true) := by
  cases huser : req.userName with
  | none => exact .inl (by simp [State.handleFastLogin, State.meets, huser])
  | some userName =>
    by_cases hempty : userName = ""
    . exact .inl (by simp [State.handleFastLogin, State.meets, huser, hempty])
    . cases hload : DataQueryResult.loadSingleResult s.db "accounts" "userName" (.string userName)
        req.query with
      | none => exact .inl (by simp [State.handleFastLogin, State.meets, huser, hempty, hload])
      | some user =>
        cases user with
        | none =>
          refine .inr (.inr ⟨userName, fun s' hs' => ?_, ?_⟩)
          . simp only [State.handleFastLogin, huser, if_neg hempty, hload] at hs'
            split at hs'
            . next hkey => exact ⟨hkey, (Option.some.inj hs').symm⟩
            . contradiction
          . simp [State.meets, huser, hempty, hload]
        | some user =>
          obtain ⟨hmem, hname⟩ := mem_of_loadSingleResult hload
          refine .inr (.inl ⟨userName, user, hmem, hname, ?_, ?_⟩)
          . simp [State.handleFastLogin, huser, hempty, hload]
          . simp [State.meets, huser, hempty, hload]

theorem State.Inv.not_sound_zero (I : s.Inv) : ¬ (s.send userName req 0).Sound := by
  intro S
  obtain ⟨row, hrow, hid, -⟩ := S.account _ (List.mem_append_right _ (List.mem_singleton.mpr rfl))
  have hpositive := I.keys.positive row hrow
  rw [hid] at hpositive
  contradiction

theorem State.Inv.create (I : s.Inv) (S : s.Sound) (hmd5 : Function.Injective Md5.md5)
    (hkey : generates s.db req.key = true)
    : (s.create userName req).Inv ∧ ((s.create userName req).Sound
      ↔ req.insert = .success ∧ s.apart req req.key = true) := by
  have hinserted : Keys (s.db "accounts" ++ [account userName req.password req.key]) :=
    keys_insert I.keys hkey
  obtain ⟨db, userId, hcreate, ⟨hsuccess, rfl, hdb⟩ | ⟨hfailure, rfl, hdb⟩⟩ := s.create_eq userName req
  . have I' : ({ s with db } : State).Inv := I.withDb (by rwa [hdb])
    have haccount : ∃ row ∈ db "accounts", row.getInt "id" = req.key ∧ Matches row userName req.password := by
      refine ⟨account userName req.password req.key, ?_, getInt_account, matches_account⟩
      rw [hdb]
      exact List.mem_append_right _ (List.mem_singleton.mpr rfl)
    rw [hcreate, I'.sound_send S.withDb hmd5]
    exact ⟨I'.send, fun h => ⟨hsuccess, h.2⟩, fun h => ⟨haccount, h.2⟩⟩
  . have I' : ({ s with db } : State).Inv := by
      refine I.withDb ?_
      rcases hdb with hdb | hdb
      . rw [hdb]
        exact I.keys
      . rwa [hdb]
    rw [hcreate]
    exact ⟨I'.send, fun S' => absurd S' I'.not_sound_zero, fun h => absurd h.1 hfailure⟩

theorem Keys.matches_iff {accounts : List MapObject} {user : MapObject} {password : Option String}
    (K : Keys accounts) (hmem : user ∈ accounts)
    (hname : DBUtil.sqlEq (user.get "userName") (.string userName) = true)
    : (∃ row ∈ accounts, row.getInt "id" = user.getInt "id" ∧ Matches row userName password)
      ↔ Matches user userName password := by
  constructor
  . rintro ⟨row, hrow, hid, hmatches⟩
    have hsame : DBUtil.sqlEq (row.get "userName") (user.get "userName") = true := by
      rw [hmatches.1]
      exact sqlEq_trans sqlEq_self hname
    obtain rfl := K.primary row hrow user hmem hid hsame
    exact hmatches
  . intro hmatches
    exact ⟨user, hmem, rfl, hmatches⟩

theorem State.Inv.step (I : s.Inv) (S : s.Sound) (hmd5 : Function.Injective Md5.md5)
    (h : s.handleFastLogin req = some s') : s'.Inv ∧ (s'.Sound ↔ s.Meets req) := by
  rcases s.cases req with ⟨hstep, hmeets⟩ | ⟨userName, user, hmem, hname, hstep, hmeets⟩
    | ⟨userName, hstep, hmeets⟩
  . rw [hstep] at h
    obtain rfl := Option.some.inj h
    exact ⟨I, fun _ => hmeets, fun _ => S⟩
  . rw [hstep] at h
    obtain rfl := Option.some.inj h
    refine ⟨I.send, ?_⟩
    rw [I.sound_send S hmd5, State.Meets, hmeets, I.keys.matches_iff hmem hname]
  . obtain ⟨hkey, rfl⟩ := hstep s' h
    obtain ⟨hinv, hsound⟩ := I.create S hmd5 hkey
    exact ⟨hinv, by rw [hsound, State.Meets, hmeets]⟩

/--
The tokens of a run are sound throughout just when each request finds the right account or creates one, and
gets a token that is apart.
-/
theorem sound_iff {reqs : List FastLogin} (hmd5 : Function.Injective Md5.md5) (hkeys : Keys (db "accounts"))
    : Run (stepOf State.handleFastLogin) (fun s _ => s.Sound) (State.start db) reqs s ∧ s.Sound
      ↔ Run (stepOf State.handleFastLogin) State.Meets (State.start db) reqs s := by
  refine holds_iff State.Inv State.Sound ⟨⟨hkeys, nofun, nofun⟩, nofun, nofun, nofun⟩ ?_ ?_
  . exact fun s req s' I S _ hstep => (I.step S hmd5 hstep).1
  . exact fun s req s' I S hstep => (I.step S hmd5 hstep).2

end Run

end Tokens

@[reducible]
def digests : Md5 where
  md5 s :=
    if s = "123456" then "e10adc3949ba59abbe56e057f20f883e"
    else if s = "654321" then "c33367701511b4f6020ec61ded352059"
    else if s = "1504857000048" then "604a71e4ed8a6c6faf2c9cd09c008213"
    else if s = "1504857000049" then "04c936a52ca941a5b9dd05c5016e1e2e"
    else if s = "1504857060049" then "a10cb67c75027e8a11f3c106b481479d"
    else "x" ++ s
  md5_repr n := by
    split_ifs
    all_goals first | decide | simp [MapObject.colon_notMem_repr]

@[reducible]
def exactServer : SqlServer where
  Key := Value
  decEqKey := inferInstance
  columnKey v := if v = .null then none else some v
  columnKey_eq_none v := by split <;> simp_all

theorem digests_injective : Function.Injective digests.md5 := by
  have hother : ∀ digest s : String, digest.toList.head? ≠ some 'x' → digest ≠ "x" ++ s := by
    rintro digest s hhead rfl
    simp at hhead
  intro s s' h
  unfold digests at h
  dsimp only at h
  split_ifs at h
  all_goals first
    | simp_all; done
    | exact absurd h (by decide)
    | exact absurd h (hother _ _ (by decide))
    | exact absurd h.symm (hother _ _ (by decide))

def bob : MapObject := @account digests "bob" (some "123456") 48

def accounts : Database := fun _ => [bob]

def alice : MapObject := @account digests "alice" (some "654321") 49

def loginAt (userName password : String) (currentTimeMillis : Int64) : FastLogin :=
  ⟨some userName, some password, currentTimeMillis, .success, .success, 49, some ("10.0.0.1", 9091)⟩

def twoLogins : List FastLogin :=
  [loginAt "bob" "123456" 1504857000000, loginAt "alice" "654321" 1504857060000]

theorem keys_bob : @Keys exactServer [bob] := by
  let _ := exactServer
  refine ⟨fun row hrow row' hrow' _ _ => ?_, fun row hrow => ?_⟩
  . rw [List.mem_singleton.mp hrow, List.mem_singleton.mp hrow']
  . rw [List.mem_singleton.mp hrow]
    decide

theorem sound_iff_twoLogins
    : letI := digests
      letI := exactServer
      ∃ s, Run (stepOf State.handleFastLogin) (fun s _ => s.Sound) (State.start accounts) twoLogins s
        ∧ s.issued.map (fun l => (l.userId, l.token))
          = [(48, "604a71e4ed8a6c6faf2c9cd09c008213"), (49, "a10cb67c75027e8a11f3c106b481479d")]
        ∧ s.Sound := by
  let _ := digests
  let _ := exactServer
  obtain ⟨s, hmeets, hissued⟩ : ∃ s, Run (stepOf State.handleFastLogin) State.Meets (State.start accounts)
        twoLogins s
      ∧ s.issued.map (fun l => (l.userId, l.token))
        = [(48, "604a71e4ed8a6c6faf2c9cd09c008213"), (49, "a10cb67c75027e8a11f3c106b481479d")] :=
    Run.exists_of_guarded (by decide)
  obtain ⟨hrun, hsound⟩ := (sound_iff digests_injective keys_bob).mpr hmeets
  exact ⟨s, hrun, hissued, hsound⟩

theorem sound_counterexample
    : letI := digests
      letI := exactServer
      Function.Injective Md5.md5 ∧ Keys [bob] ∧ Keys [bob, alice]
        ∧ (∃ s, Run (stepOf State.handleFastLogin) anyLabel (State.start accounts)
            [loginAt "bob" "654321" 1504857000000] s
          ∧ s.issued.map (fun l => (l.userId, l.token)) = [(48, "604a71e4ed8a6c6faf2c9cd09c008213")]
          ∧ ¬ s.Sound)
        ∧ (∃ s, Run (stepOf State.handleFastLogin) anyLabel (State.start accounts)
            [{ loginAt "alice" "654321" 1504857000048 with insert := .sqlException false }] s
          ∧ s.issued.map (fun l => (l.userId, l.token)) = [(0, "604a71e4ed8a6c6faf2c9cd09c008213")]
          ∧ ¬ s.Sound)
        ∧ ∃ s, Run (stepOf State.handleFastLogin) anyLabel (State.start fun _ => [bob, alice])
            [loginAt "alice" "654321" 1504857000000, loginAt "bob" "123456" 1504857000001] s
          ∧ s.issued.map (fun l => (l.userId, l.token))
            = [(49, "04c936a52ca941a5b9dd05c5016e1e2e"), (48, "04c936a52ca941a5b9dd05c5016e1e2e")]
          ∧ (s.tokenMap "04c936a52ca941a5b9dd05c5016e1e2e").map (fun info => info.userId) = some 48
          ∧ ¬ s.Sound := by
  let _ := digests
  let _ := exactServer
  refine ⟨digests_injective, keys_bob, keys_bob.append (by decide) (by decide), ?_, ?_, ?_⟩
  . exact Run.exists_of_foldlM (by decide)
  . exact Run.exists_of_foldlM (by decide)
  . exact Run.exists_of_foldlM (by decide)

end LoginHandler

end WzGame
