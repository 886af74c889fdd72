import WzGame.Util.MapObject
import WzGame.Util.Splits

/-!
This module contains the mails of the center server, the rows that they are stored as, and how they are built again
from these.
-/

namespace WzGame

-- a list or text that is `null` is `none`
structure MailEntity where
  playerId : Int32 := 0
  id : Int32 := 0
  mailId : Int32 := 0
  sender : Option String := none
  money : Int32 := 0
  params : Option (List String) := none
  sendTime : Int32 := 0
  gain : Bool := false
  read : Bool := false
  agentId : Int32 := 0
  title : Option String := none
deriving DecidableEq

namespace MailEntity

def addParam (entity : MailEntity) (param : String) : MailEntity :=
  { entity with params := some (entity.params.getD [] ++ [param]) }

-- `createMail` with the parameters of a mail; `now` is `MiscUtil.getCurrentSeconds()`.
def createMail (playerId mailId contentId money : Int32) (params : List String) (now : Int32) : MailEntity :=
  let entity : MailEntity := { money, playerId, sendTime := now, mailId := contentId }
  let entity := params.foldl addParam entity
  { entity with id := mailId, sender := some "system", gain := false, title := some "" }

def createMailEx (playerId mailId contentId money agentId : Int32) (title : String) (params : List String)
    (now : Int32) : MailEntity :=
  let entity : MailEntity := { money, playerId, sendTime := now, mailId := contentId }
  let entity := params.foldl addParam entity
  { entity with id := mailId, sender := some "system", gain := false, agentId, title := some title }

def appendParams : List String → List Char
  | [] => []
  | [param] => param.toList
  | param :: params => param.toList ++ [','] ++ appendParams params

def getParamString (mail : MailEntity) : String :=
  match mail.params with
  | none => ""
  | some params => String.ofList (appendParams params)

-- an object of the class `String`, which may be `null`
def text (s : Option String) : Value := s.elim .null .string

def mailData (mail : MailEntity) : MapObject :=
  let mailData : MapObject := ∅
  let mailData := mailData.put "player_id" (.int mail.playerId.toInt)
  let mailData := mailData.put "id" (.int mail.id.toInt)
  let mailData := mailData.put "sender" (text mail.sender)
  let mailData := mailData.put "send_time" (.int mail.sendTime.toInt)
  let mailData := mailData.put "mail_id" (.int mail.mailId.toInt)
  let mailData := mailData.put "param" (.string mail.getParamString)
  let mailData := mailData.put "money" (.int mail.money.toInt)
  let mailData := mailData.put "gain" (.int (if mail.gain then 1 else 0))
  let mailData := mailData.put "readed" (.int (if mail.read then 1 else 0))
  let mailData := mailData.put "agent_id" (.int mail.agentId.toInt)
  mailData.put "title" (text mail.title)

-- `String.split(",")`
def splitParams (s : String) : List String := (Splits.split ',' s.toList).map String.ofList

-- `createMail` with a row. An exception is `none`: a text that is of another class, or no text of parameters.
def createMailOf (data : MapObject) : Option MailEntity := do
  let entity : MailEntity := { playerId := data.getInt "player_id", id := data.getInt "id" }
  let sender ← data.getString "sender"
  let title ← data.getString "title"
  let entity := { entity with
    sender, sendTime := data.getInt "send_time", mailId := data.getInt "mail_id", money := data.getInt "money", title }
  let param ← data.getString "param"
  let entity := (splitParams (← param)).foldl addParam entity
  some { entity with
    gain := data.getInt "gain" == 1, read := data.getInt "readed" == 1, agentId := data.getInt "agent_id" }

-- the mail comes back with its parameters, of which it has none if its list is `null`, and with its other data
def RoundTrip (mail : MailEntity) : Prop :=
  ∃ mail', createMailOf (mailData mail) = some mail' ∧ mail'.params.getD [] = mail.params.getD []
    ∧ mail'.id = mail.id ∧ mail'.mailId = mail.mailId ∧ mail'.playerId = mail.playerId ∧ mail'.money = mail.money
    ∧ mail'.gain = mail.gain ∧ mail'.read = mail.read ∧ mail'.sender = mail.sender ∧ mail'.title = mail.title
    ∧ mail'.agentId = mail.agentId

def Storable (params : List String) : Prop :=
  params ≠ [] ∧ (∀ param ∈ params, ',' ∉ param.toList) ∧ (params.getLast? = some "" → params = [""])

theorem foldl_addParam (params : List String) (entity : MailEntity)
    : params.foldl addParam entity
        = { entity with params := if params = [] then entity.params else some (entity.params.getD [] ++ params) } := by
  induction params generalizing entity with
  | nil => rfl
  | cons param params ih =>
    rw [List.foldl_cons, ih]
    by_cases hparams : params = []
    . simp [hparams, addParam]
    . simp [hparams, addParam]

theorem appendParams_eq (params : List String) : appendParams params = Splits.join ',' (params.map String.toList) := by
  fun_induction appendParams params with
  | case1 => rfl
  | case2 param => exact (Splits.join_singleton _).symm
  | case3 param params hne ih =>
    obtain ⟨param', params', rfl⟩ := List.exists_cons_of_ne_nil fun hnil => hne hnil
    rw [ih, Splits.join, Splits.join]
    simp only [List.map_cons, List.intercalate_cons_cons]

theorem getParamString_eq (mail : MailEntity)
    : mail.getParamString = String.ofList (Splits.join ',' ((mail.params.getD []).map String.toList)) := by
  rw [getParamString]
  split
  . next hnone => rw [hnone]; rfl
  . next params hsome => rw [hsome, appendParams_eq]; rfl

theorem storable_iff (params : List String) : Storable params ↔ Splits.Splittable ',' (params.map String.toList) := by
  have hlast : (params.map String.toList).getLast? = some [] ↔ params.getLast? = some "" := by
    rw [List.getLast?_map, Option.map_eq_some_iff]
    simp [String.toList_eq_nil_iff]
  have hone : params.map String.toList = [[]] ↔ params = [""] := by
    simp [List.map_eq_cons_iff, String.toList_eq_nil_iff]
  rw [Storable, Splits.Splittable, hlast, hone]
  simp

theorem splitParams_eq_iff (params : List String)
    : splitParams (String.ofList (Splits.join ',' (params.map String.toList))) = params ↔ Storable params := by
  rw [splitParams, String.toList_ofList, storable_iff, ← Splits.split_join_iff]
  constructor
  . intro h
    have hlists := congrArg (List.map String.toList) h
    simpa [Function.comp_def] using hlists
  . intro h
    simp [h, Function.comp_def]

section Columns

variable {data : MapObject} {key : String}

theorem getInt_of_get {v : Int32} (h : data.get key = .int v.toInt) : data.getInt key = v := by
  rw [MapObject.getInt, h]
  exact Int32.ofInt_toInt v

theorem getString_of_get {s : Option String} (h : data.get key = text s) : data.getString key = some s := by
  rw [MapObject.getString, h]
  cases s <;> rfl

theorem getInt_flag {flag : Bool} (h : data.get key = .int (if flag then 1 else 0))
    : (data.getInt key == 1) = flag := by
  rw [MapObject.getInt, h]
  cases flag <;> rfl

end Columns

theorem createMailOf_mailData (mail : MailEntity)
    : ∃ params, createMailOf (mailData mail) = some { mail with params }
        ∧ params.getD [] = splitParams mail.getParamString := by
  have hplayer := @getInt_of_get (mailData mail) "player_id" mail.playerId (by simp [mailData])
  have hid := @getInt_of_get (mailData mail) "id" mail.id (by simp [mailData])
  have hsender := @getString_of_get (mailData mail) "sender" mail.sender (by simp [mailData])
  have htime := @getInt_of_get (mailData mail) "send_time" mail.sendTime (by simp [mailData])
  have hmail := @getInt_of_get (mailData mail) "mail_id" mail.mailId (by simp [mailData])
  have hparam := @getString_of_get (mailData mail) "param" (some mail.getParamString) (by simp [mailData, text])
  have hmoney := @getInt_of_get (mailData mail) "money" mail.money (by simp [mailData])
  have hgain := @getInt_flag (mailData mail) "gain" mail.gain (by simp [mailData])
  have hread := @getInt_flag (mailData mail) "readed" mail.read (by simp [mailData])
  have hagent := @getInt_of_get (mailData mail) "agent_id" mail.agentId (by simp [mailData])
  have htitle := @getString_of_get (mailData mail) "title" mail.title (by simp [mailData])
  refine ⟨if splitParams mail.getParamString = [] then none else some (splitParams mail.getParamString), ?_, ?_⟩
  . simp [createMailOf, hplayer, hid, hsender, htime, hmail, hparam, hmoney, hgain, hread, hagent, htitle,
      foldl_addParam]
  . split
    . next h => rw [h]; rfl
    . rfl

theorem roundTrip_iff (mail : MailEntity) : RoundTrip mail ↔ Storable (mail.params.getD []) := by
  obtain ⟨params, hcreate, hparams⟩ := createMailOf_mailData mail
  rw [getParamString_eq] at hparams
  rw [← splitParams_eq_iff, ← hparams]
  constructor
  . rintro ⟨mail', hmail', hsame, -⟩
    obtain rfl := Option.some.inj (hcreate.symm.trans hmail')
    exact hsame
  . intro hsame
    exact ⟨_, hcreate, hsame, rfl, rfl, rfl, rfl, rfl, rfl, rfl, rfl, rfl⟩

section Factories

variable (playerId mailId contentId money agentId now : Int32) (title : String) (params : List String)

theorem getD_params_createMail : (createMail playerId mailId contentId money params now).params.getD [] = params := by
  rw [createMail, foldl_addParam]
  by_cases hparams : params = []
  . simp [hparams]
  . simp [hparams]

theorem getD_params_createMailEx
    : (createMailEx playerId mailId contentId money agentId title params now).params.getD [] = params := by
  rw [createMailEx, foldl_addParam]
  by_cases hparams : params = []
  . simp [hparams]
  . simp [hparams]

/-- A new mail comes back exactly if its parameters are storable. -/
theorem roundTrip_createMail_iff
    : (RoundTrip (createMail playerId mailId contentId money params now) ↔ Storable params)
        ∧ (RoundTrip (createMailEx playerId mailId contentId money agentId title params now) ↔ Storable params) := by
  rw [roundTrip_iff, roundTrip_iff, getD_params_createMail, getD_params_createMailEx]
  exact ⟨.rfl, .rfl⟩

end Factories

theorem roundTrip_counterexample
    : ¬ ∀ (playerId mailId contentId money now : Int32) (params : List String),
        RoundTrip (createMail playerId mailId contentId money params now) := by
  intro hevery
  have hstorable := (roundTrip_iff _).mp (hevery 1 2 3 4 5 [])
  rw [getD_params_createMail] at hstorable
  exact hstorable.1 rfl

end MailEntity

end WzGame
