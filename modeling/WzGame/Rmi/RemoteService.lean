import Mathlib.Tactic.IntervalCases

/-!
This module contains a synchronous call of the remote method invocation: what the proxy of the client sends,
how the other side executes it, and which requests it answers.
-/

namespace WzGame

namespace Rmi

inductive JavaObject (ν : Type) where
  | integer (n : Int)
  | voidClass
  | callbackProxy
  | other (v : ν)
deriving DecidableEq

structure RmiRequest (ν : Type) where
  interfaceName : String
  methodName : String
  paramsMap : List (String × JavaObject ν)

-- the result; `none` is `null`
structure RmiResponse (ν : Type) where
  result : Option (JavaObject ν)

inductive Sent (ν : Type) where
  | invokeSyncMethod (message : RmiRequest ν)
  | writeAndFlush (message : RmiRequest ν)

inductive ClassType where
  | int
  | short
  | string
  | wzCallback
deriving DecidableEq

def ClassType.getSimpleName : ClassType → String
  | .int => "int"
  | .short => "short"
  | .string => "String"
  | .wzCallback => "WzCallback"

-- a method with the simple name of its return type, and what it returns or throws
structure Method (ν : Type) where
  returnType : String
  invoke : List (JavaObject ν) → Except String (Option (JavaObject ν))
  invoke_void : returnType = "void" → ∀ values result, invoke values = .ok result → result = none

structure RemoteObject (ν : Type) where
  getMethod : String → List ClassType → Option (Method ν)

variable {ν : Type}

def RmiClient.intercept (getSimpleName : JavaObject ν → String) (name methodName : String)
    (objects : Option (List (JavaObject ν))) : Sent ν :=
  let paramMap := (objects.getD []).map fun object => (getSimpleName object, object)
  let callbackList := paramMap.filter fun e => e.1 == ""
  let message : RmiRequest ν := ⟨name, methodName, paramMap⟩
  if callbackList.length = 0 ∧ ¬ methodName = "registerRmiClient" then
    .invokeSyncMethod message
  else
    .writeAndFlush message

namespace RemoteService

def getClassType (simpleName : String) : Except String ClassType :=
  if simpleName = "Integer" then
    .ok .int
  else if simpleName = "Short" then
    .ok .short
  else if simpleName = "String" then
    .ok .string
  else if simpleName = "" then
    .ok .wzCallback
  else
    .error "un support type exception"

section ExecuteArgs

variable (obj : RemoteObject ν) (methodName : String) (typeArray : List ClassType)
  (objectArray : List (JavaObject ν))

def executeArgsMethod (n : Nat) : Except String (Option (JavaObject ν)) :=
  match obj.getMethod methodName (typeArray.take n) with
  | none => .ok (some (.integer 0))
  | some method => method.invoke (objectArray.take n)

def executeArgsMethod0 : Except String (Option (JavaObject ν)) :=
  executeArgsMethod obj methodName typeArray objectArray 0

def executeArgsMethod1 : Except String (Option (JavaObject ν)) :=
  executeArgsMethod obj methodName typeArray objectArray 1

def executeArgsMethod2 : Except String (Option (JavaObject ν)) :=
  executeArgsMethod obj methodName typeArray objectArray 2

-- the only one that looks at the return type
def executeArgsMethod3 : Except String (Option (JavaObject ν)) :=
  match obj.getMethod methodName (typeArray.take 3) with
  | none => .ok (some (.integer 0))
  | some method =>
    if method.returnType = "void" then do
      let _ ← method.invoke (objectArray.take 3)
      return some .voidClass
    else
      method.invoke (objectArray.take 3)

def executeArgsMethod4 : Except String (Option (JavaObject ν)) :=
  executeArgsMethod obj methodName typeArray objectArray 4

def executeArgsMethod5 : Except String (Option (JavaObject ν)) :=
  executeArgsMethod obj methodName typeArray objectArray 5

def executeArgsMethod6 : Except String (Option (JavaObject ν)) :=
  executeArgsMethod obj methodName typeArray objectArray 6

def executeArgsMethod7 : Except String (Option (JavaObject ν)) :=
  executeArgsMethod obj methodName typeArray objectArray 7

def executeArgsMethod8 : Except String (Option (JavaObject ν)) :=
  executeArgsMethod obj methodName typeArray objectArray 8

def executeArgsMethod9 : Except String (Option (JavaObject ν)) :=
  executeArgsMethod obj methodName typeArray objectArray 9

def executeArgsMethod10 : Except String (Option (JavaObject ν)) :=
  executeArgsMethod obj methodName typeArray objectArray 10

end ExecuteArgs

def executeServerCommand (registerObject : String → Option (RemoteObject ν)) (className methodName : String)
    (args : List ClassType) (values : List (JavaObject ν)) : Except String (Option (JavaObject ν)) :=
  match registerObject className with
  | none => .ok (some (.integer 0))
  | some obj =>
    match args.length with
    | 0 => executeArgsMethod0 obj methodName args values
    | 1 => executeArgsMethod1 obj methodName args values
    | 2 => executeArgsMethod2 obj methodName args values
    | 3 => executeArgsMethod3 obj methodName args values
    | 4 => executeArgsMethod4 obj methodName args values
    | 5 => executeArgsMethod5 obj methodName args values
    | 6 => executeArgsMethod6 obj methodName args values
    | 7 => executeArgsMethod7 obj methodName args values
    | 8 => executeArgsMethod8 obj methodName args values
    | 9 => executeArgsMethod9 obj methodName args values
    | 10 => executeArgsMethod10 obj methodName args values
    | _ => .error "un support num of args exception"

def param (e : String × JavaObject ν) : Except String (ClassType × JavaObject ν) := do
  let classType ← getClassType e.1
  return (classType, if classType.getSimpleName = "WzCallback" then .callbackProxy else e.2)

def writeResult : Except String (Option (JavaObject ν)) → List (RmiResponse ν)
  | .ok none => [⟨none⟩]
  | .ok (some .voidClass) => []
  | .ok (some result) => [⟨some result⟩]
  -- the exception is printed
  | .error _ => []

-- the responses that are written; an exception of the parameters is not caught here
def executeServerMethod (registerObject : String → Option (RemoteObject ν)) (request : RmiRequest ν)
    : Except String (List (RmiResponse ν)) := do
  let params ← request.paramsMap.mapM param
  return writeResult (executeServerCommand registerObject request.interfaceName request.methodName
    (params.map Prod.fst) (params.map Prod.snd))

-- a method that neither throws nor returns what stands for no result, and is not a `void` one of three
def Answers (method : Method ν) (values : List (JavaObject ν)) : Prop :=
  (values.length = 3 → method.returnType ≠ "void")
    ∧ ∃ result, method.invoke values = .ok result ∧ result ≠ some .voidClass

/--
The types of the arguments are supported, and if the interface is registered, there are at most ten of them
and a method that is found answers.
-/
def Answerable (registerObject : String → Option (RemoteObject ν)) (name methodName : String)
    (simpleNames : List String) (values : List (JavaObject ν)) : Prop :=
  ∃ classTypes, simpleNames.mapM getClassType = .ok classTypes
    ∧ ∀ obj, registerObject name = some obj → classTypes.length ≤ 10
      ∧ ∀ method, obj.getMethod methodName classTypes = some method → Answers method values

theorem getClassType_eq_wzCallback {simpleName : String} (h : getClassType simpleName = .ok .wzCallback)
    : simpleName = "" := by
  simp only [getClassType] at h
  repeat' split at h
  all_goals first | assumption | simp at h

theorem param_eq {e : String × JavaObject ν} (h : e.1 ≠ "")
    : param e = (getClassType e.1).map fun classType => (classType, e.2) := by
  simp only [param]
  cases htype : getClassType e.1 with
  | error message => rfl
  | ok classType =>
    have hname : classType.getSimpleName ≠ "WzCallback" := by
      intro hcallback
      cases classType with
      | wzCallback => exact h (getClassType_eq_wzCallback htype)
      | _ => simp [ClassType.getSimpleName] at hcallback
    show Except.ok _ = _
    rw [if_neg hname]
    rfl

theorem length_of_mapM {simpleNames : List String} {classTypes : List ClassType}
    (h : simpleNames.mapM getClassType = .ok classTypes) : classTypes.length = simpleNames.length := by
  induction simpleNames generalizing classTypes with
  | nil =>
    obtain rfl : [] = classTypes := Except.ok.inj h
    rfl
  | cons simpleName simpleNames ih =>
    rw [List.mapM_cons] at h
    cases hhead : getClassType simpleName with
    | error message =>
      rw [hhead] at h
      contradiction
    | ok classType =>
      cases htail : simpleNames.mapM getClassType with
      | error message =>
        rw [hhead, htail] at h
        contradiction
      | ok tail =>
        rw [hhead, htail] at h
        obtain rfl : classType :: tail = classTypes := Except.ok.inj h
        rw [List.length_cons, List.length_cons, ih htail]

theorem mapM_param {getSimpleName : JavaObject ν → String} {values : List (JavaObject ν)}
    (h : ∀ v ∈ values, getSimpleName v ≠ "")
    : (values.map fun v => (getSimpleName v, v)).mapM param
      = ((values.map getSimpleName).mapM getClassType).map fun classTypes => classTypes.zip values := by
  induction values with
  | nil => rfl
  | cons v values ih =>
    rw [List.map_cons, List.map_cons, List.mapM_cons, List.mapM_cons,
      param_eq (e := (getSimpleName v, v)) (h v List.mem_cons_self),
      ih fun v' hv' => h v' (List.mem_cons_of_mem _ hv')]
    cases getClassType (getSimpleName v) with
    | error message => rfl
    | ok classType =>
      cases (values.map getSimpleName).mapM getClassType with
      | error message => rfl
      | ok classTypes => rfl

section ExecuteServerCommand

variable {registerObject : String → Option (RemoteObject ν)} {obj : RemoteObject ν} {method : Method ν}
  {className methodName : String} {args : List ClassType} {values : List (JavaObject ν)}

theorem executeServerCommand_of_unregistered (h : registerObject className = none)
    : executeServerCommand registerObject className methodName args values = .ok (some (.integer 0)) := by
  rw [executeServerCommand, h]

theorem executeServerCommand_of_lt (h : registerObject className = some obj) (hlt : 10 < args.length)
    : executeServerCommand registerObject className methodName args values
      = .error "un support num of args exception" := by
  rw [executeServerCommand, h]
  dsimp
  split
  all_goals first | omega | rfl

theorem executeServerCommand_of_le (h : registerObject className = some obj) (hle : args.length ≤ 10)
    : executeServerCommand registerObject className methodName args values
      = if args.length = 3 then executeArgsMethod3 obj methodName args values
        else executeArgsMethod obj methodName args values args.length := by
  rw [executeServerCommand, h]
  dsimp
  generalize args.length = n at hle
  interval_cases n <;> rfl

theorem executeServerCommand_of_none (h : registerObject className = some obj) (hle : args.length ≤ 10)
    (hmethod : obj.getMethod methodName args = none)
    : executeServerCommand registerObject className methodName args values = .ok (some (.integer 0)) := by
  rw [executeServerCommand_of_le h hle]
  split
  . next hthree => rw [executeArgsMethod3, ← hthree, List.take_length, hmethod]
  . rw [executeArgsMethod, List.take_length, hmethod]

theorem executeServerCommand_of_void (h : registerObject className = some obj) (hthree : values.length = 3)
    (hlength : args.length = values.length) (hmethod : obj.getMethod methodName args = some method)
    (hvoid : method.returnType = "void")
    : executeServerCommand registerObject className methodName args values
      = (method.invoke values).map fun _ => some .voidClass := by
  have hargs : args.length = 3 := hlength.trans hthree
  rw [executeServerCommand_of_le h (by omega), if_pos hargs, executeArgsMethod3,
    List.take_of_length_le (by omega), List.take_of_length_le (by omega), hmethod]
  dsimp
  rw [if_pos hvoid]
  cases method.invoke values with
  | error message => rfl
  | ok result => rfl

theorem executeServerCommand_of_some (h : registerObject className = some obj) (hle : args.length ≤ 10)
    (hlength : args.length = values.length) (hmethod : obj.getMethod methodName args = some method)
    (hvoid : values.length = 3 → method.returnType ≠ "void")
    : executeServerCommand registerObject className methodName args values = method.invoke values := by
  rw [executeServerCommand_of_le h hle]
  split
  . next hthree =>
    rw [executeArgsMethod3, List.take_of_length_le (by omega), List.take_of_length_le (by omega), hmethod]
    dsimp
    rw [if_neg (hvoid (by omega))]
  . rw [executeArgsMethod, List.take_length, List.take_of_length_le (by omega), hmethod]

end ExecuteServerCommand

theorem writeResult_eq_singleton_iff {x : Except String (Option (JavaObject ν))}
    : (∃ response, writeResult x = [response]) ↔ ∃ result, x = .ok result ∧ result ≠ some .voidClass := by
  rcases x with message | (_ | (n | _ | _ | v)) <;> simp [writeResult]

theorem intercept_eq_invokeSyncMethod {getSimpleName : JavaObject ν → String} {name methodName : String}
    {objects : Option (List (JavaObject ν))} {message : RmiRequest ν}
    (h : RmiClient.intercept getSimpleName name methodName objects = .invokeSyncMethod message)
    : message = ⟨name, methodName, (objects.getD []).map fun v => (getSimpleName v, v)⟩
      ∧ ∀ v ∈ objects.getD [], getSimpleName v ≠ "" := by
  simp only [RmiClient.intercept] at h
  split at h
  . next hsync =>
    obtain rfl := Sent.invokeSyncMethod.inj h
    refine ⟨rfl, fun v hv hname => ?_⟩
    have hnil := List.filter_eq_nil_iff.mp (List.length_eq_zero_iff.mp hsync.1) (getSimpleName v, v)
      (List.mem_map_of_mem hv)
    simp [hname] at hnil
  . contradiction

theorem executeServerMethod_eq {registerObject : String → Option (RemoteObject ν)}
    {getSimpleName : JavaObject ν → String} {name methodName : String} {values : List (JavaObject ν)}
    (h : ∀ v ∈ values, getSimpleName v ≠ "")
    : executeServerMethod registerObject ⟨name, methodName, values.map fun v => (getSimpleName v, v)⟩
      = ((values.map getSimpleName).mapM getClassType).map fun classTypes =>
          writeResult (executeServerCommand registerObject name methodName classTypes values) := by
  simp only [executeServerMethod]
  rw [mapM_param h]
  cases htypes : (values.map getSimpleName).mapM getClassType with
  | error message => rfl
  | ok classTypes =>
    have hlength : classTypes.length = values.length := by
      rw [length_of_mapM htypes, List.length_map]
    show Except.ok (writeResult (executeServerCommand registerObject name methodName
      ((classTypes.zip values).map Prod.fst) ((classTypes.zip values).map Prod.snd))) = _
    rw [List.map_fst_zip (by omega), List.map_snd_zip (by omega)]
    rfl

theorem length_executeServerMethod_le_one {registerObject : String → Option (RemoteObject ν)}
    {request : RmiRequest ν} {responses : List (RmiResponse ν)}
    (h : executeServerMethod registerObject request = .ok responses) : responses.length ≤ 1 := by
  simp only [executeServerMethod] at h
  cases hparams : request.paramsMap.mapM param with
  | error message =>
    rw [hparams] at h
    contradiction
  | ok params =>
    rw [hparams] at h
    obtain rfl := Except.ok.inj h
    generalize executeServerCommand registerObject request.interfaceName request.methodName
      (params.map Prod.fst) (params.map Prod.snd) = x
    rcases x with message | (_ | (n | _ | _ | v)) <;> simp [writeResult]

theorem writeResult_executeServerCommand_iff {registerObject : String → Option (RemoteObject ν)}
    {name methodName : String} {classTypes : List ClassType} {values : List (JavaObject ν)}
    (hlength : classTypes.length = values.length)
    : (∃ response, writeResult (executeServerCommand registerObject name methodName classTypes values)
        = [response])
      ↔ ∀ obj, registerObject name = some obj → classTypes.length ≤ 10
        ∧ ∀ method, obj.getMethod methodName classTypes = some method → Answers method values := by
  rw [writeResult_eq_singleton_iff]
  cases hobj : registerObject name with
  | none =>
    rw [executeServerCommand_of_unregistered hobj]
    simp
  | some obj =>
    by_cases hle : classTypes.length ≤ 10
    . cases hmethod : obj.getMethod methodName classTypes with
      | none =>
        rw [executeServerCommand_of_none hobj hle hmethod]
        simp [hle, hmethod]
      | some method =>
        by_cases hvoid : values.length = 3 ∧ method.returnType = "void"
        . rw [executeServerCommand_of_void hobj hvoid.1 hlength hmethod hvoid.2]
          simp only [Option.some.injEq, forall_eq', hmethod, Answers, hvoid]
          cases method.invoke values <;> simp [Except.map]
        . have hvoid' : values.length = 3 → method.returnType ≠ "void" := fun hthree hreturn =>
            hvoid ⟨hthree, hreturn⟩
          rw [executeServerCommand_of_some hobj hle hlength hmethod hvoid']
          simp only [Option.some.injEq, forall_eq', hmethod, Answers]
          exact ⟨fun hresult => ⟨hle, hvoid', hresult⟩, fun hanswers => hanswers.2.2⟩
    . rw [executeServerCommand_of_lt hobj (by omega)]
      simp [hle]

/-- The requests that the client waits for and that are answered exactly once. -/
theorem executeServerMethod_answers_iff {registerObject : String → Option (RemoteObject ν)}
    {getSimpleName : JavaObject ν → String} {name methodName : String}
    {objects : Option (List (JavaObject ν))} {message : RmiRequest ν}
    (h : RmiClient.intercept getSimpleName name methodName objects = .invokeSyncMethod message)
    : (∃ response, executeServerMethod registerObject message = .ok [response])
      ↔ Answerable registerObject name methodName ((objects.getD []).map getSimpleName)
          (objects.getD []) := by
  obtain ⟨rfl, hnames⟩ := intercept_eq_invokeSyncMethod h
  rw [executeServerMethod_eq hnames, Answerable]
  cases htypes : ((objects.getD []).map getSimpleName).mapM getClassType with
  | error message => simp [Except.map]
  | ok classTypes =>
    have hlength : classTypes.length = (objects.getD []).length := by
      rw [length_of_mapM htypes, List.length_map]
    simp only [Except.map, Except.ok.injEq, exists_eq_left']
    exact writeResult_executeServerCommand_iff hlength

-- a method that returns a number, one that throws and a `void` one
def subject : RemoteObject Unit where
  getMethod
    | "helloWorld", [.int, .int] => some ⟨"int", fun _ => .ok (some (.integer 3)), by simp⟩
    | "divide", [.int, .int] => some ⟨"int", fun _ => .error "/ by zero", by simp⟩
    | "move", [.int, .int, .int] => some ⟨"void", fun _ => .ok none, by simp⟩
    | _, _ => none

def subjects (className : String) : Option (RemoteObject Unit) :=
  if className = "Subject" then some subject else none

def integers (_ : JavaObject Unit) : String := "Integer"

theorem executeServerMethod_answers_iff_helloWorld
    : RmiClient.intercept integers "Subject" "helloWorld" (some [.integer 1, .integer 2])
        = .invokeSyncMethod ⟨"Subject", "helloWorld", [("Integer", .integer 1), ("Integer", .integer 2)]⟩
      ∧ ∃ response, executeServerMethod subjects
        ⟨"Subject", "helloWorld", [("Integer", .integer 1), ("Integer", .integer 2)]⟩ = .ok [response] := by
  have hsent : RmiClient.intercept integers "Subject" "helloWorld" (some [.integer 1, .integer 2])
      = .invokeSyncMethod ⟨"Subject", "helloWorld", [("Integer", .integer 1), ("Integer", .integer 2)]⟩ := rfl
  refine ⟨hsent, (executeServerMethod_answers_iff hsent).mpr ⟨[.int, .int], rfl, ?_⟩⟩
  rintro obj ⟨⟩
  refine ⟨by decide, ?_⟩
  rintro method ⟨⟩
  exact ⟨by simp, some (.integer 3), rfl, by simp⟩

theorem executeServerMethod_counterexample
    : (∃ message, RmiClient.intercept integers "Subject" "divide" (some [.integer 1, .integer 0])
        = .invokeSyncMethod message ∧ executeServerMethod subjects message = .ok [])
      ∧ ∃ message, RmiClient.intercept integers "Subject" "move" (some [.integer 1, .integer 2, .integer 3])
        = .invokeSyncMethod message ∧ executeServerMethod subjects message = .ok [] :=
  ⟨⟨_, rfl, rfl⟩, _, rfl, rfl⟩

end RemoteService

end Rmi

end WzGame
