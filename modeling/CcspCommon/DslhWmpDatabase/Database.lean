import CcspCommon.DslhVarRecord.TstValue
import Mathlib.Logic.Function.Basic

set_option autoImplicit false

namespace CcspCommon.DslhWmpDatabase

open CcspCommon.Shared CcspCommon.DslhVarRecord

inductive Status
  | success | ccspSuccess | failure | invalidArguments | invalidParameterName
  | invalidParameterType | invalidParameterValue | notWritable
  deriving DecidableEq, Repr

def Status.isSuccess : Status → Bool
  | .success | .ccspSuccess => true
  | _ => false

def maxVarInArray : Nat := 256

def maxObjInArray : Nat := 32

def accessControlSnmp : Nat := 0x00000002

def accessControlAcs : Nat := 0x00000004

def accessListToAccessControlBitMask (pAccessList : Text) : Nat :=
  if (strstr "ACS".toList pAccessList).isSome then 0x00000000
  else if (strstr "XMPP".toList pAccessList).isSome then 0x00000001
  else if (strstr "CLI".toList pAccessList).isSome then 0x00000002
  else if (strstr "WebUI".toList pAccessList).isSome then 0x00000004
  else 0xFFFFFFFF

inductive Writability
  | notChange | no | yes
  deriving DecidableEq, Repr

inductive SetInterface
  | absent | bulk | single
  deriving DecidableEq, Repr

/-- What a run of sets and commits does not change: the tree of objects `O` and parameters `V`, the attributes of
the parameters and the callbacks of the backends, whose state is `B`. Reading callbacks do not change that
state. -/
structure DataModel (V O B : Type) where
  converters : Converters
  useNotifyComponent : Bool
  getVarRecord : Text → Option V
  entity : V → VarEntity
  objRecord : V → O
  vareoTable : O → List V
  -- The queue is counted by a `USHORT`, and `DslhObjcoValidate` allocates its arrays by that count.
  vareoDepth : ∀ o, (vareoTable o).length < 2 ^ 16
  child : ∀ o, ∀ v ∈ vareoTable o, objRecord v = o
  fullName : O → Text
  hasController : O → Bool
  bGroupCommit : O → Bool
  accessList : V → Option Text
  notification : V → Bool
  signalText : SlapVariable → Option Text
  monitorEnabled : Bool
  userOpComponents : Nat
  checkParamWritability : B → V → Writability
  getParamValueByName : B → V → Option SlapVariable
  setInterface : O → SetInterface
  setEntryBulk : B → O → List (V × SlapVariable) → B × Option Nat
  setEntryParam : B → V → SlapVariable → B × Bool
  validateMethod : B → O → B × Option Text
  commitMethod : B → O → B × Bool
  rollbackMethod : B → O → B

inductive Event (V O : Type)
  | deliver (v : V) (value : SlapVariable)
  | verify (o : O)
  | commitChanges (o : O)
  | cancelChanges (o : O)
  | commitChange (v : V) (pending : Option SlapVariable)
  | cancelChange (v : V) (pending : Option SlapVariable)

structure Database (V O B : Type) where
  records : V → VarRecord
  hVarRecordArray : Option (List V)
  hObjRecordArray : Option (List O)
  sessionID : Int
  bMonitorParamLoaded : Bool
  bGlobalMonitor : Bool
  uMonitorComponents : Nat
  psmUserChanged : Text → Bool
  backend : B
  trace : List (Event V O)

structure ParamValue where
  name : Option Text
  value : Option SlapVariable
  deriving DecidableEq, Repr

structure Request where
  pAccessEntity : Text
  paramValues : List ParamValue
  sessionId : Int
  writeID : Nat
  bCommit : Bool
  deriving DecidableEq, Repr

def Request.fromAcs (request : Request) : Bool :=
  request.writeID = accessControlAcs && request.pAccessEntity = "ACS".toList

def Request.fromSnmp (request : Request) : Bool := request.writeID = accessControlSnmp

variable {V O B : Type} [DecidableEq V] [DecidableEq O]

namespace Database

def create (psmUserChanged : Text → Bool) (backend : B) : Database V O B where
  records := fun _ => VarRecord.create
  hVarRecordArray := none
  hObjRecordArray := none
  sessionID := 0
  bMonitorParamLoaded := false
  bGlobalMonitor := false
  uMonitorComponents := 0
  psmUserChanged := psmUserChanged
  backend := backend
  trace := []

def setRecord (db : Database V O B) (v : V) (record : VarRecord) : Database V O B :=
  { db with records := Function.update db.records v record }

def log (db : Database V O B) (event : Event V O) : Database V O B :=
  { db with trace := db.trace ++ [event] }

def resetObjVarArray (db : Database V O B) : Database V O B :=
  { db with hVarRecordArray := none, hObjRecordArray := none }

def ensureObjVarArray (db : Database V O B) : Database V O B :=
  match db.hVarRecordArray, db.hObjRecordArray with
  | some _, some _ => db
  | _, _ => { db with hVarRecordArray := some [], hObjRecordArray := some [] }

def addVarRecordIntoArray (vars : List V) (v : V) : List V :=
  if vars.length < maxVarInArray then vars ++ [v] else vars

def addObjRecordIntoArray (objs : List O) (o : O) : List O :=
  if objs.length ≥ maxObjInArray then objs else if o ∈ objs then objs else objs ++ [o]

def cancelChange (db : Database V O B) (v : V) : Database V O B :=
  (db.setRecord v (db.records v).dropChange).log (.cancelChange v (db.records v).tempParamValue)

def commitChange (db : Database V O B) (v : V) : Database V O B :=
  (db.setRecord v (db.records v).dropChange).log (.commitChange v (db.records v).tempParamValue)

def cancelChanges (model : DataModel V O B) (db : Database V O B) (o : O) : Database V O B :=
  { db with backend := model.rollbackMethod db.backend o }.log (.cancelChanges o)

def commitChanges (model : DataModel V O B) (db : Database V O B) (o : O) : Database V O B :=
  { db with backend := (model.commitMethod db.backend o).1 }.log (.commitChanges o)

end Database

section Entry

variable (model : DataModel V O B) (request : Request)

def typeMatches (dataType : CwmpDataType) (value : SlapVariable) : Bool :=
  match dataType, value with
  | .boolean, .varBool _ => true
  | .boolean, _ => false
  | .int, .varInt _ => true
  | .int, _ => false
  | .unsignedInt, .varUint32 _ => true
  | .unsignedInt, _ => false
  | _, .varString _ => true
  | _, _ => false

def isRecordWritable (backend : B) (v : V) : Bool :=
  match model.checkParamWritability backend v with
  | .notChange => (model.entity v).bWritable
  | .no => false
  | .yes => true

structure Fault where
  status : Status
  invalidParameterName : Option Text
  deriving DecidableEq, Repr

def screen (backend : B) (entry : ParamValue) : Except Fault (V × Text × SlapVariable) :=
  match entry.name, entry.value with
  | none, _ => .error ⟨.invalidArguments, none⟩
  | some name, none => .error ⟨.invalidParameterValue, some name⟩
  | some name, some value =>
    match model.getVarRecord name with
    | none => .error ⟨.invalidParameterName, some name⟩
    | some v =>
      if (model.entity v).bInvisible && request.fromAcs then
        .error ⟨.invalidParameterName, some name⟩
      else if !typeMatches (model.entity v).dataType value then
        .error ⟨.invalidParameterType, some name⟩
      else if !isRecordWritable model backend v then .error ⟨.notWritable, some name⟩
      else .ok (v, name, value)

def tstValue (record : VarRecord) (v : V) (value : SlapVariable) : Option VarRecord :=
  record.tstValue model.converters (model.entity v) (model.hasController (model.objRecord v))
    (model.bGroupCommit (model.objRecord v)) value

def getValue (db : Database V O B) (v : V) : Option SlapVariable :=
  (db.records v).getValue (model.entity v) (model.bGroupCommit (model.objRecord v))
    (if model.hasController (model.objRecord v) then model.getParamValueByName db.backend v else none)

def accessDenied (v : V) : Bool :=
  match model.accessList v with
  | none => false
  | some accessList => request.writeID ≠ 0xFFFFFFFF && (strstr "ANYBODY".toList accessList).isNone &&
      request.writeID ≠ accessListToAccessControlBitMask accessList

-- `sprintf_s` cuts a name that does not fit the 256 bytes of `fullName`.
def userChangedKey (name : Text) : Text := ("UserChanged.".toList ++ name).take 255

def loadMonitor (db : Database V O B) : Database V O B :=
  if db.bMonitorParamLoaded then db
  else { db with
    bMonitorParamLoaded := true
    bGlobalMonitor := model.monitorEnabled
    uMonitorComponents := model.userOpComponents }

def loadUserChanged (db : Database V O B) (v : V) (name : Text) : Database V O B :=
  if (db.records v).bUserChangeFlagLoaded then db
  else db.setRecord v { db.records v with
    bUserChanged := db.psmUserChanged (userChangedKey name)
    bUserChangeFlagLoaded := true }

def checkUserChangedFlag (db : Database V O B) (v : V) (name : Text) (value : SlapVariable) :
    Bool × Database V O B :=
  let db := loadMonitor model db
  if db.bGlobalMonitor then
    let db := loadUserChanged db v name
    let fromUser := request.writeID &&& db.uMonitorComponents ≠ 0
    if (db.records v).bUserChanged then (fromUser, db)
    else if fromUser && getValue model db v ≠ some value then
      (true, { db.setRecord v { db.records v with bUserChanged := true } with
        psmUserChanged := Function.update db.psmUserChanged (userChangedKey name) true })
    else (true, db)
  else (true, db)

inductive Signal
  | proceed | valueMissing | tooLong
  deriving DecidableEq, Repr

def orNull (text : Text) : Text := if text = [] then "NULL".toList else text

-- A value of another kind leaves the text that stands in `oldValue`.
def parseOldVal (pOldValue : Option SlapVariable) (oldValue : Option Text) : Option Text :=
  match pOldValue with
  | none => none
  | some .varOther => oldValue
  | some value => model.signalText value

/-- The text of the signal must fit 500 bytes, and a missing value leaves the whole request. That a request makes
more than the 50 signals of `str1` is not modelled, nor that one text is released twice. -/
def notifySignal (v : V) (name : Text) (value : SlapVariable) (old : Option SlapVariable) : Signal :=
  if model.useNotifyComponent && (model.entity v).notifyStatus ≠ 3 && model.notification v then
    let newValue := parseOldVal model (some value) none
    match newValue, parseOldVal model old newValue with
    | some newText, some oldText =>
      let signal := name ++ ',' :: decimal request.writeID ++ ',' :: orNull newText ++
        ',' :: orNull oldText ++ ',' :: decimal (model.entity v).dataType.code
      if newText ≠ oldText ∧ 500 ≤ signal.length then .tooLong else .proceed
    | _, _ => .valueMissing
  else .proceed

structure Round (V O B : Type) where
  db : Database V O B
  returnStatus : Status
  ulParameterCount : Nat
  ulObjectCount : Nat
  accepted : List (V × SlapVariable)

inductive Outcome
  | next
  | fault (fault : Fault)
  | leave
  deriving DecidableEq, Repr

def track (round : Round V O B) (db : Database V O B) (returnStatus : Status) (v : V)
    (value : SlapVariable) : Round V O B :=
  let db := db.ensureObjVarArray
  let vars := Database.addVarRecordIntoArray (db.hVarRecordArray.getD []) v
  let objs := Database.addObjRecordIntoArray (db.hObjRecordArray.getD []) (model.objRecord v)
  { db := { db with hVarRecordArray := some vars, hObjRecordArray := some objs }
    returnStatus := returnStatus
    ulParameterCount := vars.length
    ulObjectCount := objs.length
    accepted := round.accepted ++ [(v, value)] }

def admitEntry (round : Round V O B) (v : V) (name : Text) (value : SlapVariable) : Outcome × Round V O B :=
  let denied : Outcome := .fault ⟨.notWritable, some name⟩
  if accessDenied model request v then (denied, round)
  else
    let sender := round.db.setRecord v { round.db.records v with reqSenderID := request.writeID }
    let (allowed, checked) :=
      if (model.entity v).bMonitor then checkUserChangedFlag model request sender v name value
      else (true, sender)
    if !allowed then (denied, { round with db := checked })
    else
      let returnStatus := if (model.entity v).bMonitor then .ccspSuccess else round.returnStatus
      let saved := checked.setRecord v { checked.records v with oldParamValue := getValue model checked v }
      match notifySignal model request v name value (saved.records v).oldParamValue with
      | .proceed => (.next, track model round saved returnStatus v value)
      | .valueMissing => (.leave, { round with db := saved, returnStatus := returnStatus })
      | .tooLong => (.fault ⟨.invalidParameterValue, some name⟩, { round with db := saved })

def setEntry (round : Round V O B) (entry : ParamValue) : Outcome × Round V O B :=
  match screen model request round.db.backend entry with
  | .error fault => (.fault fault, round)
  | .ok (v, name, value) =>
    match tstValue model (round.db.records v) v value with
    | none => (.fault ⟨.invalidParameterValue, some name⟩, round)
    | some stored => admitEntry model request { round with db := round.db.setRecord v stored } v name value

def setEntries : List ParamValue → Round V O B → Outcome × Round V O B
  | [], round => (.next, round)
  | entry :: rest, round =>
    match setEntry model request round entry with
    | (.next, later) => setEntries rest later
    | stopped => stopped

end Entry

section Objects

variable (model : DataModel V O B)

def collected (db : Database V O B) (v : V) : Bool :=
  !(model.entity v).bPersistent && (model.entity v).bWritable && (db.records v).isParamUpdated

def deliver (db : Database V O B) (v : V) (value : SlapVariable) : Database V O B :=
  db.log (.deliver v value)

def collectBulk (db : Database V O B) (vars : List V) : List (V × SlapVariable) :=
  (vars.filter (collected model db)).filterMap fun v =>
    ((db.records v).getParamValue).map fun value => (v, value)

def settable : SlapSyntax → Bool
  | .bool | .int | .uint32 | .ucharArray | .string => true
  | .other | .uint32Array | .handle => false

def setEntrySingle (db : Database V O B) (v : V) : Database V O B × Bool :=
  match (db.records v).getParamValue with
  | some value =>
    if settable (model.entity v).slapSyntax then
      let (backend, done) := model.setEntryParam db.backend v value
      let told := deliver { db with backend := backend } v value
      if done then (told.setRecord v { told.records v with bAlreadySet := true }, true)
      else (told, false)
    else (db.setRecord v { db.records v with bAlreadySet := true }, true)
  | none => (db, true)

def setEntrySingles : List V → Database V O B → Database V O B × Option Text
  | [], db => (db, none)
  | v :: rest, db =>
    if collected model db v then
      match setEntrySingle model db v with
      | (told, true) => setEntrySingles rest told
      | (told, false) => (told, some (model.entity v).name)
    else setEntrySingles rest db

inductive Verdict
  | passed
  | failed (name : Option Text)
  deriving DecidableEq, Repr

def runValidateMethod (db : Database V O B) (o : O) : Database V O B × Verdict :=
  match model.validateMethod db.backend o with
  | (backend, none) => ({ db with backend := backend }, .passed)
  | (backend, some name) => ({ db with backend := backend }, .failed (some (model.fullName o ++ name)))

def verifyChanges (db : Database V O B) (o : O) : Database V O B × Verdict :=
  let db := db.log (.verify o)
  match model.setInterface o with
  | .absent => (db, .passed)
  | .bulk =>
    match collectBulk model db (model.vareoTable o) with
    -- a bulk setter that has nothing to set counts as a failure
    | [] => (db, .failed none)
    | values =>
      let told := values.foldl (fun db value => deliver db value.1 value.2) db
      match model.setEntryBulk db.backend o values with
      | (backend, some index) => ({ told with backend := backend }, .failed
          ((values[index]?).map fun value => model.fullName o ++ (model.entity value.1).name))
      | (backend, none) => runValidateMethod model { told with backend := backend } o
  | .single =>
    match setEntrySingles model (model.vareoTable o) db with
    | (told, some name) => (told, .failed (some (model.fullName o ++ name)))
    | (told, none) => runValidateMethod model told o

def verifyAll : List O → Database V O B → Database V O B × Verdict
  | [], db => (db, .passed)
  | o :: rest, db =>
    match verifyChanges model db o with
    | (verified, .passed) => verifyAll rest verified
    | failed => failed

def setCommit (db : Database V O B) (sessionId : Int) (bCommit : Bool) : Status × Database V O B :=
  if db.sessionID ≠ sessionId then (.failure, db)
  else match db.hVarRecordArray, db.hObjRecordArray with
    | some vars, some objs =>
      if bCommit then
        (.success, (vars.foldl Database.commitChange
          (objs.foldl (Database.commitChanges model) db)).resetObjVarArray)
      else
        (.success, (objs.foldl (Database.cancelChanges model)
          (vars.foldl Database.cancelChange db)).resetObjVarArray)
    | _, _ => (if bCommit then .failure else .success, db.resetObjVarArray)

def rollback (request : Request) (round : Round V O B) (db : Database V O B) : Database V O B :=
  let vars := (db.hVarRecordArray.getD []).take round.ulParameterCount
  let objs := (db.hObjRecordArray.getD []).take round.ulObjectCount
  let cancelled := vars.foldl Database.cancelChange db
  let undone := if request.fromSnmp then cancelled
    else objs.foldl (Database.cancelChanges model) cancelled
  undone.resetObjVarArray

def startRound (db : Database V O B) (request : Request) : Round V O B where
  db := { db with sessionID := request.sessionId }
  returnStatus := .success
  ulParameterCount := 0
  ulObjectCount := 0
  accepted := []

structure SetResult (V O B : Type) where
  status : Status
  invalidParameterName : Option Text
  db : Database V O B
  accepted : List (V × SlapVariable)

def setParameterValues (db : Database V O B) (request : Request) : SetResult V O B :=
  if request.paramValues = [] then ⟨.success, none, db, []⟩
  else
    match setEntries model request request.paramValues (startRound db request) with
    | (.fault fault, round) =>
      ⟨fault.status, fault.invalidParameterName, rollback model request round round.db, round.accepted⟩
    | (.leave, round) => ⟨round.returnStatus, none, round.db, round.accepted⟩
    | (.next, round) =>
      match verifyAll model ((round.db.hObjRecordArray.getD []).take round.ulObjectCount) round.db with
      | (verified, .failed name) =>
        ⟨.invalidParameterValue, name, rollback model request round verified, round.accepted⟩
      | (verified, .passed) =>
        if request.bCommit then
          -- the status of the commit is not looked at
          ⟨.success, none, (setCommit model verified request.sessionId true).2.resetObjVarArray,
            round.accepted⟩
        else ⟨.success, none, verified, round.accepted⟩

end Objects

end CcspCommon.DslhWmpDatabase
