import CcspCommon.DslhWmpDatabase.Database

set_option autoImplicit false

namespace CcspCommon.DslhWmpDatabase

open CcspCommon.Shared CcspCommon.DslhVarRecord

variable {V O B : Type} [DecidableEq V] [DecidableEq O]

def values (record : VarRecord) : Option SlapVariable × Option SlapVariable × Option SlapVariable :=
  (record.tempParamValue, record.tempParamValueTrans, record.oldParamValue)

def noValues : Option SlapVariable × Option SlapVariable × Option SlapVariable := (none, none, none)

@[simp] theorem values_dropChange (record : VarRecord) : values record.dropChange = noValues := rfl

@[simp] theorem temp_dropChange (record : VarRecord) : record.dropChange.tempParamValue = none := rfl

namespace Database

def vars (db : Database V O B) : List V := db.hVarRecordArray.getD []

def objs (db : Database V O B) : List O := db.hObjRecordArray.getD []

omit [DecidableEq O] in
@[simp] theorem setRecord_self (db : Database V O B) (v : V) (record : VarRecord) :
    (db.setRecord v record).records v = record := by
  simp [setRecord]

omit [DecidableEq O] in
theorem setRecord_other (db : Database V O B) {v other : V} (record : VarRecord) (different : other ≠ v) :
    (db.setRecord v record).records other = db.records other := by
  simp [setRecord, Function.update, different]

/-- Only flags of the records, the monitor settings and their persistent copy may differ. -/
structure Quiet (before after : Database V O B) : Prop where
  values : ∀ v, values (after.records v) = values (before.records v)
  alreadySet : ∀ v, (after.records v).bAlreadySet = (before.records v).bAlreadySet
  vars : after.hVarRecordArray = before.hVarRecordArray
  objs : after.hObjRecordArray = before.hObjRecordArray
  sessionID : after.sessionID = before.sessionID
  backend : after.backend = before.backend
  trace : after.trace = before.trace

omit [DecidableEq V] [DecidableEq O] in
theorem Quiet.refl (db : Database V O B) : Quiet db db :=
  ⟨fun _ => rfl, fun _ => rfl, rfl, rfl, rfl, rfl, rfl⟩

omit [DecidableEq V] [DecidableEq O] in
theorem Quiet.trans {first second third : Database V O B} (left : Quiet first second)
    (right : Quiet second third) : Quiet first third where
  values v := (right.values v).trans (left.values v)
  alreadySet v := (right.alreadySet v).trans (left.alreadySet v)
  vars := right.vars.trans left.vars
  objs := right.objs.trans left.objs
  sessionID := right.sessionID.trans left.sessionID
  backend := right.backend.trans left.backend
  trace := right.trace.trans left.trace

omit [DecidableEq O] in
theorem setRecord_quiet (db : Database V O B) (v : V) (record : VarRecord)
    (same : DslhWmpDatabase.values record = DslhWmpDatabase.values (db.records v))
    (flag : record.bAlreadySet = (db.records v).bAlreadySet) : Quiet db (db.setRecord v record) where
  values other := by
    by_cases equal : other = v
    · rw [equal, setRecord_self, same]
    · rw [setRecord_other db record equal]
  alreadySet other := by
    by_cases equal : other = v
    · rw [equal, setRecord_self, flag]
    · rw [setRecord_other db record equal]
  vars := rfl
  objs := rfl
  sessionID := rfl
  backend := rfl
  trace := rfl

end Database

open Database

section Checks

variable (model : DataModel V O B) (request : Request)

omit [DecidableEq V] [DecidableEq O] in
theorem loadMonitor_quiet (db : Database V O B) : Quiet db (loadMonitor model db) := by
  unfold loadMonitor
  split_ifs
  · exact Quiet.refl db
  · exact ⟨fun _ => rfl, fun _ => rfl, rfl, rfl, rfl, rfl, rfl⟩

omit [DecidableEq O] in
theorem loadUserChanged_quiet (db : Database V O B) (v : V) (name : Text) :
    Quiet db (loadUserChanged db v name) := by
  unfold loadUserChanged
  split_ifs
  · exact Quiet.refl db
  · exact setRecord_quiet db v _ rfl rfl

omit [DecidableEq O] in
theorem checkUserChangedFlag_quiet (db : Database V O B) (v : V) (name : Text) (value : SlapVariable) :
    Quiet db (checkUserChangedFlag model request db v name value).2 := by
  have loaded := loadMonitor_quiet model db
  have flagged := loaded.trans (loadUserChanged_quiet (loadMonitor model db) v name)
  simp only [checkUserChangedFlag]
  split_ifs
  · exact flagged
  · have marked := flagged.trans (setRecord_quiet (loadUserChanged (loadMonitor model db) v name) v
      { (loadUserChanged (loadMonitor model db) v name).records v with bUserChanged := true } rfl rfl)
    exact ⟨marked.values, marked.alreadySet, marked.vars, marked.objs, marked.sessionID,
      marked.backend, marked.trace⟩
  · exact flagged
  · exact loaded

omit [DecidableEq V] [DecidableEq O] in
theorem getValue_quiet {before after : Database V O B} (quiet : Quiet before after) (v : V) :
    getValue model after v = getValue model before v := by
  have pending : (after.records v).tempParamValue = (before.records v).tempParamValue :=
    congrArg Prod.fst (quiet.values v)
  unfold getValue VarRecord.getValue
  rw [pending, quiet.backend]

def savedOld (db checked : Database V O B) (v : V) : Database V O B :=
  checked.setRecord v { checked.records v with oldParamValue := getValue model db v }

inductive Admitted (round : Round V O B) (v : V) (name : Text) (value : SlapVariable) :
    Outcome × Round V O B → Prop
  | denied (checked : Database V O B) : Quiet round.db checked →
      Admitted round v name value (.fault ⟨.notWritable, some name⟩, { round with db := checked })
  | left (checked : Database V O B) (status : Status) : Quiet round.db checked →
      (round.returnStatus.isSuccess → status.isSuccess) →
      Admitted round v name value
        (.leave, { round with db := savedOld model round.db checked v, returnStatus := status })
  | refused (checked : Database V O B) : Quiet round.db checked → getValue model round.db v ≠ none →
      Admitted round v name value (.fault ⟨.invalidParameterValue, some name⟩,
        { round with db := savedOld model round.db checked v })
  | tracked (checked : Database V O B) (status : Status) : Quiet round.db checked →
      accessDenied model request v = false → (round.returnStatus.isSuccess → status.isSuccess) →
      Admitted round v name value
        (.next, track model round (savedOld model round.db checked v) status v value)

omit [DecidableEq V] [DecidableEq O] in
theorem notifySignal_tooLong {v : V} {name : Text} {value : SlapVariable} {old : Option SlapVariable}
    (long : notifySignal model request v name value old = .tooLong) : old ≠ none := by
  rintro rfl
  unfold notifySignal at long
  split_ifs at long
  simp [parseOldVal] at long

theorem admitEntry_checked (round : Round V O B) (v : V) (name : Text) (value : SlapVariable) :
    ∃ checked, Quiet round.db checked ∧
      (admitEntry model request round v name value =
          (.fault ⟨.notWritable, some name⟩, { round with db := checked }) ∨
        accessDenied model request v = false ∧ admitEntry model request round v name value =
          let status := if (model.entity v).bMonitor then Status.ccspSuccess else round.returnStatus
          let saved := savedOld model round.db checked v
          match notifySignal model request v name value (getValue model round.db v) with
          | .proceed => (.next, track model round saved status v value)
          | .valueMissing => (.leave, { round with db := saved, returnStatus := status })
          | .tooLong => (.fault ⟨.invalidParameterValue, some name⟩, { round with db := saved })) := by
  unfold admitEntry
  by_cases access : accessDenied model request v = true
  · simp only [access, if_true]
    exact ⟨round.db, Quiet.refl round.db, .inl rfl⟩
  simp only [access, Bool.false_eq_true, if_false]
  generalize sent : round.db.setRecord v { round.db.records v with reqSenderID := request.writeID } = sender
  have quietSender : Quiet round.db sender := sent ▸ setRecord_quiet round.db v _ rfl rfl
  generalize checkRun : (if (model.entity v).bMonitor then
    checkUserChangedFlag model request sender v name value else (true, sender)) = check
  have quiet : Quiet round.db check.2 := by
    rw [← checkRun]
    split_ifs
    · exact quietSender.trans (checkUserChangedFlag_quiet model request sender v name value)
    · exact quietSender
  have old : getValue model check.2 v = getValue model round.db v := getValue_quiet model quiet v
  obtain ⟨allowed, checked⟩ := check
  refine ⟨checked, quiet, ?_⟩
  cases allowed with
  | false => exact .inl rfl
  | true =>
    simp only [Bool.not_true, Bool.false_eq_true, if_false, setRecord_self, old]
    exact .inr ⟨by simp, rfl⟩

theorem admitEntry_cases (round : Round V O B) (v : V) (name : Text) (value : SlapVariable) :
    Admitted model request round v name value (admitEntry model request round v name value) := by
  obtain ⟨checked, quiet, denied | ⟨access, admitted⟩⟩ := admitEntry_checked model request round v name value
  · rw [denied]
    exact .denied checked quiet
  have status : round.returnStatus.isSuccess →
      (if (model.entity v).bMonitor then Status.ccspSuccess else round.returnStatus).isSuccess := by
    intro before
    split_ifs
    · rfl
    · exact before
  rw [admitted]
  cases signal : notifySignal model request v name value (getValue model round.db v) with
  | proceed => exact .tracked checked _ quiet access status
  | valueMissing => exact .left checked _ quiet status
  | tooLong => exact .refused checked quiet (notifySignal_tooLong model request signal)

structure Stored (record stored : VarRecord) (v : V) (value : SlapVariable) : Prop where
  temp : stored.tempParamValue =
    if (model.entity v).bPersistent || model.bGroupCommit (model.objRecord v) then some value
    else record.tempParamValue
  trans : ∃ translated, (model.entity v).translate model.converters value = some translated ∧
    stored.tempParamValueTrans = translated.orElse fun _ => record.tempParamValueTrans
  old : stored.oldParamValue = record.oldParamValue
  alreadySet : stored.bAlreadySet = record.bAlreadySet
  controller : model.hasController (model.objRecord v) = true

omit [DecidableEq V] [DecidableEq O] in
theorem tstValue_stored {record stored : VarRecord} {v : V} {value : SlapVariable}
    (passed : tstValue model record v value = some stored) : Stored model record stored v value := by
  unfold tstValue VarRecord.tstValue at passed
  split at passed
  next accepts =>
    obtain ⟨translated, known, rfl⟩ := Option.map_eq_some_iff.mp passed
    exact ⟨rfl, ⟨translated, known, rfl⟩, rfl, rfl, (Bool.and_eq_true_iff.mp accepts).2⟩
  next => cases passed

def savedValue (backend : B) (v : V) (value : SlapVariable) : Option SlapVariable :=
  if (model.entity v).bPersistent then
    if model.bGroupCommit (model.objRecord v) then some value
    else some (VarRecord.defaultValue (model.entity v).slapSyntax)
  else model.getParamValueByName backend v

omit [DecidableEq O] in
theorem getValue_stored {db : Database V O B} {stored : VarRecord} {v : V} {value : SlapVariable}
    (passed : Stored model (db.records v) stored v value) :
    getValue model (db.setRecord v stored) v = savedValue model db.backend v value := by
  have controller : (db.setRecord v stored).backend = db.backend := rfl
  unfold getValue VarRecord.getValue savedValue
  rw [setRecord_self, passed.temp, passed.controller, controller]
  cases (model.entity v).bPersistent <;> cases model.bGroupCommit (model.objRecord v) <;> simp
  all_goals split <;> rfl

def stores (round : Round V O B) (entry : ParamValue) : Option (V × SlapVariable) :=
  match screen model request round.db.backend entry with
  | .error _ => none
  | .ok (v, _, value) =>
    if (tstValue model (round.db.records v) v value).isSome then some (v, value) else none

structure Touched (before after : Database V O B) (v : V) (value : SlapVariable)
    (old : Option SlapVariable) : Prop where
  others : ∀ other, other ≠ v → values (after.records other) = values (before.records other)
  temp : (after.records v).tempParamValue =
    if (model.entity v).bPersistent || model.bGroupCommit (model.objRecord v) then some value
    else (before.records v).tempParamValue
  trans : ∃ translated, (model.entity v).translate model.converters value = some translated ∧
    (after.records v).tempParamValueTrans =
      translated.orElse fun _ => (before.records v).tempParamValueTrans
  old : (after.records v).oldParamValue = old
  vars : after.hVarRecordArray = before.hVarRecordArray
  objs : after.hObjRecordArray = before.hObjRecordArray
  sessionID : after.sessionID = before.sessionID
  backend : after.backend = before.backend
  trace : after.trace = before.trace

omit [DecidableEq O] in
theorem stored_touched {db checked : Database V O B} {stored : VarRecord} {v : V} {value : SlapVariable}
    (passed : Stored model (db.records v) stored v value) (quiet : Quiet (db.setRecord v stored) checked) :
    Touched model db checked v value (db.records v).oldParamValue := by
  have same := quiet.values v
  simp only [setRecord_self, values, Prod.mk.injEq] at same
  obtain ⟨temp, trans, old⟩ := same
  exact {
    others := fun other different => by rw [quiet.values other, setRecord_other db stored different]
    temp := temp.trans passed.temp
    trans := by
      obtain ⟨translated, known, result⟩ := passed.trans
      exact ⟨translated, known, trans.trans result⟩
    old := old.trans passed.old
    vars := quiet.vars
    objs := quiet.objs
    sessionID := quiet.sessionID
    backend := quiet.backend
    trace := quiet.trace }

omit [DecidableEq O] in
theorem savedOld_touched {db checked : Database V O B} {stored : VarRecord} {v : V} {value : SlapVariable}
    (passed : Stored model (db.records v) stored v value) (quiet : Quiet (db.setRecord v stored) checked) :
    Touched model db (savedOld model (db.setRecord v stored) checked v) v value
      (savedValue model db.backend v value) := by
  have touched := stored_touched model passed quiet
  exact {
    others := fun other different => by
      rw [savedOld, setRecord_other checked _ different, touched.others other different]
    temp := by simpa [savedOld] using touched.temp
    trans := by simpa [savedOld] using touched.trans
    old := by simpa [savedOld] using getValue_stored model passed
    vars := touched.vars
    objs := touched.objs
    sessionID := touched.sessionID
    backend := touched.backend
    trace := touched.trace }

inductive Stepped (round : Round V O B) (entry : ParamValue) : Outcome × Round V O B → Prop
  | rejected (fault : Fault) : stores model request round entry = none →
      fault.status.isSuccess = false → Stepped round entry (.fault fault, round)
  | denied (v : V) (name : Text) (value : SlapVariable) (db : Database V O B) :
      stores model request round entry = some (v, value) →
      Touched model round.db db v value (round.db.records v).oldParamValue →
      Stepped round entry (.fault ⟨.notWritable, some name⟩, { round with db := db })
  | refused (v : V) (name : Text) (value : SlapVariable) (db : Database V O B) :
      stores model request round entry = some (v, value) →
      Touched model round.db db v value (savedValue model round.db.backend v value) →
      savedValue model round.db.backend v value ≠ none →
      Stepped round entry (.fault ⟨.invalidParameterValue, some name⟩, { round with db := db })
  | left (v : V) (value : SlapVariable) (db : Database V O B) (status : Status) :
      stores model request round entry = some (v, value) →
      Touched model round.db db v value (savedValue model round.db.backend v value) →
      (round.returnStatus.isSuccess → status.isSuccess) →
      Stepped round entry (.leave, { round with db := db, returnStatus := status })
  | tracked (v : V) (value : SlapVariable) (db : Database V O B) (status : Status) :
      stores model request round entry = some (v, value) →
      Touched model round.db db v value (savedValue model round.db.backend v value) →
      accessDenied model request v = false →
      (round.returnStatus.isSuccess → status.isSuccess) →
      Stepped round entry (.next, track model round db status v value)

omit [DecidableEq V] [DecidableEq O] in
theorem screen_fault {backend : B} {entry : ParamValue} {fault : Fault}
    (rejected : screen model request backend entry = .error fault) : fault.status.isSuccess = false := by
  unfold screen at rejected
  split at rejected
  · cases rejected
    rfl
  · cases rejected
    rfl
  · split at rejected
    · cases rejected
      rfl
    · split_ifs at rejected <;> cases rejected <;> rfl

theorem setEntry_cases (round : Round V O B) (entry : ParamValue) :
    Stepped model request round entry (setEntry model request round entry) := by
  unfold setEntry
  cases screened : screen model request round.db.backend entry with
  | error fault => exact .rejected fault (by simp [stores, screened]) (screen_fault model request screened)
  | ok checked =>
    obtain ⟨v, name, value⟩ := checked
    cases passed : tstValue model (round.db.records v) v value with
    | none => simpa [passed] using Stepped.rejected _ (by simp [stores, screened, passed]) rfl
    | some stored =>
      have stays : stores model request round entry = some (v, value) := by
        simp [stores, screened, passed]
      have kept := tstValue_stored model passed
      have old := getValue_stored model kept
      have ended := admitEntry_cases model request { round with db := round.db.setRecord v stored } v name value
      simp only [passed]
      generalize admitEntry model request { round with db := round.db.setRecord v stored } v name value =
        result at ended ⊢
      cases ended with
      | denied checked quiet => exact .denied v name value checked stays (stored_touched model kept quiet)
      | left checked status quiet success =>
        exact .left v value _ status stays (savedOld_touched model kept quiet) success
      | refused checked quiet known =>
        exact .refused v name value _ stays (savedOld_touched model kept quiet) (old ▸ known)
      | tracked checked status quiet access success =>
        exact .tracked v value _ status stays (savedOld_touched model kept quiet) access success

def EveryEntry (meets : Round V O B → ParamValue → Prop) : List ParamValue → Round V O B → Prop
  | [], _ => True
  | entry :: rest, round => meets round entry ∧ ((setEntry model request round entry).1 = .next →
      EveryEntry meets rest (setEntry model request round entry).2)

theorem setEntries_run (after : Outcome × Round V O B → Prop) {meets : Round V O B → ParamValue → Prop}
    (step : ∀ round entry, after (.next, round) → meets round entry →
      after (setEntry model request round entry))
    (entries : List ParamValue) {round : Round V O B} (initial : after (.next, round))
    (all : EveryEntry model request meets entries round) :
    after (setEntries model request entries round) := by
  induction entries generalizing round with
  | nil => exact initial
  | cons entry rest ih =>
    obtain ⟨met, later⟩ := all
    have once := step round entry initial met
    simp only [setEntries]
    split
    next passed run =>
      rw [run] at once later
      exact ih once (later rfl)
    next => exact once

theorem setEntries_keeps (after : Outcome × Round V O B → Prop)
    (step : ∀ round entry, after (.next, round) → after (setEntry model request round entry))
    (entries : List ParamValue) {round : Round V O B} (initial : after (.next, round)) :
    after (setEntries model request entries round) := by
  have every : ∀ round, EveryEntry model request (fun _ _ => True) entries round := by
    induction entries with
    | nil => exact fun _ => trivial
    | cons entry rest ih => exact fun _ => ⟨trivial, fun _ => ih _⟩
  exact setEntries_run model request after (fun round entry holds _ => step round entry holds) entries
    initial (every round)

end Checks

section Traces

def Adds (meets : Event V O → Prop) (before after : Database V O B) : Prop :=
  ∃ added, after.trace = before.trace ++ added ∧ ∀ event ∈ added, meets event

omit [DecidableEq V] [DecidableEq O] in
theorem Adds.refl (meets : Event V O → Prop) (db : Database V O B) : Adds meets db db :=
  ⟨[], by simp, by simp⟩

omit [DecidableEq V] [DecidableEq O] in
theorem Adds.trans {meets : Event V O → Prop} {first second third : Database V O B}
    (left : Adds meets first second) (right : Adds meets second third) : Adds meets first third := by
  obtain ⟨earlier, isEarlier, all⟩ := left
  obtain ⟨later, isLater, rest⟩ := right
  refine ⟨earlier ++ later, by rw [isLater, isEarlier, List.append_assoc], fun event member => ?_⟩
  rcases List.mem_append.mp member with old | new
  · exact all event old
  · exact rest event new

omit [DecidableEq V] [DecidableEq O] in
theorem Adds.mono {meets weaker : Event V O → Prop} {before after : Database V O B}
    (adds : Adds meets before after) (weaken : ∀ event, meets event → weaker event) :
    Adds weaker before after := by
  obtain ⟨added, isAdded, all⟩ := adds
  exact ⟨added, isAdded, fun event member => weaken event (all event member)⟩

omit [DecidableEq V] [DecidableEq O] in
theorem log_adds {meets : Event V O → Prop} (db : Database V O B) {event : Event V O}
    (met : meets event) : Adds meets db (db.log event) :=
  ⟨[event], rfl, by simpa using met⟩

omit [DecidableEq V] [DecidableEq O] in
theorem foldl_adds {A : Type} {meets : Event V O → Prop} (step : Database V O B → A → Database V O B)
    (list : List A) (adds : ∀ db, ∀ item ∈ list, Adds meets db (step db item)) (db : Database V O B) :
    Adds meets db (list.foldl step db) := by
  induction list generalizing db with
  | nil => exact Adds.refl meets db
  | cons item rest ih =>
    have once := adds db item List.mem_cons_self
    exact once.trans (ih (fun db other member => adds db other (List.mem_cons_of_mem item member)) _)

def NotDelivery (event : Event V O) : Prop := ∀ v value, event ≠ .deliver v value

end Traces

section Verification

def Collected (db : Database V O B) (v : V) (value : SlapVariable) : Prop :=
  (db.records v).tempParamValue ≠ none ∧ (db.records v).getParamValue = some value

def DeliversFrom (db : Database V O B) (event : Event V O) : Prop :=
  ∀ v value, event = .deliver v value → Collected db v value

structure Verified (before after : Database V O B) : Prop where
  values : ∀ v, values (after.records v) = values (before.records v)
  vars : after.hVarRecordArray = before.hVarRecordArray
  objs : after.hObjRecordArray = before.hObjRecordArray
  sessionID : after.sessionID = before.sessionID
  delivers : Adds (DeliversFrom before) before after

omit [DecidableEq V] [DecidableEq O] in
theorem Verified.refl (db : Database V O B) : Verified db db :=
  ⟨fun _ => rfl, rfl, rfl, rfl, Adds.refl _ db⟩

omit [DecidableEq V] [DecidableEq O] in
theorem collected_of_values {before after : Database V O B} {v : V} {value : SlapVariable}
    (same : DslhWmpDatabase.values (after.records v) = DslhWmpDatabase.values (before.records v))
    (collected : Collected after v value) : Collected before v value := by
  simp only [values, Prod.mk.injEq] at same
  obtain ⟨temp, trans, -⟩ := same
  simpa only [Collected, VarRecord.getParamValue, temp, trans] using collected

omit [DecidableEq V] [DecidableEq O] in
theorem Verified.trans {first second third : Database V O B} (left : Verified first second)
    (right : Verified second third) : Verified first third where
  values v := (right.values v).trans (left.values v)
  vars := right.vars.trans left.vars
  objs := right.objs.trans left.objs
  sessionID := right.sessionID.trans left.sessionID
  delivers := left.delivers.trans (right.delivers.mono fun _ source v value isDelivery =>
    collected_of_values (left.values v) (source v value isDelivery))

omit [DecidableEq V] [DecidableEq O] in
theorem verified_of_adds {before after : Database V O B} (records : after.records = before.records)
    (vars : after.hVarRecordArray = before.hVarRecordArray)
    (objs : after.hObjRecordArray = before.hObjRecordArray) (session : after.sessionID = before.sessionID)
    (adds : Adds (DeliversFrom before) before after) : Verified before after :=
  ⟨fun _ => by rw [records], vars, objs, session, adds⟩

omit [DecidableEq O] in
theorem setAlreadySet_verified (db : Database V O B) (v : V) :
    Verified db (db.setRecord v { db.records v with bAlreadySet := true }) where
  values other := by
    by_cases equal : other = v
    · rw [equal, setRecord_self]
      rfl
    · rw [setRecord_other db _ equal]
  vars := rfl
  objs := rfl
  sessionID := rfl
  delivers := Adds.refl _ db

omit [DecidableEq V] [DecidableEq O] in
theorem deliver_verified {db : Database V O B} {v : V} {value : SlapVariable} (held : Collected db v value)
    (backend : B) : Verified db (deliver { db with backend := backend } v value) := by
  refine verified_of_adds rfl rfl rfl rfl (log_adds db ?_)
  intro other given isDelivery
  obtain ⟨rfl, rfl⟩ := Event.deliver.inj isDelivery
  exact held

omit [DecidableEq V] [DecidableEq O] in
theorem backend_verified (db : Database V O B) (backend : B) : Verified db { db with backend := backend } :=
  verified_of_adds rfl rfl rfl rfl (Adds.refl _ db)

variable (model : DataModel V O B)

omit [DecidableEq O] in
theorem setEntrySingle_verified (db : Database V O B) (v : V)
    (pending : (db.records v).tempParamValue ≠ none) : Verified db (setEntrySingle model db v).1 := by
  unfold setEntrySingle
  split
  next value known =>
    have told := deliver_verified ⟨pending, known⟩ (model.setEntryParam db.backend v value).1
    split_ifs
    · dsimp only
      split_ifs
      · exact told.trans (setAlreadySet_verified _ v)
      · exact told
    · exact setAlreadySet_verified db v
  next => exact Verified.refl db

omit [DecidableEq V] [DecidableEq O] in
theorem pending_of_collected {db : Database V O B} {v : V} (chosen : collected model db v = true) :
    (db.records v).tempParamValue ≠ none := by
  simp only [collected, VarRecord.isParamUpdated, Bool.and_eq_true] at chosen
  exact Option.isSome_iff_ne_none.mp chosen.2.1

omit [DecidableEq O] in
theorem setEntrySingles_verified (list : List V) (db : Database V O B) :
    Verified db (setEntrySingles model list db).1 := by
  induction list generalizing db with
  | nil => exact Verified.refl db
  | cons v rest ih =>
    unfold setEntrySingles
    split_ifs with chosen
    · have one := setEntrySingle_verified model db v (pending_of_collected model chosen)
      split
      next told step =>
        rw [step] at one
        exact one.trans (ih told)
      next told step =>
        rw [step] at one
        exact one
    · exact ih db

omit [DecidableEq V] [DecidableEq O] in
theorem deliverAll_verified (list : List (V × SlapVariable)) (db : Database V O B)
    (held : ∀ item ∈ list, Collected db item.1 item.2) :
    Verified db (list.foldl (fun db value => deliver db value.1 value.2) db) := by
  induction list generalizing db with
  | nil => exact Verified.refl db
  | cons item rest ih =>
    have one := deliver_verified (held item List.mem_cons_self) db.backend
    exact one.trans (ih _ fun other member => held other (List.mem_cons_of_mem item member))

omit [DecidableEq V] [DecidableEq O] in
theorem collectBulk_collected (db : Database V O B) (list : List V) :
    ∀ item ∈ collectBulk model db list, Collected db item.1 item.2 := by
  intro item member
  obtain ⟨v, chosen, found⟩ := List.mem_filterMap.mp member
  obtain ⟨value, known, rfl⟩ := Option.map_eq_some_iff.mp found
  exact ⟨pending_of_collected model (List.mem_filter.mp chosen).2, known⟩

omit [DecidableEq V] [DecidableEq O] in
theorem runValidateMethod_verified (db : Database V O B) (o : O) :
    Verified db (runValidateMethod model db o).1 := by
  unfold runValidateMethod
  split <;> exact backend_verified db _

omit [DecidableEq O] in
theorem verifyChanges_verified (db : Database V O B) (o : O) :
    Verified db (verifyChanges model db o).1 := by
  have logged : Verified db (db.log (.verify o)) :=
    verified_of_adds rfl rfl rfl rfl (log_adds db fun _ _ isDelivery => nomatch isDelivery)
  simp only [verifyChanges]
  split
  · exact logged
  · have told := logged.trans (deliverAll_verified
      (collectBulk model (db.log (.verify o)) (model.vareoTable o)) (db.log (.verify o))
      (collectBulk_collected model _ _))
    split
    · exact logged
    · split
      next backend index run => exact told.trans (backend_verified _ backend)
      next backend run =>
        exact (told.trans (backend_verified _ backend)).trans (runValidateMethod_verified model _ o)
  · have singles := logged.trans
      (setEntrySingles_verified model (model.vareoTable o) (db.log (.verify o)))
    split
    next told name run =>
      rw [run] at singles
      exact singles
    next told run =>
      rw [run] at singles
      exact singles.trans (runValidateMethod_verified model told o)

omit [DecidableEq O] in
theorem verifyAll_verified (list : List O) (db : Database V O B) :
    Verified db (verifyAll model list db).1 := by
  induction list generalizing db with
  | nil => exact Verified.refl db
  | cons o rest ih =>
    have one := verifyChanges_verified model db o
    unfold verifyAll
    split
    next verified run =>
      rw [run] at one
      exact one.trans (ih verified)
    next => exact one

end Verification

section Arrays

def Database.HasArrays (db : Database V O B) : Prop :=
  db.hVarRecordArray.isSome ∧ db.hObjRecordArray.isSome

omit [DecidableEq V] [DecidableEq O] in
theorem ensureObjVarArray_self {db : Database V O B} (arrays : db.HasArrays) :
    db.ensureObjVarArray = db := by
  obtain ⟨vars, objs⟩ := arrays
  obtain ⟨list, isVars⟩ := Option.isSome_iff_exists.mp vars
  obtain ⟨others, isObjs⟩ := Option.isSome_iff_exists.mp objs
  simp [ensureObjVarArray, isVars, isObjs]

omit [DecidableEq V] [DecidableEq O] in
@[simp] theorem ensureObjVarArray_records (db : Database V O B) :
    db.ensureObjVarArray.records = db.records := by
  unfold ensureObjVarArray
  split <;> rfl

omit [DecidableEq V] [DecidableEq O] in
@[simp] theorem ensureObjVarArray_sessionID (db : Database V O B) :
    db.ensureObjVarArray.sessionID = db.sessionID := by
  unfold ensureObjVarArray
  split <;> rfl

omit [DecidableEq V] [DecidableEq O] in
@[simp] theorem ensureObjVarArray_trace (db : Database V O B) :
    db.ensureObjVarArray.trace = db.trace := by
  unfold ensureObjVarArray
  split <;> rfl

omit [DecidableEq V] [DecidableEq O] in
@[simp] theorem ensureObjVarArray_backend (db : Database V O B) :
    db.ensureObjVarArray.backend = db.backend := by
  unfold ensureObjVarArray
  split <;> rfl

omit [DecidableEq V] [DecidableEq O] in
theorem ensured_vars {before after : Database V O B} (vars : after.hVarRecordArray = before.hVarRecordArray)
    (objs : after.hObjRecordArray = before.hObjRecordArray) :
    after.ensureObjVarArray.vars = before.ensureObjVarArray.vars := by
  unfold ensureObjVarArray
  rw [vars, objs]
  split
  · exact congrArg (Option.getD · []) vars
  · rfl

omit [DecidableEq V] [DecidableEq O] in
theorem ensured_objs {before after : Database V O B} (vars : after.hVarRecordArray = before.hVarRecordArray)
    (objs : after.hObjRecordArray = before.hObjRecordArray) :
    after.ensureObjVarArray.objs = before.ensureObjVarArray.objs := by
  unfold ensureObjVarArray
  rw [vars, objs]
  split
  · exact congrArg (Option.getD · []) objs
  · rfl

section Track

variable (model : DataModel V O B) (round : Round V O B) (db : Database V O B) (status : Status) (v : V)
  (value : SlapVariable)

omit [DecidableEq V] in
@[simp] theorem track_records : (track model round db status v value).db.records = db.records := by
  simp [track]

omit [DecidableEq V] in
@[simp] theorem track_backend : (track model round db status v value).db.backend = db.backend := by
  simp [track]

omit [DecidableEq V] in
@[simp] theorem track_vars : (track model round db status v value).db.vars =
    addVarRecordIntoArray db.ensureObjVarArray.vars v := rfl

omit [DecidableEq V] in
@[simp] theorem track_objs : (track model round db status v value).db.objs =
    addObjRecordIntoArray db.ensureObjVarArray.objs (model.objRecord v) := rfl

omit [DecidableEq V] in
@[simp] theorem track_sessionID :
    (track model round db status v value).db.sessionID = db.sessionID := by
  simp [track]

omit [DecidableEq V] in
@[simp] theorem track_trace : (track model round db status v value).db.trace = db.trace := by
  simp [track]

omit [DecidableEq V] in
theorem track_count : (track model round db status v value).ulParameterCount =
    (track model round db status v value).db.vars.length := rfl

omit [DecidableEq V] in
theorem track_arrays : (track model round db status v value).db.HasArrays := ⟨rfl, rfl⟩

end Track

omit [DecidableEq V] [DecidableEq O] in
theorem mem_addVarRecordIntoArray {vars : List V} {v other : V} :
    other ∈ addVarRecordIntoArray vars v ↔
      other ∈ vars ∨ (other = v ∧ vars.length < maxVarInArray) := by
  unfold addVarRecordIntoArray
  split_ifs with room <;> simp [room]

omit [DecidableEq V] in
theorem mem_addObjRecordIntoArray {objs : List O} {o other : O} :
    other ∈ addObjRecordIntoArray objs o ↔
      other ∈ objs ∨ (other = o ∧ objs.length < maxObjInArray) := by
  unfold addObjRecordIntoArray
  split_ifs with full known
  · simp [Nat.not_lt.mpr full]
  · constructor
    · exact .inl
    · rintro (listed | ⟨rfl, -⟩)
      · exact listed
      · exact known
  · simp [Nat.not_le.mp full]

end Arrays

section Cleanup

variable (model : DataModel V O B) (request : Request)

omit [DecidableEq O] in
theorem dropAll_values (drop : Database V O B → V → Database V O B)
    (drops : ∀ db v, (drop db v).records = Function.update db.records v (db.records v).dropChange)
    (list : List V) (db : Database V O B) (v : V) :
    values ((list.foldl drop db).records v) =
      if v ∈ list then noValues else values (db.records v) := by
  induction list generalizing db with
  | nil => simp
  | cons head rest ih =>
    rw [List.foldl_cons, ih, drops]
    by_cases later : v ∈ rest
    · simp [later]
    · by_cases same : v = head <;> simp [later, same]

omit [DecidableEq V] [DecidableEq O] in
theorem foldl_field {A F : Type} (field : Database V O B → F) (step : Database V O B → A → Database V O B)
    (keeps : ∀ db item, field (step db item) = field db) (list : List A) (db : Database V O B) :
    field (list.foldl step db) = field db := by
  induction list generalizing db with
  | nil => rfl
  | cons item rest ih => rw [List.foldl_cons, ih, keeps]

omit [DecidableEq O] in
theorem rollback_values (round : Round V O B) (db : Database V O B) (v : V) :
    values ((rollback model request round db).records v) =
      if v ∈ db.vars.take round.ulParameterCount then noValues else values (db.records v) := by
  have dropped := dropAll_values Database.cancelChange (fun _ _ => rfl)
    (db.vars.take round.ulParameterCount) db v
  have undone := foldl_field Database.records (Database.cancelChanges model) (fun _ _ => rfl)
    (db.objs.take round.ulObjectCount)
    ((db.vars.take round.ulParameterCount).foldl Database.cancelChange db)
  rw [← dropped]
  cases snmp : request.fromSnmp with
  | true => simp only [rollback, snmp, if_true]; rfl
  | false =>
    rw [← undone]
    simp only [rollback, snmp, Bool.false_eq_true, if_false]
    rfl

inductive Ended (db : Database V O B) : SetResult V O B → Prop
  | nothing : request.paramValues = [] → Ended db ⟨.success, none, db, []⟩
  | faulted (fault : Fault) (round : Round V O B) :
      setEntries model request request.paramValues (startRound db request) = (.fault fault, round) →
      Ended db ⟨fault.status, fault.invalidParameterName, rollback model request round round.db,
        round.accepted⟩
  | left (round : Round V O B) :
      setEntries model request request.paramValues (startRound db request) = (.leave, round) →
      Ended db ⟨round.returnStatus, none, round.db, round.accepted⟩
  | unverified (round : Round V O B) (verified : Database V O B) (name : Option Text) :
      request.paramValues ≠ [] →
      setEntries model request request.paramValues (startRound db request) = (.next, round) →
      verifyAll model (round.db.objs.take round.ulObjectCount) round.db = (verified, .failed name) →
      Ended db ⟨.invalidParameterValue, name, rollback model request round verified, round.accepted⟩
  | committed (round : Round V O B) (verified : Database V O B) : request.paramValues ≠ [] →
      request.bCommit = true →
      setEntries model request request.paramValues (startRound db request) = (.next, round) →
      verifyAll model (round.db.objs.take round.ulObjectCount) round.db = (verified, .passed) →
      Ended db ⟨.success, none, (setCommit model verified request.sessionId true).2.resetObjVarArray,
        round.accepted⟩
  | kept (round : Round V O B) (verified : Database V O B) : request.paramValues ≠ [] →
      request.bCommit = false →
      setEntries model request request.paramValues (startRound db request) = (.next, round) →
      verifyAll model (round.db.objs.take round.ulObjectCount) round.db = (verified, .passed) →
      Ended db ⟨.success, none, verified, round.accepted⟩

theorem setParameterValues_cases (db : Database V O B) :
    Ended model request db (setParameterValues model db request) := by
  unfold setParameterValues
  by_cases empty : request.paramValues = []
  · rw [if_pos empty]
    exact .nothing empty
  rw [if_neg empty]
  split
  next fault round stopped => exact .faulted fault round stopped
  next round stopped => exact .left round stopped
  next round passed =>
    split
    next verified name failed => exact .unverified round verified name empty passed failed
    next verified verdict =>
      cases commit : request.bCommit with
      | true => exact .committed round verified empty commit passed verdict
      | false => exact .kept round verified empty commit passed verdict

inductive Closed (db : Database V O B) (sessionId : Int) (bCommit : Bool) : Status × Database V O B → Prop
  | refused : db.sessionID ≠ sessionId → Closed db sessionId bCommit (.failure, db)
  | empty : db.sessionID = sessionId → ¬ db.HasArrays →
      Closed db sessionId bCommit (if bCommit then .failure else .success, db.resetObjVarArray)
  | committed : db.sessionID = sessionId → db.HasArrays → bCommit = true →
      Closed db sessionId bCommit (.success, (db.vars.foldl Database.commitChange
        (db.objs.foldl (Database.commitChanges model) db)).resetObjVarArray)
  | cancelled : db.sessionID = sessionId → db.HasArrays → bCommit = false →
      Closed db sessionId bCommit (.success, (db.objs.foldl (Database.cancelChanges model)
        (db.vars.foldl Database.cancelChange db)).resetObjVarArray)

omit [DecidableEq O] in
theorem setCommit_cases (db : Database V O B) (sessionId : Int) (bCommit : Bool) :
    Closed model db sessionId bCommit (setCommit model db sessionId bCommit) := by
  unfold setCommit
  by_cases session : db.sessionID = sessionId
  · rw [if_neg (not_not.mpr session)]
    split
    next vars objs isVars isObjs =>
      have arrays : db.HasArrays := ⟨by rw [isVars]; rfl, by rw [isObjs]; rfl⟩
      have varList : db.vars = vars := by rw [Database.vars, isVars]; rfl
      have objList : db.objs = objs := by rw [Database.objs, isObjs]; rfl
      rw [← varList, ← objList]
      cases commit : bCommit with
      | true => exact .committed session arrays rfl
      | false => exact .cancelled session arrays rfl
    next missing =>
      refine .empty session fun arrays => ?_
      obtain ⟨vars, isVars⟩ := Option.isSome_iff_exists.mp arrays.1
      obtain ⟨objs, isObjs⟩ := Option.isSome_iff_exists.mp arrays.2
      exact missing vars objs isVars isObjs
  · rw [if_pos session]
    exact .refused session

omit [DecidableEq O] in
theorem setCommit_values {db : Database V O B} {sessionId : Int} (session : db.sessionID = sessionId)
    (arrays : db.HasArrays) (bCommit : Bool) (v : V) :
    values ((setCommit model db sessionId bCommit).2.records v) =
      if v ∈ db.vars then noValues else values (db.records v) := by
  have closed := setCommit_cases model db sessionId bCommit
  generalize setCommit model db sessionId bCommit = result at closed ⊢
  cases closed with
  | refused other => exact absurd session other
  | empty _ missing => exact absurd arrays missing
  | committed =>
    have objects := foldl_field Database.records (Database.commitChanges model) (fun _ _ => rfl) db.objs db
    have dropped := dropAll_values Database.commitChange (fun _ _ => rfl) db.vars
      (db.objs.foldl (Database.commitChanges model) db) v
    rw [objects] at dropped
    exact dropped
  | cancelled =>
    have objects := foldl_field Database.records (Database.cancelChanges model) (fun _ _ => rfl) db.objs
      (db.vars.foldl Database.cancelChange db)
    rw [← dropAll_values Database.cancelChange (fun _ _ => rfl) db.vars db v, ← objects]
    rfl

end Cleanup

end CcspCommon.DslhWmpDatabase
