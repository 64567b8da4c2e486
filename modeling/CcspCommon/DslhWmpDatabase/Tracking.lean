import CcspCommon.DslhWmpDatabase.Atomicity
import CcspCommon.Shared.Run

set_option autoImplicit false

namespace CcspCommon.DslhWmpDatabase

open CcspCommon.Shared CcspCommon.DslhVarRecord Database

inductive Call
  | setParameterValues (request : Request)
  | setCommit (sessionId : Int) (bCommit : Bool)

variable {V O B : Type} [DecidableEq V] [DecidableEq O]

section Condition

variable (model : DataModel V O B)

def step (db : Database V O B) : Call → Option (Database V O B)
  | .setParameterValues request => some (setParameterValues model db request).db
  | .setCommit sessionId bCommit => some (setCommit model db sessionId bCommit).2

def HoldsValue (v : V) : Prop :=
  (model.entity v).bPersistent = true ∨ model.bGroupCommit (model.objRecord v) = true

def Tracked (db : Database V O B) : Prop :=
  ∀ v, (db.records v).tempParamValue ≠ none → v ∈ db.vars ∧ model.objRecord v ∈ db.objs

def NothingPending (db : Database V O B) : Prop := ∀ v, (db.records v).tempParamValue = none

def AllCounted (round : Round V O B) : Prop := 0 < round.ulParameterCount ∨ NothingPending round.db

def FindsRoom (db : Database V O B) (v : V) : Prop :=
  (v ∈ db.vars ∨ db.vars.length < maxVarInArray) ∧
    (model.objRecord v ∈ db.objs ∨ db.objs.length < maxObjInArray)

def EntryKeeps (request : Request) (round : Round V O B) (entry : ParamValue) : Prop :=
  match stores model request round entry, (setEntry model request round entry).1 with
  | none, _ => AllCounted round
  | some (v, _), .next => HoldsValue model v → FindsRoom model round.db.ensureObjVarArray v
  | some (v, _), .fault _ => AllCounted round ∧
      (HoldsValue model v → v ∈ round.db.vars.take round.ulParameterCount)
  | some (v, _), .leave => HoldsValue model v → v ∈ round.db.vars ∧ model.objRecord v ∈ round.db.objs

def KeepsTracked (db : Database V O B) : Call → Prop
  | .setParameterValues request => EveryEntry model request (EntryKeeps model request)
      request.paramValues (startRound db request)
  | .setCommit _ _ => True

end Condition

section Entries

variable (model : DataModel V O B) (request : Request)

omit [DecidableEq V] [DecidableEq O] in
theorem Tracked.hasArrays {db : Database V O B} (tracked : Tracked model db) {v : V}
    (pending : (db.records v).tempParamValue ≠ none) : db.HasArrays := by
  obtain ⟨listed, owned⟩ := tracked v pending
  constructor
  · cases vars : db.hVarRecordArray with
    | none => simp [Database.vars, vars] at listed
    | some list => rfl
  · cases objs : db.hObjRecordArray with
    | none => simp [Database.objs, objs] at owned
    | some list => rfl

omit [DecidableEq V] [DecidableEq O] in
theorem Tracked.nothingPending {db : Database V O B} (tracked : Tracked model db)
    (missing : db.hVarRecordArray = none) : NothingPending db := by
  intro v
  by_contra pending
  have arrays := (tracked.hasArrays model pending).1
  rw [missing] at arrays
  cases arrays

omit [DecidableEq V] [DecidableEq O] in
theorem NothingPending.tracked {db : Database V O B} (nothing : NothingPending db) : Tracked model db :=
  fun v pending => absurd (nothing v) pending

omit [DecidableEq V] [DecidableEq O] in
theorem temp_of_values {record other : VarRecord} (same : values record = values other) :
    record.tempParamValue = other.tempParamValue := congrArg Prod.fst same

omit [DecidableEq V] [DecidableEq O] in
theorem trans_of_values {record other : VarRecord} (same : values record = values other) :
    record.tempParamValueTrans = other.tempParamValueTrans := congrArg (fun all => all.2.1) same

omit [DecidableEq V] [DecidableEq O] in
theorem Touched.pending {before after : Database V O B} {v other : V} {value : SlapVariable}
    {old : Option SlapVariable} (touched : Touched model before after v value old)
    (pending : (after.records other).tempParamValue ≠ none) :
    (before.records other).tempParamValue ≠ none ∨ (other = v ∧ HoldsValue model v) := by
  by_cases same : other = v
  · subst same
    rw [touched.temp] at pending
    split_ifs at pending with holds
    · exact .inr ⟨rfl, by simpa [HoldsValue] using holds⟩
    · exact .inl pending
  · left
    rwa [← temp_of_values (touched.others other same)]

def TrackedAfter : Outcome × Round V O B → Prop
  | (.next, round) => Tracked model round.db ∧
      (0 < round.ulParameterCount → round.ulParameterCount = round.db.vars.length)
  | (.leave, round) => Tracked model round.db
  | (.fault _, round) => ∀ v, (round.db.records v).tempParamValue ≠ none →
      v ∈ round.db.vars.take round.ulParameterCount

omit [DecidableEq V] [DecidableEq O] in
theorem AllCounted.reaches {round : Round V O B} (all : AllCounted round)
    (good : TrackedAfter model (.next, round)) {v : V}
    (pending : (round.db.records v).tempParamValue ≠ none) :
    v ∈ round.db.vars.take round.ulParameterCount := by
  rcases all with counted | nothing
  · rw [good.2 counted, List.take_length]
    exact (good.1 v pending).1
  · exact absurd (nothing v) pending

omit [DecidableEq V] [DecidableEq O] in
theorem rejected_trackedAfter {round : Round V O B} (all : AllCounted round)
    (good : TrackedAfter model (.next, round)) {v : V} {value : SlapVariable} {db : Database V O B}
    {old : Option SlapVariable} (touched : Touched model round.db db v value old)
    (own : HoldsValue model v → v ∈ round.db.vars.take round.ulParameterCount) (fault : Fault) :
    TrackedAfter model (.fault fault, { round with db := db }) := by
  have vars : db.vars = round.db.vars := congrArg (Option.getD · []) touched.vars
  intro other pending
  change other ∈ db.vars.take round.ulParameterCount
  rw [vars]
  rcases touched.pending model pending with before | ⟨rfl, holds⟩
  · exact all.reaches model good before
  · exact own holds

theorem setEntry_trackedAfter (round : Round V O B) (entry : ParamValue)
    (good : TrackedAfter model (.next, round)) (keeps : EntryKeeps model request round entry) :
    TrackedAfter model (setEntry model request round entry) := by
  have step := setEntry_cases model request round entry
  unfold EntryKeeps at keeps
  generalize setEntry model request round entry = result at step keeps ⊢
  cases step with
  | rejected fault nothing _ =>
    simp only [nothing] at keeps
    intro v pending
    exact keeps.reaches model good pending
  | denied v name value db stored touched =>
    simp only [stored] at keeps
    exact rejected_trackedAfter model keeps.1 good touched keeps.2 _
  | refused v name value db stored touched =>
    simp only [stored] at keeps
    exact rejected_trackedAfter model keeps.1 good touched keeps.2 _
  | left v value db status stored touched =>
    simp only [stored] at keeps
    have vars : db.vars = round.db.vars := congrArg (Option.getD · []) touched.vars
    have objs : db.objs = round.db.objs := congrArg (Option.getD · []) touched.objs
    intro other pending
    change other ∈ db.vars ∧ model.objRecord other ∈ db.objs
    rw [vars, objs]
    rcases touched.pending model pending with before | ⟨rfl, holds⟩
    · exact good.1 other before
    · exact keeps holds
  | tracked v value db status stored touched =>
    simp only [stored] at keeps
    refine ⟨fun other pending => ?_, fun _ => rfl⟩
    rw [track_records] at pending
    rw [track_vars, track_objs, mem_addVarRecordIntoArray, mem_addObjRecordIntoArray,
      ensured_vars touched.vars touched.objs, ensured_objs touched.vars touched.objs]
    rcases touched.pending model pending with before | ⟨rfl, holds⟩
    · rw [ensureObjVarArray_self (good.1.hasArrays model before)]
      obtain ⟨listed, owned⟩ := good.1 other before
      exact ⟨.inl listed, .inl owned⟩
    · simpa [FindsRoom] using keeps holds

omit [DecidableEq V] [DecidableEq O] in
theorem startRound_trackedAfter {db : Database V O B} (tracked : Tracked model db) :
    TrackedAfter model (.next, startRound db request) :=
  ⟨tracked, fun counted => absurd counted (Nat.lt_irrefl 0)⟩

def CountedAfter : Outcome × Round V O B → Prop
  | (.next, round) => round.ulParameterCount = round.db.vars.length ∧ round.db.HasArrays
  | _ => True

theorem setEntry_countedAfter (round : Round V O B) (entry : ParamValue) :
    CountedAfter (setEntry model request round entry) := by
  have step := setEntry_cases model request round entry
  generalize setEntry model request round entry = result at step ⊢
  cases step with
  | rejected | denied | refused | left => trivial
  | tracked v value db status => exact ⟨rfl, track_arrays model round db status v value⟩

theorem setEntries_countedAfter {entries : List ParamValue} (nonempty : entries ≠ []) (round : Round V O B) :
    CountedAfter (setEntries model request entries round) := by
  cases entries with
  | nil => exact absurd rfl nonempty
  | cons entry rest =>
    have once := setEntry_countedAfter model request round entry
    simp only [setEntries]
    split
    next later run =>
      rw [run] at once
      exact setEntries_keeps model request CountedAfter
        (fun round entry _ => setEntry_countedAfter model request round entry) rest once
    next stopped => exact once

theorem setEntries_frame (entries : List ParamValue) (round : Round V O B) :
    (setEntries model request entries round).2.db.sessionID = round.db.sessionID ∧
      (setEntries model request entries round).2.db.trace = round.db.trace := by
  refine setEntries_keeps model request (fun result => result.2.db.sessionID = round.db.sessionID ∧
    result.2.db.trace = round.db.trace) (fun before entry held => ?_) entries ⟨rfl, rfl⟩
  have step := setEntry_cases model request before entry
  generalize setEntry model request before entry = result at step ⊢
  cases step with
  | rejected => exact held
  | denied _ _ _ _ _ touched | refused _ _ _ _ _ touched | left _ _ _ _ _ touched =>
    exact ⟨touched.sessionID.trans held.1, touched.trace.trans held.2⟩
  | tracked v value db status _ touched =>
    rw [track_sessionID, track_trace, touched.sessionID, touched.trace]
    exact held

end Entries

section Calls

variable (model : DataModel V O B) (request : Request)

omit [DecidableEq O] in
theorem rollback_nothingPending {round : Round V O B} {db : Database V O B}
    (reaches : ∀ v, (db.records v).tempParamValue ≠ none → v ∈ db.vars.take round.ulParameterCount) :
    NothingPending (rollback model request round db) := by
  intro v
  have after := rollback_values model request round db v
  by_cases listed : v ∈ db.vars.take round.ulParameterCount
  · rw [if_pos listed] at after
    exact congrArg Prod.fst after
  · rw [if_neg listed] at after
    rw [temp_of_values after]
    by_contra pending
    exact listed (reaches v pending)

omit [DecidableEq O] in
theorem setCommit_nothingPending {db : Database V O B} (tracked : Tracked model db) {sessionId : Int}
    (session : db.sessionID = sessionId) (bCommit : Bool) :
    NothingPending (setCommit model db sessionId bCommit).2 := by
  intro v
  by_cases arrays : db.HasArrays
  · have after := setCommit_values model session arrays bCommit v
    by_cases listed : v ∈ db.vars
    · rw [if_pos listed] at after
      exact congrArg Prod.fst after
    · rw [if_neg listed] at after
      rw [temp_of_values after]
      by_contra pending
      exact listed (tracked v pending).1
  · have closed := setCommit_cases model db sessionId bCommit
    generalize setCommit model db sessionId bCommit = result at closed ⊢
    cases closed with
    | refused other => exact absurd session other
    | empty =>
      change (db.records v).tempParamValue = none
      by_contra pending
      exact arrays (tracked.hasArrays model pending)
    | committed _ present => exact absurd present arrays
    | cancelled _ present => exact absurd present arrays

omit [DecidableEq O] in
theorem setCommit_tracked {db : Database V O B} (tracked : Tracked model db) (sessionId : Int)
    (bCommit : Bool) : Tracked model (setCommit model db sessionId bCommit).2 := by
  by_cases session : db.sessionID = sessionId
  · exact (setCommit_nothingPending model tracked session bCommit).tracked model
  · have unchanged : setCommit model db sessionId bCommit = (.failure, db) := by
      unfold setCommit
      rw [if_pos session]
    rw [unchanged]
    exact tracked

omit [DecidableEq V] [DecidableEq O] in
theorem Verified.tracked {before after : Database V O B} (verified : Verified before after)
    (tracked : Tracked model before) : Tracked model after := by
  intro v pending
  rw [temp_of_values (verified.values v)] at pending
  simpa only [Database.vars, Database.objs, verified.vars, verified.objs] using tracked v pending

theorem setParameterValues_tracked {db : Database V O B} (tracked : Tracked model db)
    (keeps : KeepsTracked model db (.setParameterValues request)) :
    Tracked model (setParameterValues model db request).db := by
  have run := setEntries_run model request (TrackedAfter model) (setEntry_trackedAfter model request)
    request.paramValues (startRound_trackedAfter model request tracked) keeps
  have frame := setEntries_frame model request request.paramValues (startRound db request)
  have ended := setParameterValues_cases model request db
  generalize setParameterValues model db request = result at ended ⊢
  cases ended with
  | nothing => exact tracked
  | faulted fault round stopped =>
    rw [stopped] at run
    exact (rollback_nothingPending model request run).tracked model
  | left round stopped =>
    rw [stopped] at run
    exact run
  | unverified round verified name nonempty passed failed =>
    have counted := setEntries_countedAfter model request nonempty (startRound db request)
    have same := verifyAll_verified model (round.db.objs.take round.ulObjectCount) round.db
    rw [passed] at run counted
    rw [failed] at same
    refine NothingPending.tracked model (rollback_nothingPending model request fun v pending => ?_)
    have vars : verified.vars = round.db.vars := congrArg (Option.getD · []) same.vars
    rw [counted.1, ← vars, List.take_length]
    exact (same.tracked model run.1 v pending).1
  | committed round verified nonempty commit passed succeeded =>
    have same := verifyAll_verified model (round.db.objs.take round.ulObjectCount) round.db
    rw [passed] at run frame
    rw [succeeded] at same
    have session : verified.sessionID = request.sessionId := same.sessionID.trans frame.1
    have closed := setCommit_nothingPending model (same.tracked model run.1) session true
    exact NothingPending.tracked model closed
  | kept round verified nonempty commit passed succeeded =>
    have same := verifyAll_verified model (round.db.objs.take round.ulObjectCount) round.db
    rw [passed] at run
    rw [succeeded] at same
    exact same.tracked model run.1

theorem step_tracked (db after : Database V O B) (call : Call) (tracked : Tracked model db)
    (keeps : KeepsTracked model db call) (run : step model db call = some after) : Tracked model after := by
  cases call with
  | setParameterValues request =>
    obtain rfl := Option.some.inj run
    exact setParameterValues_tracked model request tracked keeps
  | setCommit sessionId bCommit =>
    obtain rfl := Option.some.inj run
    exact setCommit_tracked model tracked sessionId bCommit

theorem pending_values_tracked {psmUserChanged : Text → Bool} {backend : B} {db : Database V O B}
    (reached : Reachable (step model) (KeepsTracked model) (create psmUserChanged backend) db) :
    Tracked model db :=
  reached.invariant (fun _ pending => absurd rfl pending) fun before after call tracked keeps run =>
    step_tracked model before after call tracked keeps run

end Calls

theorem pending_values_tracked_open_write : ∃ db,
    step sampleModel sampleDatabase (.setParameterValues (writeRequest "Device.Name" "x" 1 7 false)) = some db ∧
      (db.records true).tempParamValue ≠ none ∧ Tracked sampleModel db := by
  have room : FindsRoom sampleModel (startRound sampleDatabase
      (writeRequest "Device.Name" "x" 1 7 false)).db.ensureObjVarArray true :=
    ⟨.inr (by decide), .inr (by decide)⟩
  have allowed : KeepsTracked sampleModel sampleDatabase
      (.setParameterValues (writeRequest "Device.Name" "x" 1 7 false)) :=
    ⟨fun _ => room, fun _ => trivial⟩
  exact ⟨_, rfl, nofun, pending_values_tracked sampleModel (.next .start allowed rfl)⟩

/-- A denied write of `Device.Key` leaves a pending value that no array has. -/
theorem denied_write_pending_untracked :
    ¬ ∀ db : Database Bool Unit Unit,
      Reachable (step sampleModel) (fun _ _ => True) sampleDatabase db → Tracked sampleModel db := by
  intro always
  let calls : List Call := [.setParameterValues (writeRequest "Device.Key" "x" 1 7 true)]
  have reached := runAll_reachable calls (fun _ _ _ => trivial) .start
    (rfl : runAll (step sampleModel) sampleDatabase calls = some _)
  have listed := (always _ reached false nofun).1
  cases listed

end CcspCommon.DslhWmpDatabase
