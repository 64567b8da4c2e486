import CcspCommon.DslhWmpDatabase.Deliveries
import Mathlib

set_option autoImplicit false

namespace CcspCommon.DslhWmpDatabase

open CcspCommon.Shared CcspCommon.DslhVarRecord Database

variable {V O B : Type} [DecidableEq V] [DecidableEq O]

section Closing

def closing (bCommit : Bool) (v : V) (pending : Option SlapVariable) : Event V O :=
  if bCommit then .commitChange v pending else .cancelChange v pending

def close (bCommit : Bool) (db : Database V O B) (v : V) : Database V O B :=
  if bCommit then db.commitChange v else db.cancelChange v

omit [DecidableEq V] [DecidableEq O] in
theorem closing_inj {bCommit : Bool} {v other : V} {pending left : Option SlapVariable} :
    (closing bCommit v pending : Event V O) = closing bCommit other left ↔ v = other ∧ pending = left := by
  cases bCommit <;> simp [closing]

omit [DecidableEq O] in
theorem close_trace (bCommit : Bool) (db : Database V O B) (v : V) :
    (close bCommit db v).trace = db.trace ++ [closing bCommit v (db.records v).tempParamValue] := by
  cases bCommit <;> rfl

omit [DecidableEq O] in
theorem close_records (bCommit : Bool) (db : Database V O B) (v : V) :
    (close bCommit db v).records = Function.update db.records v (db.records v).dropChange := by
  cases bCommit <;> rfl

omit [DecidableEq O] in
theorem closeAll_events (bCommit : Bool) (list : List V) (db : Database V O B) :
    ∃ added, (list.foldl (close bCommit) db).trace = db.trace ++ added ∧
      ∀ v value, closing bCommit v (some value) ∈ added ↔
        v ∈ list ∧ (db.records v).tempParamValue = some value := by
  induction list generalizing db with
  | nil => exact ⟨[], by simp, by simp⟩
  | cons head rest ih =>
    obtain ⟨added, isAdded, closes⟩ := ih (close bCommit db head)
    refine ⟨closing bCommit head (db.records head).tempParamValue :: added, ?_, fun v value => ?_⟩
    · rw [List.foldl_cons, isAdded, close_trace]
      simp
    · rw [List.mem_cons, closes, closing_inj, close_records]
      by_cases same : v = head
      · subst same
        simp [eq_comm]
      · simp [same]

def NotClosing (event : Event V O) : Prop := ∀ bCommit v pending, event ≠ closing bCommit v pending

variable (model : DataModel V O B)

omit [DecidableEq O] in
theorem setCommit_events {db : Database V O B} {sessionId : Int} (session : db.sessionID = sessionId)
    (arrays : db.HasArrays) (bCommit : Bool) :
    ∃ added, (setCommit model db sessionId bCommit).2.trace = db.trace ++ added ∧
      ∀ v value, closing bCommit v (some value) ∈ added ↔
        v ∈ db.vars ∧ (db.records v).tempParamValue = some value := by
  have closed := setCommit_cases model db sessionId bCommit
  generalize setCommit model db sessionId bCommit = result at closed ⊢
  cases closed with
  | refused other => exact absurd session other
  | empty _ missing => exact absurd arrays missing
  | committed _ _ commit =>
    subst commit
    obtain ⟨objects, isObjects, silent⟩ : Adds NotClosing db (db.objs.foldl (commitChanges model) db) :=
      foldl_adds _ _ (fun _ _ _ => ⟨[_], rfl, by simp [NotClosing, closing]⟩) db
    have records := foldl_field Database.records (commitChanges model) (fun _ _ => rfl) db.objs db
    obtain ⟨added, isAdded, closes⟩ := closeAll_events true db.vars (db.objs.foldl (commitChanges model) db)
    rw [records] at closes
    refine ⟨objects ++ added, ?_, fun v value => ?_⟩
    · rw [← List.append_assoc, ← isObjects, ← isAdded]
      rfl
    · rw [List.mem_append, closes]
      exact or_iff_right fun member => silent _ member true v _ rfl
  | cancelled _ _ cancel =>
    subst cancel
    obtain ⟨added, isAdded, closes⟩ := closeAll_events false db.vars db
    obtain ⟨objects, isObjects, silent⟩ : Adds NotClosing (db.vars.foldl cancelChange db)
        (db.objs.foldl (cancelChanges model) (db.vars.foldl cancelChange db)) :=
      foldl_adds _ _ (fun _ _ _ => ⟨[_], rfl, by simp [NotClosing, closing]⟩) _
    refine ⟨added ++ objects, ?_, fun v value => ?_⟩
    · rw [← List.append_assoc, ← isAdded]
      exact isObjects
    · rw [List.mem_append, closes]
      exact or_iff_left fun member => silent _ member false v _ rfl

omit [DecidableEq O] in
theorem setCommit_sessionID (db : Database V O B) (sessionId : Int) (bCommit : Bool) :
    (setCommit model db sessionId bCommit).2.sessionID = db.sessionID := by
  have closed := setCommit_cases model db sessionId bCommit
  generalize setCommit model db sessionId bCommit = result at closed ⊢
  cases closed with
  | refused | empty => rfl
  | committed =>
    have objects := foldl_field Database.sessionID (commitChanges model) (fun _ _ => rfl) db.objs db
    have parameters := foldl_field Database.sessionID commitChange (fun _ _ => rfl) db.vars
      (db.objs.foldl (commitChanges model) db)
    exact parameters.trans objects
  | cancelled =>
    have parameters := foldl_field Database.sessionID cancelChange (fun _ _ => rfl) db.vars db
    have objects := foldl_field Database.sessionID (cancelChanges model) (fun _ _ => rfl) db.objs
      (db.vars.foldl cancelChange db)
    exact objects.trans parameters

end Closing

section Sessions

variable (model : DataModel V O B)

structure Sessions (V O B : Type) where
  db : Database V O B
  since : Int → List (V × SlapVariable)

def Sessions.step (sessions : Sessions V O B) : Call → Option (Sessions V O B)
  | .setParameterValues request =>
    let result := setParameterValues model sessions.db request
    let session := request.sessionId
    some ⟨result.db, if result.status.isSuccess then
      Function.update sessions.since session (sessions.since session ++ result.accepted) else sessions.since⟩
  | .setCommit sessionId bCommit =>
    some ⟨(setCommit model sessions.db sessionId bCommit).2, Function.update sessions.since sessionId []⟩

def WithoutCommit : Call → Prop
  | .setParameterValues request => request.bCommit = false
  | .setCommit _ _ => True

def KeepsSessions (sessions : Sessions V O B) (call : Call) : Prop :=
  WithoutCommit call ∧
  match call with
  | .setParameterValues request =>
    EveryEntry model request (EntryBooked model request) request.paramValues
      (startRound sessions.db request) ∧
    (request.paramValues = [] ∨ NothingPending sessions.db ∨
      (sessions.db.sessionID = request.sessionId ∧
        (setParameterValues model sessions.db request).status.isSuccess))
  | .setCommit _ _ => True

def LeavesNone (entries : List (V × SlapVariable)) : Prop :=
  ∀ v, HoldsValue model v → lastValue entries v = none

structure SessionInvariant (sessions : Sessions V O B) : Prop where
  tracked : Tracked model sessions.db
  booked : Booked model (sessions.since sessions.db.sessionID) sessions.db
  others : ∀ session, session ≠ sessions.db.sessionID → LeavesNone model (sessions.since session)

omit [DecidableEq O] in
theorem booked_of_leavesNone {db : Database V O B} {entries : List (V × SlapVariable)}
    (none : LeavesNone model entries) (nothing : NothingPending db) (settled : Settled model db) :
    Booked model entries db where
  temp v holds := (nothing v).trans (none v holds).symm
  idle v _ := nothing v
  trans v translated holds trans := by
    rw [settled v holds (nothing v)] at trans
    cases trans

omit [DecidableEq O] in
theorem SessionInvariant.leavesNone {sessions : Sessions V O B} (invariant : SessionInvariant model sessions)
    (nothing : NothingPending sessions.db) (session : Int) : LeavesNone model (sessions.since session) := by
  by_cases recorded : session = sessions.db.sessionID
  · intro v holds
    rw [recorded, ← invariant.booked.temp v holds]
    exact nothing v
  · exact invariant.others session recorded

omit [DecidableEq O] in
theorem rollback_sessionID (request : Request) (round : Round V O B) (db : Database V O B) :
    (rollback model request round db).sessionID = db.sessionID := by
  have parameters := foldl_field Database.sessionID cancelChange (fun _ _ => rfl)
    (db.vars.take round.ulParameterCount) db
  have objects := foldl_field Database.sessionID (cancelChanges model) (fun _ _ => rfl)
    (db.objs.take round.ulObjectCount) ((db.vars.take round.ulParameterCount).foldl cancelChange db)
  cases snmp : request.fromSnmp with
  | true =>
    simp only [rollback, snmp, if_true]
    exact parameters
  | false =>
    simp only [rollback, snmp, Bool.false_eq_true, if_false]
    exact objects.trans parameters

theorem setParameterValues_sessionID (db : Database V O B) {request : Request}
    (nonempty : request.paramValues ≠ []) :
    (setParameterValues model db request).db.sessionID = request.sessionId := by
  have frame := (setEntries_frame model request request.paramValues (startRound db request)).1
  have ended := setParameterValues_cases model request db
  generalize setParameterValues model db request = result at ended ⊢
  cases ended with
  | nothing empty => exact absurd empty nonempty
  | faulted fault round stopped =>
    rw [stopped] at frame
    exact (rollback_sessionID model request round round.db).trans frame
  | left round stopped =>
    rw [stopped] at frame
    exact frame
  | unverified round verified name _ passed failed =>
    have same := verifyAll_verified model (round.db.objs.take round.ulObjectCount) round.db
    rw [passed] at frame
    rw [failed] at same
    exact (rollback_sessionID model request round verified).trans (same.sessionID.trans frame)
  | committed round verified _ _ passed succeeded =>
    have same := verifyAll_verified model (round.db.objs.take round.ulObjectCount) round.db
    rw [passed] at frame
    rw [succeeded] at same
    exact (setCommit_sessionID model verified request.sessionId true).trans (same.sessionID.trans frame)
  | kept round verified _ _ passed succeeded =>
    have same := verifyAll_verified model (round.db.objs.take round.ulObjectCount) round.db
    rw [passed] at frame
    rw [succeeded] at same
    exact same.sessionID.trans frame

omit [DecidableEq O] in
theorem SessionInvariant.before_set {sessions : Sessions V O B} (invariant : SessionInvariant model sessions)
    {request : Request}
    (own : NothingPending sessions.db ∨ sessions.db.sessionID = request.sessionId) :
    Booked model (sessions.since request.sessionId) sessions.db ∧
      ∀ session, session ≠ request.sessionId → LeavesNone model (sessions.since session) := by
  rcases own with nothing | same
  · have none := invariant.leavesNone model nothing
    exact ⟨booked_of_leavesNone model (none _) nothing (invariant.booked.settled model), fun session _ => none session⟩
  · rw [← same]
    exact ⟨invariant.booked, invariant.others⟩

theorem setParameterValues_sessions {sessions : Sessions V O B} (invariant : SessionInvariant model sessions)
    {request : Request} (keeps : KeepsSessions model sessions (.setParameterValues request))
    {after : Sessions V O B} (run : sessions.step model (.setParameterValues request) = some after) :
    SessionInvariant model after := by
  obtain ⟨pending, every, admissible⟩ := keeps
  change request.bCommit = false at pending
  have tracked := setParameterValues_tracked model request invariant.tracked
    (EveryEntry.mono model request (fun _ _ met => met.1) _ every)
  obtain rfl := Option.some.inj run
  by_cases empty : request.paramValues = []
  · have same : setParameterValues model sessions.db request = ⟨.success, none, sessions.db, []⟩ := by
      unfold setParameterValues
      rw [if_pos empty]
    simpa [same, Status.isSuccess] using invariant
  have session := setParameterValues_sessionID model sessions.db empty
  replace admissible := admissible.resolve_left empty
  obtain ⟨books, others⟩ := invariant.before_set model (admissible.imp_right And.left)
  obtain ⟨settled, booked⟩ := setParameterValues_booked model books every
  rcases booked with ⟨success, kept⟩ | ⟨missing, failed | commit⟩
  · refine ⟨tracked, ?_, fun other different => ?_⟩
    · simpa [session, success] using kept
    · rw [session] at different
      simpa [success, different] using others other different
  · -- a rejected set has cleared the values, and none were pending before it
    have nothing : NothingPending sessions.db := by
      rcases admissible with nothing | ⟨-, succeeds⟩
      · exact nothing
      · rw [failed] at succeeds
        cases succeeds
    have none := invariant.leavesNone model nothing
    simp only [failed, Bool.false_eq_true, if_false]
    exact ⟨tracked, booked_of_leavesNone model (none _) (tracked.nothingPending model missing) settled,
      fun other _ => none other⟩
  · rw [pending] at commit
    cases commit

omit [DecidableEq O] in
theorem setCommit_sessions {sessions : Sessions V O B} (invariant : SessionInvariant model sessions)
    (sessionId : Int) (bCommit : Bool) : SessionInvariant model
      ⟨(setCommit model sessions.db sessionId bCommit).2, Function.update sessions.since sessionId []⟩ := by
  have session := setCommit_sessionID model sessions.db sessionId bCommit
  have tracked := setCommit_tracked model invariant.tracked sessionId bCommit
  have others : ∀ other, other ≠ sessions.db.sessionID →
      LeavesNone model (Function.update sessions.since sessionId [] other) := by
    intro other different
    by_cases same : other = sessionId
    · subst same
      simp [LeavesNone]
    · simpa [same] using invariant.others other different
  refine ⟨tracked, ?_, by simpa only [session] using others⟩
  simp only [session]
  by_cases recorded : sessions.db.sessionID = sessionId
  · have nothing := setCommit_nothingPending model invariant.tracked recorded bCommit
    have settled := setCommit_settled model (invariant.booked.settled model) sessionId bCommit
    simpa [recorded] using booked_nil model nothing settled
  · have refused : setCommit model sessions.db sessionId bCommit = (.failure, sessions.db) := by
      unfold setCommit
      rw [if_pos recorded]
    simpa [refused, recorded] using invariant.booked

theorem Sessions.step_invariant (sessions after : Sessions V O B) (call : Call)
    (invariant : SessionInvariant model sessions) (keeps : KeepsSessions model sessions call)
    (run : sessions.step model call = some after) : SessionInvariant model after := by
  cases call with
  | setParameterValues request => exact setParameterValues_sessions model invariant keeps run
  | setCommit sessionId bCommit =>
    obtain rfl := Option.some.inj run
    exact setCommit_sessions model invariant sessionId bCommit

def ClosesExactly (sessions : Sessions V O B) (sessionId : Int) (bCommit : Bool) : Prop :=
  ∃ added, (setCommit model sessions.db sessionId bCommit).2.trace = sessions.db.trace ++ added ∧
    ∀ v value, closing bCommit v (some value) ∈ added ↔
      HoldsValue model v ∧ lastValue (sessions.since sessionId) v = some value

omit [DecidableEq O] in
theorem SessionInvariant.closesExactly {sessions : Sessions V O B} (invariant : SessionInvariant model sessions)
    {sessionId : Int} {bCommit : Bool}
    (accepted : (setCommit model sessions.db sessionId bCommit).1 = .success) :
    ClosesExactly model sessions sessionId bCommit := by
  have recorded : sessions.db.sessionID = sessionId := by
    by_contra different
    simp [setCommit, different] at accepted
  have pending : ∀ v value, (sessions.db.records v).tempParamValue = some value ↔
      HoldsValue model v ∧ lastValue (sessions.since sessionId) v = some value := by
    intro v value
    by_cases holds : HoldsValue model v
    · rw [invariant.booked.temp v holds, recorded]
      simp [holds]
    · rw [invariant.booked.idle v holds]
      simp [holds]
  by_cases arrays : sessions.db.HasArrays
  · obtain ⟨added, isAdded, closes⟩ := setCommit_events model recorded arrays bCommit
    refine ⟨added, isAdded, fun v value => ?_⟩
    rw [closes, ← pending]
    refine and_iff_right_of_imp fun known => (invariant.tracked v ?_).1
    rw [known]
    exact Option.some_ne_none value
  · have nothing : NothingPending sessions.db := by
      intro v
      by_contra held
      exact arrays (invariant.tracked.hasArrays model held)
    refine ⟨[], ?_, fun v value => ?_⟩
    · have closed := setCommit_cases model sessions.db sessionId bCommit
      generalize setCommit model sessions.db sessionId bCommit = result at closed ⊢
      cases closed with
      | refused | empty => simp [resetObjVarArray]
      | committed _ present | cancelled _ present => exact absurd present arrays
    · rw [← pending, nothing v]
      simp

theorem session_closes_own_values {psmUserChanged : Text → Bool} {backend : B} {sessions : Sessions V O B}
    (reached : Reachable (Sessions.step model) (KeepsSessions model)
      ⟨create psmUserChanged backend, fun _ => []⟩ sessions)
    (sessionId : Int) (bCommit : Bool)
    (accepted : (setCommit model sessions.db sessionId bCommit).1 = .success) :
    ClosesExactly model sessions sessionId bCommit := by
  have invariant : SessionInvariant model sessions := by
    refine reached.invariant ⟨fun _ pending => absurd rfl pending,
      ⟨fun _ _ => rfl, fun _ _ => rfl, nofun⟩, fun _ _ _ _ => rfl⟩ ?_
    exact fun before after call held allowed run => Sessions.step_invariant model before after call held allowed run
  exact invariant.closesExactly model accepted

omit [DecidableEq O] in
theorem not_closesExactly {sessions : Sessions V O B} {sessionId : Int} {bCommit : Bool} (v : V)
    (value : SlapVariable) (session : sessions.db.sessionID = sessionId) (arrays : sessions.db.HasArrays)
    (listed : v ∈ sessions.db.vars) (pending : (sessions.db.records v).tempParamValue = some value)
    (foreign : lastValue (sessions.since sessionId) v ≠ some value) :
    ¬ ClosesExactly model sessions sessionId bCommit := by
  rintro ⟨added, isAdded, closes⟩
  obtain ⟨events, isEvents, known⟩ := setCommit_events model session arrays bCommit
  obtain rfl := List.append_cancel_left (isAdded.symm.trans isEvents)
  exact foreign ((closes v value).mp ((known v value).mpr ⟨listed, pending⟩)).2

end Sessions

theorem session_closes_own_values_single : ∃ sessions,
    Sessions.step sampleModel ⟨sampleDatabase, fun _ => []⟩
      (.setParameterValues (writeRequest "Device.Name" "x" 1 7 false)) = some sessions ∧
    ClosesExactly sampleModel sessions 7 true := by
  have room : FindsRoom sampleModel (startRound sampleDatabase
      (writeRequest "Device.Name" "x" 1 7 false)).db.ensureObjVarArray true :=
    ⟨.inr (by decide), .inr (by decide)⟩
  have allowed : KeepsSessions sampleModel ⟨sampleDatabase, fun _ => []⟩
      (.setParameterValues (writeRequest "Device.Name" "x" 1 7 false)) :=
    ⟨rfl, ⟨⟨fun _ => room, fun _ _ _ left => nomatch left⟩, fun _ => trivial⟩, .inr (.inl fun _ => rfl)⟩
  exact ⟨_, rfl, session_closes_own_values sampleModel (.next .start allowed rfl) 7 true rfl⟩

/-- Session 2 commits, with its own write of `Device.Key`, the write of `Device.Name` by session 1. -/
theorem session_commits_foreign_value :
    ¬ ∀ sessions, Reachable (Sessions.step sampleModel) (fun _ call => WithoutCommit call)
        ⟨sampleDatabase, fun _ => []⟩ sessions →
      ∀ sessionId bCommit, (setCommit sampleModel sessions.db sessionId bCommit).1 = .success →
        ClosesExactly sampleModel sessions sessionId bCommit := by
  intro always
  let calls : List Call :=
    [.setParameterValues (writeRequest "Device.Name" "x" 1 1 false),
     .setParameterValues (writeRequest "Device.Key" "y" 0xFFFFFFFF 2 false)]
  have claimed : ∀ call ∈ calls, WithoutCommit call := by simp [calls, WithoutCommit, writeRequest]
  have reached := runAll_reachable calls (fun _ => claimed) .start
    (rfl : runAll (Sessions.step sampleModel) ⟨sampleDatabase, fun _ => []⟩ calls = some _)
  refine not_closesExactly sampleModel true (.varString (some "x".toList)) ?_ ?_ ?_ ?_ ?_
    (always _ reached 2 true rfl)
  · rfl
  · exact ⟨rfl, rfl⟩
  · exact .head _
  · rfl
  · exact nofun

end CcspCommon.DslhWmpDatabase
